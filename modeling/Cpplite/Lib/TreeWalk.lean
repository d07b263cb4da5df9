import Cpplite.Lib.HeightTree

/-!
Neighbours in a height-indexed tree.

A pair of adjacent children of a node is a frame with the two of them in its hole, so it
has a frame around each. Going to the next child turns one into the other, and going back
undoes it. The first and the last child of a node have nothing beside them.
-/
namespace HeightTree

variable {K P V α : Type}

namespace Frame

/-- The frame around the first of a pair. -/
def atLeft : Frame K P α → K → α → Frame K P α
  | last p as, k, u => mid p as k [] u
  | mid p as k' bs r, k, u => mid p as k ((k', u) :: bs) r

/-- The frame around the second of a pair. -/
def atRight : Frame K P α → α → K → Frame K P α
  | last p as, t, k => last p (as ++ [(k, t)])
  | mid p as k' bs r, t, k => mid p (as ++ [(k, t)]) k' bs r

variable {f : Frame K P α} {k : K} {t u : α}

@[simp] theorem atLeft_id : (f.atLeft k u).id = f.id := by cases f <;> rfl

@[simp] theorem atRight_id : (f.atRight t k).id = f.id := by cases f <;> rfl

@[simp] theorem atLeft_pre : (f.atLeft k u).pre = f.pre := by cases f <;> rfl

@[simp] theorem atRight_pre : (f.atRight t k).pre = f.pre ++ [(k, t)] := by cases f <;> rfl

/-- Both frames are around children of one node. -/
theorem plug_atRight : (f.atRight t k).plug u = (f.atLeft k u).plug t := by
  cases f <;> simp [atRight, atLeft, plug]

theorem pre_lt_size_atLeft : (f.atLeft k u).pre.length < (f.atLeft k u).size := by
  cases f <;> simp [atLeft, pre, size]
  omega

/-- Short of the last child there is a next one. -/
theorem exists_atLeft (h : f.pre.length < f.size) : ∃ (f' : Frame K P α) (k : K) (u : α), f = f'.atLeft k u := by
  cases f with
  | last p as => exact absurd h (lt_irrefl _)
  | mid p as k bs r =>
    cases bs with
    | nil => exact ⟨last p as, k, r, rfl⟩
    | cons b bs => exact ⟨mid p as b.1 bs r, k, b.2, rfl⟩

/-- After the first child there is a previous one. -/
theorem exists_atRight (h : 0 < f.pre.length) : 
    ∃ (f' : Frame K P α) (t : α) (k : K), f = f'.atRight t k := by
  cases f with
  | last p pre =>
    rcases List.eq_nil_or_concat' pre with rfl | ⟨as, a, rfl⟩
    · exact absurd h (lt_irrefl _)
    · exact ⟨last p as, a.2, a.1, rfl⟩
  | mid p pre k bs r =>
    rcases List.eq_nil_or_concat' pre with rfl | ⟨as, a, rfl⟩
    · exact absurd h (lt_irrefl _)
    · exact ⟨mid p as k bs r, a.2, a.1, rfl⟩

section Entries

variable {n : Nat} {f : Frame K P (Tree K P V n)} {t u : Tree K P V n}

theorem entries_atLeft : entries (f.atLeft k u).spineL = entries f.spineL ∧
    entries (f.atLeft k u).spineR = entries u.spine ++ entries f.spineR := by
  cases f <;> simp [atLeft, spineL, spineR, foldL, foldR, Frame.pre, entries]

theorem entries_atRight : entries (f.atRight t k).spineL = entries f.spineL ++ entries t.spine ∧
    entries (f.atRight t k).spineR = entries f.spineR := by
  cases f <;> simp [atRight, spineL, spineR, foldL, foldR, Frame.pre, entries]

theorem entries_spineL_nil (h : f.pre.length = 0) : entries f.spineL = [] := by
  rw [List.length_eq_zero_iff] at h
  simp [spineL, foldL, h]

theorem entries_spineR_nil (h : f.pre.length = f.size) : entries f.spineR = [] := by
  cases f with
  | last p as => rfl
  | mid p as k bs r =>
    simp only [pre, size] at h
    omega

end Entries

end Frame

section Cells

variable {m n : Nat} {c : Ctx K P V m n} {t : Tree K P V n}

theorem Ctx.entries_plug : entries (c.plug t).spine =
    entries c.spineL ++ entries t.spine ++ entries c.spineR := by
  rw [Ctx.spine_plug, entries_append, entries_append]

/-- Two places of one tree with the same cells right of them have the same cells up to there. -/
theorem Ctx.entries_upto {n' : Nat} {c' : Ctx K P V m n'} {t' : Tree K P V n'}
    (h : c.plug t = c'.plug t') (hr : entries c.spineR = entries c'.spineR) :
    entries c.spineL ++ entries t.spine = entries c'.spineL ++ entries t'.spine := by
  have he : entries (c.plug t).spine = entries (c'.plug t').spine := by rw [h]
  rw [Ctx.entries_plug, Ctx.entries_plug, hr] at he
  exact List.append_cancel_right he

theorem Ctx.entries_from {n' : Nat} {c' : Ctx K P V m n'} {t' : Tree K P V n'}
    (h : c.plug t = c'.plug t') (hl : entries c.spineL = entries c'.spineL) :
    entries t.spine ++ entries c.spineR = entries t'.spine ++ entries c'.spineR := by
  have he : entries (c.plug t).spine = entries (c'.plug t').spine := by rw [h]
  rw [Ctx.entries_plug, Ctx.entries_plug, hl, List.append_assoc, List.append_assoc] at he
  exact List.append_cancel_left he

end Cells

end HeightTree
