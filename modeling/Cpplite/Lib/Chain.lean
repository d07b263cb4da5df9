import Mathlib.Tactic

/-!
Lists threaded through a memory: singly linked chains that end in a null address,
and doubly linked segments between two given neighbours.
-/
namespace Linked

variable {P : Type}

section Chain

variable {next next' : P → P → Prop} {null p q a : P} {l l' : List P}

/-- Following `next` from `p` visits exactly `l` and ends at `null`. -/
def Chain (next : P → P → Prop) (null : P) : P → List P → Prop
  | p, [] => p = null
  | p, a :: l => p = a ∧ a ≠ null ∧ ∃ q, next a q ∧ Chain next null q l

theorem Chain.congr (h : Chain next null p l)
    (hn : ∀ a ∈ l, ∀ q, next a q → next' a q) : Chain next' null p l := by
  induction l generalizing p with
  | nil => exact h
  | cons a l ih =>
    obtain ⟨rfl, hne, q, hq, hl⟩ := h
    exact ⟨rfl, hne, q, hn p (by simp) q hq, ih hl (fun b hb => hn b (by simp [hb]))⟩

theorem Chain.nil_of_null (h : Chain next null null l) : l = [] := by
  cases l with
  | nil => rfl
  | cons a l => exact absurd h.1.symm h.2.1

theorem Chain.cons_of_ne (h : Chain next null p l) (hp : p ≠ null) :
    ∃ q l', l = p :: l' ∧ next p q ∧ Chain next null q l' := by
  cases l with
  | nil => exact absurd h hp
  | cons a l =>
    obtain ⟨rfl, -, q, hq, hl⟩ := h
    exact ⟨q, l, rfl, hq, hl⟩

/-- Where each address has one successor, the chain from an address is determined. -/
theorem Chain.unique (hf : ∀ a q q', next a q → next a q' → q = q')
    (h : Chain next null p l) (h' : Chain next null p l') : l = l' := by
  induction l generalizing p l' with
  | nil =>
    subst h
    exact h'.nil_of_null.symm
  | cons a l ih =>
    obtain ⟨rfl, hne, q, hq, hl⟩ := h
    obtain ⟨q', l'', rfl, hq', hl'⟩ := h'.cons_of_ne hne
    obtain rfl := hf p q q' hq hq'
    rw [ih hl hl']

theorem Chain.of_mem (h : Chain next null p l) (ha : a ∈ l) :
    ∃ l₁ l₂, l = l₁ ++ a :: l₂ ∧ Chain next null a (a :: l₂) := by
  induction l generalizing p with
  | nil => cases ha
  | cons b l ih =>
    obtain ⟨rfl, hne, q, hq, hl⟩ := h
    rcases List.mem_cons.mp ha with rfl | ha
    · exact ⟨[], l, rfl, rfl, hne, q, hq, hl⟩
    · obtain ⟨l₁, l₂, rfl, hc⟩ := ih hl ha
      exact ⟨p :: l₁, l₂, rfl, hc⟩

theorem Chain.head_eq (h : Chain next null p l) : p = l.headD null := by
  cases l with
  | nil => exact h
  | cons a l => exact h.1

/-- What is left after the first `n` addresses is the chain from where it starts. -/
theorem Chain.drop (h : Chain next null p l) (n : Nat) :
    Chain next null ((l.drop n).headD null) (l.drop n) := by
  induction n generalizing p l with
  | zero =>
    rw [List.drop_zero, ← h.head_eq]
    exact h
  | succ n ih =>
    cases l with
    | nil => exact rfl
    | cons a l =>
      obtain ⟨-, -, q, -, hl⟩ := h
      exact ih hl

/-- A chain that ends visits no address twice. -/
theorem Chain.nodup (hf : ∀ a q q', next a q → next a q' → q = q')
    (h : Chain next null p l) : l.Nodup := by
  induction l generalizing p with
  | nil => exact List.nodup_nil
  | cons a l ih =>
    obtain ⟨rfl, hne, q, hq, hl⟩ := h
    refine List.nodup_cons.mpr ⟨?_, ih hl⟩
    intro hm
    obtain ⟨l₁, l₂, heq, hc⟩ := hl.of_mem hm
    have hp : Chain next null p (p :: l) := ⟨rfl, hne, q, hq, hl⟩
    have hlen := congrArg List.length (hc.unique hf hp)
    rw [heq] at hlen
    simp at hlen
    omega

end Chain

section Doubly

variable {links links' : P → Option (P × P)} {prev next a b : P} {l l' : List P}

/-- The addresses `l` are doubly linked in order, between the neighbours `prev` and `next`. -/
def Segment (links : P → Option (P × P)) : P → List P → P → Prop
  | _, [], _ => True
  | prev, a :: l, next => links a = some (prev, l.headD next) ∧ Segment links a l next

theorem segment_append :
    Segment links prev (l ++ l') next ↔
      Segment links prev l (l'.headD next) ∧ Segment links (l.getLastD prev) l' next := by
  induction l generalizing prev with
  | nil => simp [Segment]
  | cons a l ih =>
    have hh : (l ++ l').headD next = l.headD (l'.headD next) := by cases l <;> simp
    simp only [List.cons_append, Segment, ih, hh, List.getLastD_cons, and_assoc]

theorem segment_congr (h : ∀ a ∈ l, links' a = links a) :
    Segment links' prev l next ↔ Segment links prev l next := by
  induction l generalizing prev with
  | nil => simp [Segment]
  | cons a l ih =>
    simp only [Segment, h a (by simp)]
    rw [ih (fun b hb => h b (by simp [hb]))]

theorem Segment.of_mem (h : Segment links prev l next) (ha : a ∈ l) : ∃ e, links a = some e := by
  induction l generalizing prev with
  | nil => cases ha
  | cons q l ih =>
    rcases List.mem_cons.mp ha with rfl | ha
    · exact ⟨_, h.1⟩
    · exact ih h.2 ha

/-- The neighbours of an address, read off the list. -/
theorem Segment.links_eq {l₁ l₂ : List P} (h : Segment links prev (l₁ ++ a :: l₂) next) :
    links a = some (l₁.getLastD prev, l₂.headD next) :=
  (segment_append.mp h).2.1

/-- Going forward and going back undo each other inside a segment. -/
theorem Segment.next_iff_prev (h : Segment links prev l next) (hp : prev ∉ l) (hn : next ∉ l)
    (ha : a ∈ l) (hb : b ∈ l) :
    (∃ e, links a = some (e, b)) ↔ ∃ e, links b = some (a, e) := by
  constructor
  · rintro ⟨e, he⟩
    obtain ⟨l₁, l₂, rfl⟩ := List.mem_iff_append.mp ha
    rw [h.links_eq] at he
    cases l₂ with
    | nil =>
      cases he
      exact absurd hb hn
    | cons c l₂ =>
      cases he
      have h' : Segment links prev ((l₁ ++ [a]) ++ c :: l₂) next := by simpa using h
      have hc := h'.links_eq
      rw [List.getLastD_concat] at hc
      exact ⟨_, hc⟩
  · rintro ⟨e, he⟩
    obtain ⟨l₁, l₂, rfl⟩ := List.mem_iff_append.mp hb
    rw [h.links_eq] at he
    rcases List.eq_nil_or_concat' l₁ with rfl | ⟨l₁, c, rfl⟩
    · cases he
      exact absurd ha hp
    · rw [List.getLastD_concat] at he
      cases he
      have h' : Segment links prev (l₁ ++ a :: b :: l₂) next := by simpa using h
      exact ⟨_, h'.links_eq⟩

/-- Forwards, a segment is a chain that ends at its right neighbour. -/
theorem Segment.chain (h : Segment links prev l next) (hn : next ∉ l) :
    Chain (fun a q => ∃ e, links a = some (e, q)) next (l.headD next) l := by
  induction l generalizing prev with
  | nil => exact rfl
  | cons a l ih =>
    rw [List.mem_cons, not_or] at hn
    exact ⟨rfl, fun he => hn.1 he.symm, _, ⟨prev, h.1⟩, ih h.2 hn.2⟩

theorem Segment.last_links {z : P} (h : Segment links prev l next) :
    l.getLastD z = z ∨ ∃ e, links (l.getLastD z) = some (e, next) := by
  rcases List.eq_nil_or_concat' l with rfl | ⟨l', x, rfl⟩
  · exact .inl rfl
  · refine .inr ⟨l'.getLastD prev, ?_⟩
    rw [List.getLastD_concat]
    exact (segment_append.mp h).2.1

theorem getLastD_mem_or (l : List P) (z : P) : l.getLastD z = z ∨ l.getLastD z ∈ l := by
  cases l with
  | nil => exact .inl rfl
  | cons q l => exact .inr (by simp [List.getLastD])

theorem headD_mem_or (l : List P) (z : P) : l.headD z = z ∨ l.headD z ∈ l := by
  cases l with
  | nil => exact .inl rfl
  | cons q l => exact .inr (by simp)

/-- The segment's right neighbour changes: its last address is relinked. -/
theorem Segment.relink_next [DecidableEq P] {z : P} (h : Segment links prev l next) (hnd : l.Nodup)
    (hl : ∀ q ∈ l, links' q =
      if q = l.getLastD z then (links q).map (fun e => (e.1, b)) else links q) :
    Segment links' prev l b := by
  induction l generalizing prev z with
  | nil => trivial
  | cons q l ih =>
    obtain ⟨hq, hrest⟩ := h
    obtain ⟨hql, hnd⟩ := List.nodup_cons.mp hnd
    rw [List.getLastD_cons] at hl
    refine ⟨?_, ih (z := q) hrest hnd (fun r hr => hl r (by simp [hr]))⟩
    rw [hl q (by simp)]
    cases l with
    | nil => simp [hq]
    | cons c l =>
      have hne : q ≠ (c :: l).getLastD q := by
        rw [List.getLastD_cons]
        intro heq
        refine hql ?_
        rw [heq]
        cases l with
        | nil => simp
        | cons e l => exact List.mem_cons_of_mem _ (by simp [List.getLastD])
      rw [if_neg hne, hq]
      rfl

/-- The segment's left neighbour changes: its first address is relinked. -/
theorem Segment.relink_prev [DecidableEq P] {z : P} (h : Segment links prev l next) (hnd : l.Nodup)
    (hl : ∀ q ∈ l, links' q =
      if q = l.headD z then (links q).map (fun e => (a, e.2)) else links q) :
    Segment links' a l next := by
  cases l with
  | nil => trivial
  | cons q l =>
    obtain ⟨hq, hrest⟩ := h
    obtain ⟨hql, hnd⟩ := List.nodup_cons.mp hnd
    refine ⟨?_, ?_⟩
    · rw [hl q (by simp), hq]
      simp
    · refine (segment_congr ?_).mpr hrest
      intro r hr
      rw [hl r (by simp [hr]), if_neg]
      rintro rfl
      exact hql hr

end Doubly

end Linked
