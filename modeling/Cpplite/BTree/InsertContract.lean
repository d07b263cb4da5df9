import Cpplite.BTree.WellFormed
import Cpplite.Pager.Readers

/-!
What `insert` promises its callers on a B+tree: no assertion fails and no cell is dropped,
the cursor ends on the new cell, and an insertion that raises has written nothing.
-/
namespace Cpplite

open Exec Search Linked HeightTree

section Leaves

variable {α : Type} {k : DefaultPagerKey}

/-- Everything but the stack of the cursor. -/
def BTreeState.unmoved (s : BTreeState) : Pager × Nat × BTreeConfig :=
  (s.pager, s.self.rootPgno, s.self.config)

theorem leaves_lift {x : PagerM α} (h : Leaves id x) :
    Leaves BTreeState.unmoved (liftM x : BTreeM α) :=
  h.zoom (fun _ => rfl)

theorem leaves_getSelf : Leaves BTreeState.unmoved getSelf :=
  leaves_get.bind (fun _ => leaves_pure)

theorem leaves_setCursor {st : BTreeCursorStack} : Leaves BTreeState.unmoved (setCursor st) :=
  leaves_modify (fun _ => rfl)

theorem leaves_walkFuel : Leaves BTreeState.unmoved walkFuel :=
  leaves_get.bind (fun _ => leaves_pure)

theorem leaves_childAt {npm : NodePageManager} {i : Nat} :
    Leaves BTreeState.unmoved (npm.childAt i : BTreeM Nat) :=
  leaves_pure.ite (leaves_index.bind (fun _ => leaves_pure))

variable [Build]

theorem moveToKeyLoop_leaves (fuel : Nat) : ∀ (ty : PagerPageType) (p : Nat) (pm : PageManager)
    (st : BTreeCursorStack), Leaves BTreeState.unmoved (moveToKeyLoop k fuel ty p pm st) := by
  induction fuel with
  | zero => exact fun _ _ _ _ => leaves_throw
  | succ fuel ih =>
    intro ty p pm st
    refine Leaves.ite ?_ ?_
    · refine (leaves_lift getNode_leaves).bind fun npm => ?_
      refine leaves_assert.bind fun _ => leaves_childAt.bind fun child => ?_
      refine (leaves_lift seekPage_leaves).bind fun pm => ?_
      exact (leaves_lift getPageType_leaves).bind fun ty => ih ty child pm _
    · refine (leaves_lift getLeaf_leaves).bind fun lpm => ?_
      exact leaves_setCursor.bind fun _ => leaves_pure

/-- A search writes nothing. -/
theorem moveToKey_leaves : Leaves BTreeState.unmoved (moveToKey k) := by
  refine leaves_getSelf.bind fun self => ?_
  refine (leaves_lift seekPage_leaves).bind fun pm => ?_
  refine (leaves_lift getPageType_leaves).bind fun ty => ?_
  exact leaves_walkFuel.bind fun fuel => moveToKeyLoop_leaves fuel ty _ pm []

end Leaves

section Contract

variable {n : Nat} {s : BTreeState} {t : BTree n} {k : DefaultPagerKey} {value : List Byte} [Build]

/-- Every answer that `insert` discards is `true`: the run that insists on them is its run. -/
theorem insert_drops_nothing (hg : s.pager.disk.Good) (hv : s.self.config.Valid)
    (hw : WellFormed s.pager.disk s.self t) (hk : ∀ v ∈ entries t.spine, v.key ≠ k)
    (hlen : value.length ≤ 2 ^ 32 - 4096) :
    Returns (insertWith .insist k value) s (fun _ u => insert k value s = .ok () u) := by
  obtain ⟨chunks, hch, -⟩ := payloadChunks_eq (le_chainLimit hlen)
  obtain ⟨_, u, hrun, -⟩ :=
    insertWith_runs Check.insist_passes hg hv (wellFormed_iff.mp hw) hk hch s rfl rfl
  exact ⟨(), u, hrun, insertWith_refines Check.insist_guards k value s () u hrun⟩

/-- After `insert` the cursor is where a search for the new key ends, and reads back the new cell
there. -/
theorem insert_lands (hg : s.pager.disk.Good) (hv : s.self.config.Valid)
    (hw : WellFormed s.pager.disk s.self t) (hk : ∀ v ∈ entries t.spine, v.key ≠ k)
    (hlen : value.length ≤ 2 ^ 32 - 4096) :
    Returns (insert k value) s (fun _ u =>
      Returns (moveToKey k) u (fun found w => found = true ∧ w.self.cursor = u.self.cursor) ∧
      Returns currentKey u (fun k' _ => k' = k) ∧
      Returns currentValue u (fun value' _ => value' = value)) := by
  obtain ⟨chunks, hch, hflat⟩ := payloadChunks_eq (le_chainLimit hlen)
  have hrun := insertWith_runs Check.ignore_passes hg hv (wellFormed_iff.mp hw) hk hch
  rw [insertWith_ignore] at hrun
  refine (hrun s rfl rfl).mono ?_
  rintro _ u ⟨⟨m, t', v, pages, hi⟩, hstay⟩
  have hT := hi.updated.planted
  obtain ⟨A, B, hA, hB⟩ := hi.entries_eq
  have hmem : v ∈ entries t'.spine := by simp [hB]
  -- the search finds the cell, and the cursor it leaves is the one there was
  have hon : StandsOn u.self t' k := by
    obtain ⟨found, w, hw, hfound, -, -, -, c, p, lo, x, hi', hplug, hcur, hxk, -⟩ :=
      moveToKey_found hi.updated.evolves.good hT ⟨v, hmem, hi.key_eq⟩
    obtain ⟨_, w', hw', -, -, hself⟩ := hstay u rfl rfl
    rw [hw] at hw'
    cases hw'
    exact ⟨c, p, lo, x, hi', hplug, hself ▸ hcur, hxk⟩
  refine ⟨?_, ?_, ?_⟩
  · refine (hstay u rfl rfl).mono ?_
    rintro found w ⟨hfound, -, hself⟩
    exact ⟨hfound, by rw [hself]⟩
  · exact (hT.currentKey hon u rfl rfl).mono (fun _ _ h => h.1)
  · refine (hT.currentValue hi.updated.evolves.good hon ?_ u rfl rfl).mono (fun _ _ h => h.1)
    intro w hw hwk
    have hold : w ∉ A ++ B := by
      intro hm
      exact hk w (hA ▸ hm) hwk
    have hwv : w = v := by
      rw [hB] at hw
      simp only [List.mem_append, List.mem_cons] at hw hold
      tauto
    subst hwv
    have hsize : value.length = w.payloadSize := by
      rw [hi.size_eq, Nat.mod_eq_of_lt (by omega)]
    exact ⟨pages, hsize, hflat ▸ hi.chain⟩

/-- An insertion raises exactly when the key is there, and then only the stack has moved. -/
theorem insert_raises_iff (hg : s.pager.disk.Good) (hcfg : s.self.config = {})
    (hw : WellFormed s.pager.disk s.self t) (hlen : value.length ≤ 2 ^ 32 - 4096) :
    ((∃ e u, insert k value s = .error e u) ↔ ∃ v ∈ entries t.spine, v.key = k) ∧
      ∀ e u, insert k value s = .error e u →
        u.pager = s.pager ∧ u.self.rootPgno = s.self.rootPgno := by
  have hT := wellFormed_iff.mp hw
  have hv : s.self.config.Valid := hcfg ▸ default_valid
  by_cases hk : ∃ v ∈ entries t.spine, v.key = k
  · obtain ⟨found, u, hrun, rfl, -⟩ := moveToKey_found hg hT hk
    have hfail : insert k value s = .error (.runtimeError "[btree:insert]: Duplicate key") u := by
      rw [insert, bind_ok hrun, if_pos rfl]
      rfl
    have hleft := moveToKey_leaves.of_ok hrun
    refine ⟨⟨fun _ => hk, fun _ => ⟨_, u, hfail⟩⟩, ?_⟩
    intro e u' he
    rw [hfail] at he
    cases he
    exact ⟨congrArg (·.1) hleft, congrArg (·.2.1) hleft⟩
  · obtain ⟨chunks, hch, -⟩ := payloadChunks_eq (le_chainLimit hlen)
    have hk' : ∀ v ∈ entries t.spine, v.key ≠ k := by
      intro v hv hvk
      exact hk ⟨v, hv, hvk⟩
    obtain ⟨_, u, hrun, -⟩ := insert_runs hg hv hT hk' hch s rfl rfl
    have hno : ¬ ∃ e u, insert k value s = .error e u := by
      rintro ⟨e, u', he⟩
      rw [hrun] at he
      cases he
    exact ⟨⟨fun h => absurd h hno, fun h => absurd h hk⟩, fun e u' he => absurd ⟨e, u', he⟩ hno⟩

end Contract

theorem insert_drops_nothing_narrow :
    letI : Build := ⟨false⟩
    Returns (insertWith .insist 3 [7]) narrowState (fun _ u => insert 3 [7] narrowState = .ok () u) := by
  let _ : Build := ⟨false⟩
  exact insert_drops_nothing narrow_good narrow_valid narrow_wellFormed (by decide) (by decide)

theorem insert_lands_narrow :
    letI : Build := ⟨false⟩
    Returns (insert 3 [7]) narrowState (fun _ u =>
      Returns (moveToKey 3) u (fun found w => found = true ∧ w.self.cursor = u.self.cursor) ∧
      Returns currentKey u (fun k' _ => k' = 3) ∧
      Returns currentValue u (fun value' _ => value' = [7])) := by
  let _ : Build := ⟨false⟩
  exact insert_lands narrow_good narrow_valid narrow_wellFormed (by decide) (by decide)

theorem insert_raises_lone :
    letI : Build := ⟨false⟩
    (∃ e u, insert 1 [7] loneState = .error e u) ∧ ∀ e u, insert 1 [7] loneState = .error e u →
      u.pager = loneState.pager ∧ u.self.rootPgno = loneState.self.rootPgno := by
  let _ : Build := ⟨false⟩
  have h := insert_raises_iff (k := 1) lone_good rfl lone_wellFormed
    (show [(7 : Byte)].length ≤ 2 ^ 32 - 4096 by decide)
  exact ⟨h.1.mpr ⟨⟨0, 1, nullPage⟩, by decide, rfl⟩, h.2⟩

end Cpplite
