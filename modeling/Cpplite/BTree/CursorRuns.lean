import Cpplite.BTree.Traverse

/-!
Any order of moves of one cursor, with assertions on. `next` and `prev` assert that the
cursor is on a cell, which it is not after a walk has run off the tree or after a search
has missed past the end of its leaf; `move_to_last` asserts a node at the root. Where no
move is made that asserts too much, none fails, and a move that says so is on a stored key.
-/
namespace Cpplite

open Exec Search Linked HeightTree

inductive Move where
  | moveToFirst
  | moveToLast
  | moveToKey (key : DefaultPagerKey)
  | next
  | prev

namespace Move

/-- The moves that do not start from where the cursor is. -/
def Positions : Move → Prop
  | .moveToFirst => True
  | .moveToLast => True
  | .moveToKey _ => True
  | .next => False
  | .prev => False

/-- What a move asserts of the state it is made in. -/
def Ready (s : BTreeState) : Move → Prop
  | .moveToFirst => True
  | .moveToLast => (s.pager.disk.page s.self.rootPgno).type? = some .nodePage
  | .moveToKey _ => True
  | .next => OnCell s
  | .prev => OnCell s

section Run

variable [Build]

/-- The moves that return nothing answer `true`. -/
def run : Move → BTreeM Bool
  | .moveToFirst => do
    Cpplite.moveToFirst
    pure true
  | .moveToLast => do
    Cpplite.moveToLast
    pure true
  | .moveToKey k => Cpplite.moveToKey k
  | .next => Cpplite.next
  | .prev => Cpplite.prev

/-- Every move of a run is ready when its turn comes. -/
def ReadyAll : BTreeState → List Move → Prop
  | _, [] => True
  | s, mv :: mvs => mv.Ready s ∧ ∀ ok u, mv.run s = .ok ok u → ReadyAll u mvs

/-- No move of a run fails, and where a move answers `true` a stored key is under the cursor. -/
def Safe {n : Nat} (t : BTree n) : BTreeState → List Move → Prop
  | _, [] => True
  | s, mv :: mvs => Returns mv.run s (fun ok u =>
      (ok = true → Returns currentKey u (fun k _ => k ∈ storedKeys t)) ∧ Safe t u mvs)

variable {n : Nat} {d : Disk} {cur : BTreeCursor} {s : BTreeState} {t : BTree n} {mv : Move}
  {A B : List LeafCell} {v : LeafCell}

/-- What one move leaves: the same tree, with the cursor on a cell of it if it says so. -/
def Leads (t : BTree n) (ok : Bool) (u : BTreeState) : Prop :=
  Standing u.pager.disk u.self t ∧ (ok = true → ∃ k, StandsOn u.self t k)

omit [Build] in
theorem Leads.of_moved (hg : s.pager.disk.Good) (hv : s.self.config.Valid)
    (hT : Planted s.pager.disk s.self t) {u : BTreeState} {st : BTreeCursorStack} {ok : Bool}
    (hd : u.pager.disk = s.pager.disk) (hself : u.self = { s.self with cursor := st })
    (hpl : Placed u.self t) (hon : ok = true → ∃ k, StandsOn u.self t k) : Leads t ok u := by
  refine ⟨⟨hd ▸ hg, by rw [hself]; exact hv, ?_, hpl⟩, hon⟩
  rw [hd, hself]
  exact hT.setCursor st

/-- A move that is ready returns. -/
theorem run_leads (hg : s.pager.disk.Good) (hv : s.self.config.Valid)
    (hT : Planted s.pager.disk s.self t) (hne : storedKeys t ≠ [])
    (hp : mv.Positions ∨ Placed s.self t) (hr : mv.Ready s) : Returns mv.run s (Leads t) := by
  have hcells : entries t.spine ≠ [] := by
    intro h
    exact hne (by rw [storedKeys, h]; rfl)
  cases mv with
  | moveToFirst =>
    obtain ⟨v, B, he⟩ := List.exists_cons_of_ne_nil hcells
    refine (moveToFirst_runs hg hv hT he s rfl rfl).bind ?_
    rintro _ u ⟨hd, st, hself, hb⟩
    exact returns_pure.mpr (.of_moved hg hv hT hd hself hb.placed (fun _ => ⟨_, hb.standsOn⟩))
  | moveToLast =>
    obtain ⟨A, v, he⟩ := (List.eq_nil_or_concat' (entries t.spine)).resolve_left hcells
    refine (moveToLast_runs hg hv hT (.inr hr) he s rfl rfl).bind ?_
    rintro _ u ⟨hd, st, hself, hb⟩
    exact returns_pure.mpr (.of_moved hg hv hT hd hself hb.placed (fun _ => ⟨_, hb.standsOn⟩))
  | moveToKey k =>
    refine (moveToKey_runs (k := k) hg hT s rfl rfl).mono ?_
    rintro found u ⟨hd, c, l, i, harr⟩
    refine .of_moved hg hv hT hd harr.cursor harr.placed ?_
    rintro rfl
    exact ⟨k, harr.standsOn hT⟩
  | next =>
    obtain ⟨c, p, lo, v, hi, hplug, hcur⟩ :=
      Standing.on_cell ⟨hg, hv, hT, hp.resolve_left id⟩ hr
    have hb : Between s.self t _ v _ := ⟨c, p, lo, hi, hplug, hcur, rfl, rfl⟩
    refine (next_runs hg hv hT hb s rfl rfl).mono ?_
    rintro ok u ⟨hd, st, hself, ⟨rfl, rfl, -⟩ | ⟨w, B', rfl, -, hw⟩⟩
    · exact .of_moved hg hv hT hd hself (.inl (by rw [hself])) (fun h => by cases h)
    · exact .of_moved hg hv hT hd hself hw.placed (fun _ => ⟨_, hw.standsOn⟩)
  | prev =>
    obtain ⟨c, p, lo, v, hi, hplug, hcur⟩ :=
      Standing.on_cell ⟨hg, hv, hT, hp.resolve_left id⟩ hr
    have hb : Between s.self t _ v _ := ⟨c, p, lo, hi, hplug, hcur, rfl, rfl⟩
    refine (prev_runs hg hv hT hb s rfl rfl).mono ?_
    rintro ok u ⟨hd, st, hself, ⟨rfl, rfl, -⟩ | ⟨A', w, rfl, -, hw⟩⟩
    · exact .of_moved hg hv hT hd hself (.inl (by rw [hself])) (fun h => by cases h)
    · exact .of_moved hg hv hT hd hself hw.placed (fun _ => ⟨_, hw.standsOn⟩)

/-- A move that is not ready fails an assertion. -/
theorem run_aborts (hb : Build.ndebug = false) (hg : s.pager.disk.Good)
    (hT : Planted s.pager.disk s.self t) (hp : mv.Positions ∨ Placed s.self t)
    (hr : ¬ mv.Ready s) : Aborts mv.run s.pager.disk s.self := by
  have hroot : (s.pager.disk.page s.self.rootPgno).IsTree := by
    rw [← hT.root_eq]
    exact hT.stored.isTree _ t.id_mem_ids
  cases mv with
  | moveToFirst => exact absurd trivial hr
  | moveToKey k => exact absurd trivial hr
  | moveToLast =>
    refine Fails.bind_left ?_
    refine steps_getSelf.then_fails ?_
    refine (steps_seekPage hg hroot).then_fails ?_
    refine (steps_typeOf hroot).then_fails ?_
    refine (aborts_assert hb ?_).bind_left
    intro hty
    refine hr ?_
    change (s.pager.disk.page s.self.rootPgno).type? = some .nodePage
    cases hpage : s.pager.disk.page s.self.rootPgno with
    | node cells right => rfl
    | leaf cells a b =>
      rw [typeOf, hpage] at hty
      cases hty
    | _ =>
      rw [hpage] at hroot
      cases hroot
  | next =>
    refine steps_getSelf.then_fails ?_
    rcases hp.resolve_left id with hnil | ⟨c, l, i, rfl, hcur⟩
    · rw [hnil]
      exact (aborts_assert hb (by simp)).bind_left
    have hpage : s.pager.disk.page l.id = .leaf l.cells _ _ := hT.leaf_page
    rw [hcur]
    refine (steps_assert (.inr (by simp))).then_fails ?_
    refine steps_topOf.then_fails ?_
    refine (steps_assertPageType hT.leaf_type).then_fails ?_
    refine (steps_loadLeaf hpage).then_fails ?_
    refine (steps_assert (.inr rfl)).then_fails ?_
    refine (aborts_assert hb ?_).bind_left
    exact fun hlt => hr ⟨l.id, i, c.path, l.cells, _, _, hcur, hpage, hlt⟩
  | prev =>
    refine steps_getSelf.then_fails ?_
    rcases hp.resolve_left id with hnil | ⟨c, l, i, rfl, hcur⟩
    · rw [hnil]
      exact (aborts_assert hb (by simp)).bind_left
    have hpage : s.pager.disk.page l.id = .leaf l.cells _ _ := hT.leaf_page
    rw [hcur]
    refine (steps_assert (.inr (by simp))).then_fails ?_
    refine steps_topOf.then_fails ?_
    refine (steps_getPageType hT.leaf_type).then_fails ?_
    refine (steps_assert (.inr rfl)).then_fails ?_
    refine (steps_loadLeaf hpage).then_fails ?_
    refine (steps_assert (.inr rfl)).then_fails ?_
    refine (aborts_assert hb ?_).bind_left
    exact fun hlt => hr ⟨l.id, i, c.path, l.cells, _, _, hcur, hpage, hlt⟩

/-- With assertions on, a run is safe exactly when each of its moves is ready. -/
theorem safe_iff (hb : Build.ndebug = false) (hne : storedKeys t ≠ []) :
    ∀ (mvs : List Move) {s : BTreeState}, s.pager.disk.Good → s.self.config.Valid →
      Planted s.pager.disk s.self t →
      ((∀ mv ∈ mvs.head?, mv.Positions) ∨ Placed s.self t) → (Safe t s mvs ↔ ReadyAll s mvs)
  | [], _, _, _, _, _ => Iff.rfl
  | mv :: mvs, s, hg, hv, hT, hp => by
    have hp' : mv.Positions ∨ Placed s.self t := hp.imp_left (fun h => h mv rfl)
    by_cases hr : mv.Ready s
    · obtain ⟨ok, u, hrun, hst, hon⟩ := run_leads hg hv hT hne hp' hr
      have ih := safe_iff hb hne mvs hst.good hst.valid hst.planted (.inr hst.placed)
      have hkey : ok = true → Returns currentKey u (fun k _ => k ∈ storedKeys t) := by
        intro hok
        obtain ⟨k, hk⟩ := hon hok
        refine (hst.planted.currentKey hk u rfl rfl).mono ?_
        rintro k' w ⟨rfl, -⟩
        exact hk.mem_storedKeys
      rw [Safe, returns_of_eq hrun, ih]
      constructor
      · rintro ⟨-, h⟩
        refine ⟨hr, ?_⟩
        intro ok' u' hrun'
        rw [hrun] at hrun'
        cases hrun'
        exact h
      · rintro ⟨-, h⟩
        exact ⟨hkey, h ok u hrun⟩
    · constructor
      · intro h
        exact absurd h (not_returns_of_raises (run_aborts hb hg hT hp' hr s rfl rfl))
      · intro h
        exact absurd h.1 hr

/-- From a positioning move on, a run of moves is safe exactly when each of them is made where it
may be made. -/
theorem run_safe_iff (hb : Build.ndebug = false) (hg : s.pager.disk.Good) (hv : s.self.config.Valid)
    (hw : WellFormed s.pager.disk s.self t) (hne : storedKeys t ≠ []) (hmv : mv.Positions)
    (mvs : List Move) : Safe t s (mv :: mvs) ↔ ReadyAll s (mv :: mvs) := by
  refine safe_iff hb hne (mv :: mvs) hg hv (wellFormed_iff.mp hw) (.inl ?_)
  intro mv' h
  cases h
  exact hmv

end Run

theorem run_safe_narrow :
    letI : Build := ⟨false⟩
    Safe narrowTree narrowState [.moveToFirst, .next] := by
  let _ : Build := ⟨false⟩
  have hmv : Positions .moveToFirst := trivial
  refine (run_safe_iff rfl narrow_good narrow_valid narrow_wellFormed (by decide) hmv _).mpr
    ⟨trivial, ?_⟩
  intro ok u hrun
  have hT := wellFormed_iff.mp narrow_wellFormed
  obtain ⟨_, u', hfirst, hd, st, hself, hbet⟩ := moveToFirst_runs (v := ⟨0, 1, nullPage⟩)
    (B := [⟨0, 2, nullPage⟩]) narrow_good narrow_valid hT rfl narrowState rfl rfl
  rw [run, bind_ok hfirst] at hrun
  cases hrun
  have hT' : Planted u.pager.disk u.self narrowTree := by
    rw [hd, hself]
    exact hT.setCursor st
  exact ⟨hbet.onCell hT', fun _ _ _ => trivial⟩

theorem run_safe_fails :
    letI : Build := ⟨false⟩
    ¬ ∀ (n : Nat) (t : BTree n) (s : BTreeState) (mv : Move) (mvs : List Move),
      s.pager.disk.Good → s.self.config.Valid → WellFormed s.pager.disk s.self t →
      storedKeys t ≠ [] → mv.Positions → Safe t s (mv :: mvs) := by
  let _ : Build := ⟨false⟩
  intro h
  have hT := wellFormed_iff.mp lone_wellFormed
  have hsafe := h 0 loneTree loneState .moveToFirst [.next, .next] lone_good default_valid
    lone_wellFormed (by decide) trivial
  rw [safe_iff rfl (by decide) _ lone_good default_valid hT (.inl (by simp [Positions]))] at hsafe
  -- the only cell, and the step off it
  obtain ⟨_, u, hfirst, hd, st, hself, hbet⟩ := moveToFirst_runs (v := ⟨0, 1, nullPage⟩) (B := [])
    lone_good default_valid hT rfl loneState rfl rfl
  have hT' : Planted u.pager.disk u.self loneTree := by
    rw [hd, hself]
    exact hT.setCursor st
  obtain ⟨ok, w, hnext, -, st', hself', ⟨-, rfl, -⟩ | ⟨_, _, -, hB, -⟩⟩ :=
    next_runs (hd ▸ lone_good) (by rw [hself]; exact default_valid) hT' hbet u rfl rfl
  · have hready := hsafe.2 true u (by rw [run, bind_ok hfirst]; rfl)
    obtain ⟨p, i, rest, cells, a, b, hcur, -⟩ := (hready.2 ok w hnext).1
    rw [hself'] at hcur
    cases hcur
  · cases hB

end Move

end Cpplite
