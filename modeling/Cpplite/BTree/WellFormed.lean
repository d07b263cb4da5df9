import Cpplite.BTree.Map

/-!
B+trees as the validator of the tests describes them, over whole runs: every tree that
insertions and removals make of an empty leaf is one. With assertions on, a removal from
such a tree completes except from a minimal leaf that is its parent's right child.
-/
namespace Cpplite

open Exec Search Linked HeightTree

/-- The tree `t` on the pages below the cursor's root, page by page. All its leaves are at depth
`n`. -/
structure WellFormed (d : Disk) (cur : BTreeCursor) {n : Nat} (t : BTree n) : Prop where
  root_eq : t.id = cur.rootPgno
  stored : Stored d t
  nodup : t.ids.Nodup
  linked : Segment d.links nullPage (leafIds t.spine) nullPage
  filled : t.RootFilled cur.config.bounds
  sorted : t.Sorted LeafCell.key
  ranged : t.Ranged LeafCell.key
  separators : (seps t.spine).Pairwise (· < ·)

theorem wellFormed_iff {d : Disk} {cur : BTreeCursor} {n : Nat} {t : BTree n} :
    WellFormed d cur t ↔ Planted d cur t := by
  constructor
  · intro h
    exact ⟨h.root_eq, h.stored, h.nodup, h.linked,
      ordered_iff.mpr ⟨h.sorted, h.ranged, h.separators⟩, h.filled⟩
  · intro h
    obtain ⟨hs, hr, hp⟩ := ordered_iff.mp h.ordered
    exact ⟨h.root_eq, h.stored, h.nodup, h.linked, h.filled, hs, hr, hp⟩

/-! ### Every reached tree -/

/-- The calls that change a tree or choose where to. -/
inductive TreeOp where
  | insert (key : DefaultPagerKey) (value : List Byte)
  | moveToKey (key : DefaultPagerKey)
  | remove

/-- The top of the cursor is a cell of a leaf. -/
def OnCell (s : BTreeState) : Prop :=
  ∃ p i rest cells prev next, s.self.cursor = (p, i) :: rest ∧
    s.pager.disk.page p = .leaf cells prev next ∧ i < cells.length

/-- `remove` is for a cursor that is on a cell. -/
def TreeOp.Admissible (s : BTreeState) : TreeOp → Prop
  | .remove => OnCell s
  | _ => True

section Reached

variable [Build]

def TreeOp.run : TreeOp → BTreeM Unit
  | .insert k value => Cpplite.insert k value
  | .moveToKey k => do
    let _ ← Cpplite.moveToKey k
  | .remove => Cpplite.remove

/-- The states between calls, calls that raise included. -/
inductive Reached (cfg : BTreeConfig) : BTreeState → Prop where
  | empty {s : BTreeState} (hg : s.pager.disk.Good) (hcfg : s.self.config = cfg)
      (hcur : s.self.cursor = [])
      (hroot : s.pager.disk.page s.self.rootPgno = .leaf [] nullPage nullPage) : Reached cfg s
  | step {s : BTreeState} {op : TreeOp} (h : Reached cfg s) (hop : op.Admissible s) :
      Reached cfg (after op.run s)

variable {n : Nat} {t : BTree n} {s : BTreeState} {cfg : BTreeConfig} {k : DefaultPagerKey}

omit [Build] in
/-- A cursor on a cell cuts its leaf there. -/
theorem Standing.on_cell (h : Standing s.pager.disk s.self t) (hc : OnCell s) :
    ∃ (c : BTreeCtx n 0) (p : Nat) (lo : List LeafCell) (v : LeafCell) (hi : List LeafCell),
      c.plug ⟨p, lo ++ v :: hi⟩ = t ∧ s.self.cursor = (p, lo.length) :: c.path := by
  obtain ⟨p, i, rest, cells, prev, next, hcur, hpage, hlt⟩ := hc
  rcases h.placed with hnil | ⟨c, ⟨q, cells'⟩, j, rfl, hcur'⟩
  · rw [hnil] at hcur
    cases hcur
  rw [hcur'] at hcur
  cases hcur
  have hleaf := h.planted.leaf_page
  rw [hpage] at hleaf
  cases hleaf
  refine ⟨c, q, cells.take i, cells[i], cells.drop (i + 1), ?_, ?_⟩
  · simp
  · rw [hcur', List.length_take, min_eq_left hlt.le]

theorem Standing.step (hb : Build.ndebug = true) (h : Standing s.pager.disk s.self t) {op : TreeOp}
    (hop : op.Admissible s) : ∃ (n' : Nat) (t' : BTree n'),
      Standing (after op.run s).pager.disk (after op.run s).self t' := by
  cases op with
  | insert k value =>
    by_cases hk : ∃ v ∈ entries t.spine, v.key = k
    · obtain ⟨-, -, hd, hs, -⟩ := (insert_fails h (.inl hk) s rfl rfl).after
      exact ⟨n, t, by rw [TreeOp.run, hd]; exact hs⟩
    cases hch : payloadChunks value with
    | none =>
      obtain ⟨-, -, hd, hs, -⟩ := (insert_fails (k := k) h (.inr hch) s rfl rfl).after
      exact ⟨n, t, by rw [TreeOp.run, hd]; exact hs⟩
    | some chunks =>
      push Not at hk
      obtain ⟨-, n', t', v, pages, hi⟩ := (insert_runs h.good h.valid h.planted hk hch s rfl rfl).after
      exact ⟨n', t', hi.standing h⟩
  | moveToKey k =>
    have hrun : Runs (TreeOp.moveToKey k).run s.pager.disk s.self
        (fun _ d' cur' => Standing d' cur' t) := by
      refine (moveToKey_runs h.good h.planted).bind ?_
      rintro found d' cur' ⟨rfl, c, l, i, harr⟩
      exact Runs.pure (harr.standing h)
    obtain ⟨-, hs⟩ := (hrun s rfl rfl).after
    exact ⟨n, t, hs⟩
  | remove =>
    obtain ⟨c, p, lo, v, hi, rfl, hcur⟩ := h.on_cell hop
    obtain ⟨-, n', t', hup, hpl, -⟩ :=
      (remove_runs h.good h.valid h.planted hcur (.inl hb) s rfl rfl).after
    exact ⟨n', t', hup.standing h.valid hpl⟩

theorem Reached.standing (hb : Build.ndebug = true) (hv : cfg.Valid) (h : Reached cfg s) :
    ∃ (n : Nat) (t : BTree n), Standing s.pager.disk s.self t := by
  induction h with
  | empty hg hcfg hcur hroot =>
    subst hcfg
    exact ⟨0, _, (holds_empty hg hv hcur hroot).toStanding⟩
  | step _ hop ih =>
    obtain ⟨n, t, hs⟩ := ih
    exact hs.step hb hop

/-- Insertions and removals keep to B+trees. -/
theorem reached_wellFormed (hb : Build.ndebug = true) (hv : cfg.Valid) (h : Reached cfg s) :
    ∃ (n : Nat) (t : BTree n), WellFormed s.pager.disk s.self t := by
  obtain ⟨n, t, hs⟩ := h.standing hb hv
  exact ⟨n, t, wellFormed_iff.mpr hs.planted⟩

end Reached

theorem reached_wellFormed_insert :
    letI : Build := ⟨true⟩
    ∃ s : BTreeState, Reached {} (after (TreeOp.insert 1 [9]).run s) ∧ ∃ (n : Nat) (t : BTree n),
      WellFormed (after (TreeOp.insert 1 [9]).run s).pager.disk
        (after (TreeOp.insert 1 [9]).run s).self t := by
  let _ : Build := ⟨true⟩
  obtain ⟨root, t, -, -, hpage, -, hev⟩ := createRoot_returns fresh_good
  have h : Reached {} (after (TreeOp.insert 1 [9]).run ⟨t, [], root, {}⟩) :=
    .step (.empty hev.good rfl rfl hpage) trivial
  exact ⟨_, h, reached_wellFormed rfl default_valid h⟩

/-! ### Removals with assertions on -/

/-- Some node right above the leaves has `k` in its right child, which has no cell to spare. -/
def MinimalRight (cfg : BTreeConfig) (k : DefaultPagerKey) : {n : Nat} → BTree n → Prop
  | 0, _ => False
  | 1, t => (Node.right t).cells.length = cfg.leafMinCells ∧ ∃ v ∈ (Node.right t).cells, v.key = k
  | _ + 2, t => ∃ u ∈ Node.kids t, MinimalRight cfg k u

section Fault

variable {m n : Nat} {cfg : BTreeConfig} {k : DefaultPagerKey}

theorem MinimalRight.mem_entries : ∀ {n : Nat} {t : BTree n}, MinimalRight cfg k t →
    ∃ v ∈ entries t.spine, v.key = k
  | 1, t, ⟨_, v, hv, hk⟩ => by
    have hsub := Node.spine_kid_sublist (t := t) (u := Node.right t) (by simp [Node.kids])
    exact ⟨v, entries_mono (fun _ he => hsub.subset he)
      (by simpa [Tree.spine, Tree.fold, entries] using hv), hk⟩
  | n + 2, t, ⟨u, hu, h⟩ => by
    obtain ⟨v, hv, hk⟩ := h.mem_entries
    exact ⟨v, entries_mono (fun _ he => (Node.spine_kid_sublist hu).subset he) hv, hk⟩

/-- The key is below no other child than the one it belongs to. -/
theorem Locates.not_sibling {f : BTreeFrame n} {c : BTreeCtx m (n + 1)}
    (h : Locates (.step f c) k) {u : BTree n} (hu : u ∈ f.siblings) {v : LeafCell}
    (hv : v ∈ entries u.spine) : v.key ≠ k := by
  rintro rfl
  obtain ⟨e, he, hve⟩ := List.mem_flatMap.mp hv
  have hitem : ∀ s : Spine, e ∈ s → cellAt v.key ∈ items LeafCell.key s := by
    intro s hes
    exact mem_items.mpr (.inl ⟨v, List.mem_flatMap.mpr ⟨e, hes, hve⟩, rfl⟩)
  rcases Frame.spine_sibling hu e he with hl | hr
  · refine absurd (h.left _ (hitem _ ?_)) (lt_irrefl _)
    rw [Ctx.spineL_step]
    exact List.mem_append_right _ hl
  · refine absurd (h.right _ (hitem _ ?_)) (lt_irrefl _)
    rw [Ctx.spineR_step]
    exact List.mem_append_left _ hr

/-- Where the key belongs is the only place to look for the fault. -/
theorem Locates.minimalRight_plug : ∀ {n : Nat} {c : BTreeCtx m n} {t : BTree n}, 1 ≤ n →
    Locates c k → (MinimalRight cfg k (c.plug t) ↔ MinimalRight cfg k t)
  | _, .top, _, _, _ => Iff.rfl
  | n + 1, .step f up, t, _, h => by
    change MinimalRight cfg k (up.plug (f.plug t)) ↔ _
    rw [h.up.minimalRight_plug (Nat.succ_pos _)]
    change (∃ u ∈ (f.plug t).kids, MinimalRight cfg k u) ↔ _
    constructor
    · rintro ⟨u, hu, hm⟩
      rcases List.mem_cons.mp (Frame.kids_plug.mem_iff.mp hu) with rfl | hs
      · exact hm
      · obtain ⟨v, hv, hk⟩ := hm.mem_entries
        exact absurd hk (h.not_sibling hs hv)
    · intro hm
      exact ⟨t, Frame.kids_plug.mem_iff.mpr (by simp), hm⟩

theorem Locates.atFault_iff {c : BTreeCtx m 0} {l : BTreeLeaf} (h : Locates c k)
    (hk : ∃ v ∈ l.cells, v.key = k) :
    AtFault cfg l.cells.length c ↔ MinimalRight cfg k (c.plug l) := by
  cases c with
  | top => exact Iff.rfl
  | step f up =>
    change _ ↔ MinimalRight cfg k (up.plug (f.plug l))
    rw [h.up.minimalRight_plug le_rfl]
    cases f with
    | last p as =>
      change (_ ∧ as.length = as.length) ↔ (l.cells.length = _ ∧ ∃ v ∈ l.cells, v.key = k)
      simp [hk]
    | mid p as k' bs r =>
      change (_ ∧ as.length = as.length + 1 + bs.length) ↔
        (Leaf.cells r).length = _ ∧ ∃ v ∈ Leaf.cells r, v.key = k
      constructor
      · rintro ⟨-, hlen⟩
        omega
      · rintro ⟨-, v, hv, hvk⟩
        refine absurd hvk (h.not_sibling (u := r) (by simp [Frame.siblings]) ?_)
        simpa [Tree.spine, Tree.fold, entries] using hv

end Fault

/-- Leaves of one cell each, and nodes of one or two. -/
def narrowConfig : BTreeConfig := ⟨2, 1, 1, 1⟩

/-- What `insert(1, {})` and `insert(2, {})` make of an empty leaf on page 2 under `narrowConfig`. -/
def narrowPager : Pager where
  file := {
    page := fun
      | 1 => .first ⟨5, nullPage, 1⟩
      | 2 => .leaf ⟨1, leafFree 1, nullPage, nullPage⟩ [⟨0, 1, nullPage⟩]
      | 3 => .leaf ⟨1, leafFree 1, 4, nullPage⟩ [⟨0, 1, nullPage⟩]
      | 4 => .leaf ⟨1, leafFree 1, nullPage, 3⟩ [⟨0, 2, nullPage⟩]
      | 5 => .node ⟨1, nodeFree 1, 4⟩ [⟨2, 3⟩]
      | _ => .blank
    numPages := 5 }
  totalNumPages := 5

def narrowState : BTreeState := ⟨narrowPager, [], 5, narrowConfig⟩

def narrowTree : BTree 1 := ⟨5, [(2, ⟨3, [⟨0, 1, nullPage⟩]⟩)], ⟨4, [⟨0, 2, nullPage⟩]⟩⟩

theorem narrow_good : narrowPager.disk.Good := by
  refine ⟨⟨rfl, ⟨_, rfl⟩, ?_⟩, rfl, [], _, rfl, rfl⟩
  intro p hp
  by_contra hlt
  refine hp ?_
  have hne : ¬ p ≤ 5 := hlt
  simp [Pager.disk, narrowPager, OsFile.read, hne, Page.logical]

theorem narrow_valid : narrowConfig.Valid := by
  constructor <;> decide

theorem narrow_wellFormed : WellFormed narrowState.pager.disk narrowState.self narrowTree := by
  have hkids : Node.kids narrowTree =
      [⟨3, [⟨0, 1, nullPage⟩]⟩, ⟨4, [⟨0, 2, nullPage⟩]⟩] := rfl
  refine wellFormed_iff.mpr ⟨rfl, ⟨rfl, ?_⟩, by decide, ⟨rfl, rfl, trivial⟩, ?_,
    ⟨by decide, by decide, ?_⟩⟩
  · rw [hkids]
    simp only [List.forall_mem_cons]
    exact ⟨⟨_, _, rfl⟩, ⟨_, _, rfl⟩, by simp⟩
  · change List.Pairwise _ [cellAt 1, sepAt 2, cellAt 2]
    have h1 : cellAt (1 : DefaultPagerKey) < sepAt 2 := cellAt_lt_sepAt.mpr (by decide)
    have h2 : sepAt (2 : DefaultPagerKey) < cellAt 2 := sepAt_lt_cellAt.mpr le_rfl
    simp [h1, h2, h1.trans h2]
  · rw [hkids]
    simp only [List.forall_mem_cons]
    exact ⟨⟨by decide, by decide⟩, ⟨by decide, by decide⟩, by simp⟩

/-- What `insert(1, {})` makes of an empty leaf on page 2 under the default bounds. -/
def lonePager : Pager where
  file := {
    page := fun
      | 1 => .first ⟨2, nullPage, 1⟩
      | 2 => .leaf ⟨1, leafFree 1, nullPage, nullPage⟩ [⟨0, 1, nullPage⟩]
      | _ => .blank
    numPages := 2 }
  totalNumPages := 2

def loneState : BTreeState := ⟨lonePager, [], 2, {}⟩

def loneTree : BTree 0 := ⟨2, [⟨0, 1, nullPage⟩]⟩

theorem lone_good : lonePager.disk.Good := by
  refine ⟨⟨rfl, ⟨_, rfl⟩, ?_⟩, rfl, [], _, rfl, rfl⟩
  intro p hp
  by_contra hlt
  refine hp ?_
  have hne : ¬ p ≤ 2 := hlt
  simp [Pager.disk, lonePager, OsFile.read, hne, Page.logical]

theorem lone_wellFormed : WellFormed loneState.pager.disk loneState.self loneTree := by
  refine wellFormed_iff.mpr ⟨rfl, ⟨_, _, rfl⟩, by decide, ⟨rfl, trivial⟩, ?_, ?_⟩
  · exact List.pairwise_singleton _ _
  · change 1 ≤ Cpplite.leafMaxCells
    decide

section Completion

variable {n : Nat} {s : BTreeState} {t : BTree n} {k : DefaultPagerKey} [Build]

/-- `move_to_key(k)` finds the key and the `remove()` after it returns. -/
def Completes (s : BTreeState) (k : DefaultPagerKey) : Prop :=
  Returns (moveToKey k) s (fun found u => found = true ∧ Returns remove u (fun _ _ => True))

/-- The search for a stored key ends on its cell. -/
theorem moveToKey_found (hg : s.pager.disk.Good) (hT : Planted s.pager.disk s.self t)
    (hk : ∃ v ∈ entries t.spine, v.key = k) :
    Returns (moveToKey k) s (fun found u => found = true ∧ u.pager.disk = s.pager.disk ∧
      u.self.config = s.self.config ∧ Planted u.pager.disk u.self t ∧
      ∃ (c : BTreeCtx n 0) (p : Nat) (lo : List LeafCell) (v : LeafCell) (hi : List LeafCell),
        c.plug ⟨p, lo ++ v :: hi⟩ = t ∧ u.self.cursor = (p, lo.length) :: c.path ∧ v.key = k ∧
        Locates c k) := by
  refine (moveToKey_runs hg hT s rfl rfl).mono ?_
  rintro found u ⟨hu, c, l, i, harr⟩
  obtain rfl := (harr.found_iff hT).mpr hk
  obtain ⟨hplug, hloc, hfind, hcur⟩ := harr
  subst hplug
  refine ⟨rfl, hu, by rw [hcur], by rw [hu, hcur]; exact hT.setCursor _, ?_⟩
  rcases findKey_cases hT.keySorted_leaf k with
    ⟨lo, w, hi, hl, hwk, -, -, hfk⟩ | ⟨lo, hi, hl, hlo, hhi, hfk⟩
  · rw [hfind] at hfk
    cases hfk
    exact ⟨c, l.id, lo, w, hi, by rw [← hl], by rw [hcur], hwk, hloc⟩
  · rw [hfind] at hfk
    cases hfk

theorem remove_completes_iff (hb : Build.ndebug = false) (hg : s.pager.disk.Good)
    (hv : s.self.config.Valid) (hw : WellFormed s.pager.disk s.self t)
    (hk : ∃ v ∈ entries t.spine, v.key = k) :
    Completes s k ↔ ¬ MinimalRight s.self.config k t := by
  obtain ⟨found, u, hrun, rfl, hd, hcfg, hT, c, p, lo, v, hi, rfl, hcur, rfl, hloc⟩ :=
    moveToKey_found hg (wellFormed_iff.mp hw) hk
  rw [Completes, returns_of_eq hrun, ← hcfg,
    ← hloc.atFault_iff (l := ⟨p, lo ++ v :: hi⟩) ⟨v, by simp, rfl⟩]
  constructor
  · rintro ⟨-, hret⟩ hfault
    exact not_returns_of_raises (remove_aborts (hd ▸ hg) hT hcur hb hfault u rfl rfl) hret
  · intro hfault
    refine ⟨rfl, ?_⟩
    exact (remove_runs (hd ▸ hg) (hcfg ▸ hv) hT hcur (.inr hfault) u rfl rfl).mono
      (fun _ _ _ => trivial)

end Completion

theorem remove_completes_narrow :
    letI : Build := ⟨false⟩
    Completes narrowState 1 := by
  let _ : Build := ⟨false⟩
  refine (remove_completes_iff rfl narrow_good narrow_valid narrow_wellFormed
    ⟨⟨0, 1, nullPage⟩, by decide, rfl⟩).mpr ?_
  rintro ⟨-, v, hv, hk⟩
  obtain rfl := List.mem_singleton.mp hv
  cases hk

theorem remove_completes_fails :
    letI : Build := ⟨false⟩
    ¬ ∀ (n : Nat) (t : BTree n) (s : BTreeState) (k : DefaultPagerKey), s.pager.disk.Good →
      s.self.config.Valid → WellFormed s.pager.disk s.self t →
      (∃ v ∈ entries t.spine, v.key = k) → Completes s k := by
  let _ : Build := ⟨false⟩
  intro h
  have hc := h 1 narrowTree narrowState 2 narrow_good narrow_valid narrow_wellFormed
    ⟨⟨0, 2, nullPage⟩, by decide, rfl⟩
  obtain ⟨found, u, hrun, rfl, hd, hcfg, hT, c, p, lo, v, hi, hplug, hcur, hvk, hloc⟩ :=
    moveToKey_found narrow_good (wellFormed_iff.mp narrow_wellFormed)
      (k := 2) ⟨⟨0, 2, nullPage⟩, by decide, rfl⟩
  have hfault : AtFault u.self.config (lo ++ v :: hi).length c := by
    rw [hcfg, hloc.atFault_iff (l := ⟨p, lo ++ v :: hi⟩) ⟨v, by simp, hvk⟩, hplug]
    exact ⟨rfl, ⟨0, 2, nullPage⟩, by decide, rfl⟩
  rw [← hplug] at hT
  have hret := ((returns_of_eq hrun).mp hc).2
  exact not_returns_of_raises (remove_aborts (hd ▸ narrow_good) hT hcur rfl hfault u rfl rfl) hret

end Cpplite
