import Cpplite.BTree.WellFormed
import Cpplite.Lib.TreeWalk

/-!
Walking a B+tree cell by cell. `next` and `prev` go to the neighbour in the same leaf, or
climb to the first ancestor that has a child on that side and descend from it again.
-/
namespace Cpplite

open Exec Search Linked HeightTree

/-- The cursor stands on the cell `v`, with the cells `A` before it and `B` after it. -/
def Between {n : Nat} (cur : BTreeCursor) (t : BTree n) (A : List LeafCell) (v : LeafCell)
    (B : List LeafCell) : Prop :=
  ∃ (c : BTreeCtx n 0) (p : Nat) (lo hi : List LeafCell), c.plug ⟨p, lo ++ v :: hi⟩ = t ∧
    cur.cursor = (p, lo.length) :: c.path ∧ A = entries c.spineL ++ lo ∧ B = hi ++ entries c.spineR

section Place

variable {m n : Nat} {d : Disk} {cur₀ cur cur' : BTreeCursor} {t : BTree n} {A B : List LeafCell}
  {v : LeafCell} {k : DefaultPagerKey}

theorem Between.standsOn (h : Between cur t A v B) : StandsOn cur t v.key := by
  obtain ⟨c, p, lo, hi, hplug, hcur, -, -⟩ := h
  exact ⟨c, p, lo, v, hi, hplug, hcur, rfl⟩

theorem Between.placed (h : Between cur t A v B) : Placed cur t := by
  obtain ⟨c, p, lo, hi, hplug, hcur, -, -⟩ := h
  exact .inr ⟨c, _, _, hplug, hcur⟩

theorem StandsOn.between (h : StandsOn cur t k) : ∃ A v B, v.key = k ∧ Between cur t A v B := by
  obtain ⟨c, p, lo, v, hi, hplug, hcur, hk⟩ := h
  exact ⟨_, v, _, hk, c, p, lo, hi, hplug, hcur, rfl, rfl⟩

theorem Between.entries_eq (h : Between cur t A v B) : entries t.spine = A ++ v :: B := by
  obtain ⟨c, p, lo, hi, rfl, -, rfl, rfl⟩ := h
  simp [Ctx.spine_plug_leaf]

theorem Between.setCursor (h : Between cur t A v B) (hc : cur'.cursor = cur.cursor) :
    Between cur' t A v B := by
  obtain ⟨c, p, lo, hi, hplug, hcur, hA, hB⟩ := h
  exact ⟨c, p, lo, hi, hplug, hc.trans hcur, hA, hB⟩

theorem Between.onCell {s : BTreeState} (hT : Planted s.pager.disk s.self t)
    (h : Between s.self t A v B) : OnCell s := by
  obtain ⟨c, p, lo, hi, rfl, hcur, -, -⟩ := h
  exact ⟨p, lo.length, c.path, _, _, _, hcur, hT.leaf_page, by simp⟩

/-- A cell has one stack. -/
theorem Between.unique (hT : Planted d cur₀ t) (h : Between cur t A v B)
    (h' : Between cur' t A v B) : cur.cursor = cur'.cursor := by
  obtain ⟨c, p, lo, hi, rfl, hcur, hA, -⟩ := h
  obtain ⟨c', p', lo', hi', hplug, hcur', hA', -⟩ := h'
  have hloc := hT.locates
  rw [← hplug] at hT
  obtain ⟨rfl, hleaf⟩ := hT.locates.unique hloc hplug
  have hp : p' = p := congrArg Leaf.id hleaf
  have hlo : lo' = lo := by
    rw [hA] at hA'
    exact (List.append_cancel_left hA').symm
  rw [hcur, hcur', hlo, hp]

end Place

/-! ### Down to a first or a last cell -/

section Descend

variable {m n : Nat} {d : Disk} {cur₀ cur : BTreeCursor} {f : BTreeFrame n} {x : Nat}

theorem getElem?_frame (h : f.pre.length < f.size) :
    ∃ k, (preCells f ++ (restCells f x).1)[f.pre.length]? = some ⟨k, x⟩ := by
  cases f with
  | last p as => exact absurd h (lt_irrefl _)
  | mid p as k bs r => exact ⟨k, by simp [preCells, restCells, Frame.pre]⟩

theorem frameManager_numCells : (frameManager f x).numCells = f.size := length_cells

theorem frameManager_rightChild (h : f.pre.length = f.size) : (frameManager f x).rightChild = x := by
  cases f with
  | last p as => rfl
  | mid p as k bs r =>
    simp only [Frame.pre, Frame.size] at h
    omega

theorem Planted.leaf_type {c : BTreeCtx m 0} {l : BTreeLeaf} (h : Planted d cur₀ (c.plug l)) :
    (d.page l.id).type? = some .leafPage := by
  have hp : d.page l.id = .leaf l.cells _ _ := h.leaf_page
  rw [hp]
  rfl

/-- The page of a frame with its child in place. -/
theorem Planted.frame_page {c : BTreeCtx m (n + 1)} {u : BTree n}
    (h : Planted d cur₀ (c.plug (f.plug u))) :
    d.page f.id = .node (preCells f ++ (restCells f u.id).1) (restCells f u.id).2 :=
  (stored_frame.mp (stored_plug.mp h.stored).2).1

theorem Planted.frame_type {c : BTreeCtx m (n + 1)} {u : BTree n}
    (h : Planted d cur₀ (c.plug (f.plug u))) : (d.page f.id).type? = some .nodePage := by
  rw [h.frame_page]
  rfl

/-- A node of the tree has a child at every index, of which there are two at least. -/
theorem Planted.child {c : BTreeCtx m (n + 1)} {t : BTree (n + 1)} (hv : cur₀.config.Valid)
    (h : Planted d cur₀ (c.plug t)) : 0 < (Node.cells t).length ∧
      ∀ i, i ≤ (Node.cells t).length → ∃ (f : BTreeFrame n) (u : BTree n),
        t = f.plug u ∧ f.pre.length = i ∧ f.size = (Node.cells t).length := by
  have hlow := (Ctx.holeFilled_node.mp ((Ctx.rootFilled_plug c t).mp h.filled).2).1
  have hmin : 1 ≤ cur₀.config.bounds.nodeMin := hv.node_min
  refine ⟨?_, ?_⟩
  · cases c with
    | top => exact hlow
    | step f up => exact hmin.trans hlow
  · intro i hi
    obtain ⟨f, u, rfl, hpre, -⟩ := Frame.exists_frame t i hi
    exact ⟨f, u, rfl, hpre, Frame.length_plug_cells.symm⟩

/-- Where the tree is not empty, none of its leaves is. -/
theorem Planted.leaf_nonempty {c : BTreeCtx m 0} {l : BTreeLeaf} (hv : cur₀.config.Valid)
    (h : Planted d cur₀ (c.plug l)) (hne : entries (c.plug l).spine ≠ []) : l.cells ≠ [] := by
  intro hnil
  have hlen := (Ctx.holeFilled_leaf.mp ((Ctx.rootFilled_plug c l).mp h.filled).2).1
  have hmin : 1 ≤ cur₀.config.bounds.leafMin := hv.leaf_min
  cases c with
  | top =>
    refine hne ?_
    change l.cells ++ [] = []
    rw [hnil]
    rfl
  | step f up =>
    have h1 := hlen (by simp [Ctx.path])
    rw [hnil] at h1
    exact absurd (hmin.trans h1) (Nat.not_succ_le_zero 0)

variable [Build]

theorem Planted.loadNode {c : BTreeCtx m (n + 1)} {u : BTree n}
    (h : Planted d cur₀ (c.plug (f.plug u))) :
    Steps (liftM (NodePageManager.load f.id)) d cur (frameManager f u.id) d cur :=
  steps_loadNode h.frame_page

theorem Planted.seekNode {c : BTreeCtx m (n + 1)} {u : BTree n} (hg : d.Good)
    (h : Planted d cur₀ (c.plug (f.plug u))) :
    Steps (liftM (seekPage f.id)) d cur (.node (frameManager f u.id)) d cur := by
  have hseek : Steps (liftM (seekPage f.id)) d cur (managerOf d f.id) d cur :=
    steps_seekPage hg (by rw [h.frame_page]; trivial)
  rwa [managerOf, h.frame_page] at hseek

theorem descendFirst_runs (hv : cur₀.config.Valid) : ∀ {n : Nat} (c : BTreeCtx m n) (t : BTree n)
    (fuel : Nat) (cur : BTreeCursor), n < fuel → Planted d cur₀ (c.plug t) →
    Runs (descendFirst fuel t.id c.path) d cur (fun _ d' cur' => d' = d ∧
      ∃ (c' : BTreeCtx m 0) (l : BTreeLeaf), c'.plug l = c.plug t ∧
        cur' = { cur with cursor := (l.id, 0) :: c'.path } ∧
        entries c'.spineL = entries c.spineL) := by
  intro n
  induction n with
  | zero =>
    intro c l fuel cur hf hT
    obtain ⟨fuel, rfl⟩ : ∃ fuel', fuel = fuel' + 1 := ⟨fuel - 1, by omega⟩
    have hpage : d.page (Leaf.id l) = .leaf (Leaf.cells l) _ _ := hT.leaf_page
    refine (steps_getPageType hT.leaf_type).then ?_
    refine Runs.ite_pos rfl ?_
    refine (steps_loadLeaf hpage).then ?_
    refine Runs.mono steps_setCursor ?_
    rintro _ d' cur' ⟨-, rfl, rfl⟩
    exact ⟨rfl, c, l, rfl, rfl, rfl⟩
  | succ n ih =>
    intro c t fuel cur hf hT
    obtain ⟨fuel, rfl⟩ : ∃ fuel', fuel = fuel' + 1 := ⟨fuel - 1, by omega⟩
    obtain ⟨hpos, hkid⟩ := hT.child hv
    obtain ⟨f, u, rfl, hpre, hsize⟩ := hkid 0 (Nat.zero_le _)
    have hid : Tree.id (n := n + 1) (f.plug u) = f.id := Frame.plug_id
    obtain ⟨k, hk⟩ := getElem?_frame (x := u.id) (show f.pre.length < f.size by omega)
    rw [hpre] at hk
    rw [hid]
    refine (steps_getPageType hT.frame_type).then ?_
    refine Runs.ite_neg (by decide) ?_
    refine hT.loadNode.then ?_
    refine steps_setCursor.then ?_
    refine (steps_index hk).then ?_
    have hrun := ih (.step f c) u fuel { cur with cursor := (f.id, 0) :: c.path } (by omega) hT
    rw [Ctx.path, hpre] at hrun
    refine hrun.mono ?_
    rintro _ d' cur' ⟨rfl, c', l, hplug, rfl, hleft⟩
    refine ⟨rfl, c', l, hplug, rfl, ?_⟩
    rw [hleft, Ctx.spineL_step, entries_append, Frame.entries_spineL_nil hpre, List.append_nil]

theorem descendLast_runs (hv : cur₀.config.Valid) : ∀ {n : Nat} (c : BTreeCtx m n) (t : BTree n)
    (fuel : Nat) (cur : BTreeCursor), n < fuel → Planted d cur₀ (c.plug t) →
    Runs (descendLast fuel t.id c.path) d cur (fun _ d' cur' => d' = d ∧
      ∃ (c' : BTreeCtx m 0) (l : BTreeLeaf), c'.plug l = c.plug t ∧
        cur' = { cur with cursor := (l.id, pred64 l.cells.length) :: c'.path } ∧
        entries c'.spineR = entries c.spineR) := by
  intro n
  induction n with
  | zero =>
    intro c l fuel cur hf hT
    obtain ⟨fuel, rfl⟩ : ∃ fuel', fuel = fuel' + 1 := ⟨fuel - 1, by omega⟩
    have hpage : d.page (Leaf.id l) = .leaf (Leaf.cells l) _ _ := hT.leaf_page
    refine (steps_getPageType hT.leaf_type).then ?_
    refine Runs.ite_pos rfl ?_
    refine (steps_loadLeaf hpage).then ?_
    refine Runs.mono steps_setCursor ?_
    rintro _ d' cur' ⟨-, rfl, rfl⟩
    exact ⟨rfl, c, l, rfl, rfl, rfl⟩
  | succ n ih =>
    intro c t fuel cur hf hT
    obtain ⟨fuel, rfl⟩ : ∃ fuel', fuel = fuel' + 1 := ⟨fuel - 1, by omega⟩
    obtain ⟨-, hkid⟩ := hT.child hv
    obtain ⟨f, u, rfl, hpre, hsize⟩ := hkid _ le_rfl
    rw [← hsize] at hpre
    have hid : Tree.id (n := n + 1) (f.plug u) = f.id := Frame.plug_id
    rw [hid]
    refine (steps_getPageType hT.frame_type).then ?_
    refine Runs.ite_neg (by decide) ?_
    refine hT.loadNode.then ?_
    refine steps_setCursor.then ?_
    rw [frameManager_numCells, frameManager_rightChild hpre, ← hpre]
    have hrun := ih (.step f c) u fuel { cur with cursor := (f.id, f.pre.length) :: c.path }
      (by omega) hT
    refine hrun.mono ?_
    rintro _ d' cur' ⟨rfl, c', l, hplug, rfl, hright⟩
    refine ⟨rfl, c', l, hplug, rfl, ?_⟩
    rw [hright, Ctx.spineR_step, entries_append, Frame.entries_spineR_nil hpre, List.nil_append]

theorem moveToFirstLoop_runs (cur : BTreeCursor) (hg : d.Good) (hv : cur₀.config.Valid) : ∀ {n : Nat}
    (c : BTreeCtx m n) (t : BTree n) (fuel : Nat), n < fuel → Planted d cur₀ (c.plug t) →
    Runs (moveToFirstLoop fuel t.id c.path) d cur (fun res d' cur' => d' = d ∧ cur' = cur ∧
      ∃ (c' : BTreeCtx m 0) (l : BTreeLeaf), c'.plug l = c.plug t ∧ res = (l.id, c'.path) ∧
        entries c'.spineL = entries c.spineL) := by
  intro n
  induction n with
  | zero =>
    intro c l fuel hf hT
    obtain ⟨fuel, rfl⟩ : ∃ fuel', fuel = fuel' + 1 := ⟨fuel - 1, by omega⟩
    refine (steps_getPageType hT.leaf_type).then ?_
    refine Runs.ite_neg (by decide) ?_
    exact Runs.pure ⟨rfl, rfl, c, l, rfl, rfl, rfl⟩
  | succ n ih =>
    intro c t fuel hf hT
    obtain ⟨fuel, rfl⟩ : ∃ fuel', fuel = fuel' + 1 := ⟨fuel - 1, by omega⟩
    obtain ⟨hpos, hkid⟩ := hT.child hv
    obtain ⟨f, u, rfl, hpre, hsize⟩ := hkid 0 (Nat.zero_le _)
    have hid : Tree.id (n := n + 1) (f.plug u) = f.id := Frame.plug_id
    obtain ⟨k, hk⟩ := getElem?_frame (x := u.id) (show f.pre.length < f.size by omega)
    rw [hpre] at hk
    rw [hid]
    refine (steps_getPageType hT.frame_type).then ?_
    refine Runs.ite_pos (by decide) ?_
    refine (hT.seekNode hg).then ?_
    refine steps_pure.then ?_
    refine (steps_assert (.inr ⟨rfl, by rw [frameManager_numCells]; omega⟩)).then ?_
    refine (steps_index hk).then ?_
    have hrun := ih (.step f c) u fuel (by omega) hT
    rw [Ctx.path, hpre] at hrun
    refine hrun.mono ?_
    rintro _ d' cur' ⟨rfl, rfl, c', l, hplug, rfl, hleft⟩
    refine ⟨rfl, rfl, c', l, hplug, rfl, ?_⟩
    rw [hleft, Ctx.spineL_step, entries_append, Frame.entries_spineL_nil hpre, List.append_nil]

theorem moveToLastLoop_runs (cur : BTreeCursor) (hg : d.Good) (hv : cur₀.config.Valid) : ∀ {n : Nat}
    (c : BTreeCtx m n) (t : BTree n) (fuel : Nat), n < fuel → Planted d cur₀ (c.plug t) →
    Runs (moveToLastLoop fuel t.id c.path) d cur (fun res d' cur' => d' = d ∧ cur' = cur ∧
      ∃ (c' : BTreeCtx m 0) (l : BTreeLeaf), c'.plug l = c.plug t ∧ res = (l.id, c'.path) ∧
        entries c'.spineR = entries c.spineR) := by
  intro n
  induction n with
  | zero =>
    intro c l fuel hf hT
    obtain ⟨fuel, rfl⟩ : ∃ fuel', fuel = fuel' + 1 := ⟨fuel - 1, by omega⟩
    refine (steps_getPageType hT.leaf_type).then ?_
    refine Runs.ite_neg (by decide) ?_
    exact Runs.pure ⟨rfl, rfl, c, l, rfl, rfl, rfl⟩
  | succ n ih =>
    intro c t fuel hf hT
    obtain ⟨fuel, rfl⟩ : ∃ fuel', fuel = fuel' + 1 := ⟨fuel - 1, by omega⟩
    obtain ⟨hpos, hkid⟩ := hT.child hv
    obtain ⟨f, u, rfl, hpre, hsize⟩ := hkid _ le_rfl
    rw [← hsize] at hpre hpos
    have hid : Tree.id (n := n + 1) (f.plug u) = f.id := Frame.plug_id
    rw [hid]
    refine (steps_getPageType hT.frame_type).then ?_
    refine Runs.ite_pos (by decide) ?_
    refine (hT.seekNode hg).then ?_
    refine steps_pure.then ?_
    refine (steps_assert (.inr ⟨rfl, by rw [frameManager_numCells]; exact hpos⟩)).then ?_
    rw [frameManager_numCells, frameManager_rightChild hpre, ← hpre]
    refine (ih (.step f c) u fuel (by omega) hT).mono ?_
    rintro _ d' cur' ⟨rfl, rfl, c', l, hplug, rfl, hright⟩
    refine ⟨rfl, rfl, c', l, hplug, rfl, ?_⟩
    rw [hright, Ctx.spineR_step, entries_append, Frame.entries_spineR_nil hpre, List.nil_append]

end Descend

/-! ### The moves -/

section Moves

variable {n : Nat} {d : Disk} {cur : BTreeCursor} {t : BTree n} {A B : List LeafCell}
  {v w : LeafCell}

theorem pred64_eq {n : Nat} (h : 0 < n) (hn : n ≤ leafMaxCells) : pred64 n = n - 1 := by
  have hmax : leafMaxCells < 2 ^ 64 := by decide
  unfold pred64
  omega

theorem Planted.leaf_length_le {c : BTreeCtx n 0} {l : BTreeLeaf} (hv : cur.config.Valid)
    (h : Planted d cur (c.plug l)) : l.cells.length ≤ leafMaxCells :=
  (Ctx.holeFilled_leaf.mp ((Ctx.rootFilled_plug c l).mp h.filled).2).2.trans hv.leaf_max

variable [Build]

theorem Planted.seekLeaf {c : BTreeCtx n 0} {l : BTreeLeaf} {cur' : BTreeCursor} (hg : d.Good)
    (h : Planted d cur (c.plug l)) : Steps (liftM (seekPage l.id)) d cur'
      (.leaf (leafManager l.id l.cells ((leafIds c.spineL).getLastD nullPage)
        ((leafIds c.spineR).headD nullPage))) d cur' := by
  have hpage : d.page l.id = .leaf l.cells _ _ := h.leaf_page
  have hseek : Steps (liftM (seekPage l.id)) d cur' (managerOf d l.id) d cur' :=
    steps_seekPage hg (by rw [hpage]; trivial)
  rwa [managerOf, hpage] at hseek

theorem moveToFirst_runs (hg : d.Good) (hv : cur.config.Valid) (hT : Planted d cur t)
    (he : entries t.spine = v :: B) : Runs moveToFirst d cur (fun _ d' cur' => d' = d ∧
      ∃ st, cur' = { cur with cursor := st } ∧ Between cur' t [] v B) := by
  have hroot : (d.page cur.rootPgno).IsTree := by
    rw [← hT.root_eq]
    exact hT.stored.isTree _ t.id_mem_ids
  refine steps_getSelf.then ?_
  refine (steps_seekPage hg hroot).then ?_
  refine steps_walkFuel.then ?_
  have hloop := moveToFirstLoop_runs cur hg hv (.top : BTreeCtx n n) t (d.size + 1)
    (hT.height_lt hg) hT
  rw [hT.root_eq] at hloop
  refine hloop.bind ?_
  rintro _ d' cur' ⟨rfl, rfl, c, l, hplug, rfl, hleft⟩
  change c.plug l = t at hplug
  subst hplug
  have hne := hT.leaf_nonempty hv (by rw [he]; simp)
  refine (hT.seekLeaf hg).then ?_
  refine steps_pure.then ?_
  refine (steps_assert (.inr ⟨rfl, List.length_pos_iff.mpr hne⟩)).then ?_
  refine Runs.mono steps_setCursor ?_
  rintro _ d' cur' ⟨-, rfl, rfl⟩
  refine ⟨rfl, _, rfl, ?_⟩
  obtain ⟨p, cells⟩ := l
  cases cells with
  | nil => exact absurd rfl hne
  | cons v' hi =>
    have hA : entries c.spineL = [] := hleft
    rw [Ctx.spine_plug_leaf, entries_append, entries_leaf, hA] at he
    obtain ⟨rfl, rfl⟩ := List.cons.inj he
    exact ⟨c, p, [], hi, rfl, rfl, by rw [hA]; rfl, rfl⟩

/-- `move_to_last` asks for a node at the root. -/
theorem moveToLast_runs (hg : d.Good) (hv : cur.config.Valid) (hT : Planted d cur t)
    (hroot : Build.ndebug = true ∨ (d.page cur.rootPgno).type? = some .nodePage)
    (he : entries t.spine = A ++ [v]) : Runs moveToLast d cur (fun _ d' cur' => d' = d ∧
      ∃ st, cur' = { cur with cursor := st } ∧ Between cur' t A v []) := by
  have htree : (d.page cur.rootPgno).IsTree := by
    rw [← hT.root_eq]
    exact hT.stored.isTree _ t.id_mem_ids
  refine steps_getSelf.then ?_
  refine (steps_seekPage hg htree).then ?_
  refine (steps_typeOf htree).then ?_
  refine (steps_assert (hroot.imp_right ?_)).then ?_
  · intro h
    rw [typeOf, h]
    rfl
  refine steps_walkFuel.then ?_
  have hloop := moveToLastLoop_runs cur hg hv (.top : BTreeCtx n n) t (d.size + 1)
    (hT.height_lt hg) hT
  rw [hT.root_eq] at hloop
  refine hloop.bind ?_
  rintro _ d' cur' ⟨rfl, rfl, c, l, hplug, rfl, hright⟩
  change c.plug l = t at hplug
  subst hplug
  have hne := hT.leaf_nonempty hv (by rw [he]; simp)
  have hpos := List.length_pos_iff.mpr hne
  refine (hT.seekLeaf hg).then ?_
  refine steps_pure.then ?_
  refine (steps_assert (.inr ⟨rfl, hpos⟩)).then ?_
  refine Runs.mono steps_setCursor ?_
  rintro _ d' cur' ⟨-, rfl, rfl⟩
  refine ⟨rfl, _, rfl, ?_⟩
  obtain ⟨p, cells⟩ := l
  have hB : entries c.spineR = [] := hright
  obtain ⟨lo, v', rfl⟩ := (List.eq_nil_or_concat' cells).resolve_left hne
  have hlast : entries c.spineL ++ lo ++ [v'] = A ++ [v] := by
    rw [← he, Ctx.spine_plug_leaf, entries_append, entries_leaf, hB]
    simp
  obtain ⟨rfl, hvv⟩ := List.append_inj' hlast rfl
  cases hvv
  refine ⟨c, p, lo, [], rfl, ?_, rfl, by rw [hB]; rfl⟩
  have hpred : pred64 (lo ++ [v]).length = lo.length := by
    rw [pred64_eq hpos (hT.leaf_length_le hv)]
    simp
  change (p, pred64 (lo ++ [v]).length) :: c.path = _
  rw [hpred]

/-- The climb of `next`: to the first ancestor with a child right of the path. -/
theorem popRightmost_runs : ∀ {n : Nat} {m : Nat} (c : BTreeCtx m n) (u : BTree n) (cur' : BTreeCursor),
    Planted d cur (c.plug u) → Runs (popRightmost c.path) d { cur' with cursor := c.path }
      (fun st d' cur'' => d' = d ∧ cur'' = { cur' with cursor := st } ∧
        ((st = [] ∧ entries c.spineR = []) ∨
          ∃ (n' : Nat) (f : BTreeFrame n') (up : BTreeCtx m (n' + 1)) (u' : BTree n'),
            st = (Ctx.step f up).path ∧ f.pre.length < f.size ∧
            (Ctx.step f up).plug u' = c.plug u ∧
            entries (Ctx.step f up).spineR = entries c.spineR)) := by
  intro n m c
  induction c with
  | top =>
    intro u cur' hT
    exact Runs.pure ⟨rfl, rfl, .inl ⟨rfl, rfl⟩⟩
  | step f up ih =>
    intro u cur' hT
    refine (steps_assertPageType hT.frame_type).then ?_
    refine hT.loadNode.then ?_
    by_cases hlt : f.pre.length < f.size
    · refine Runs.ite_pos (by rw [frameManager_numCells]; exact hlt) ?_
      exact Runs.pure ⟨rfl, rfl, .inr ⟨_, f, up, u, rfl, hlt, rfl, rfl⟩⟩
    · refine Runs.ite_neg (by rw [frameManager_numCells]; exact hlt) ?_
      refine steps_setCursor.then ?_
      have hsize : f.pre.length = f.size := le_antisymm Frame.pre_length_le (not_lt.mp hlt)
      have hright : entries (Ctx.step f up).spineR = entries up.spineR := by
        rw [Ctx.spineR_step, entries_append, Frame.entries_spineR_nil hsize, List.nil_append]
      rw [hright]
      exact ih (f.plug u) cur' hT

omit [Build] in
/-- The place after a step to the right, from what lies left of it. -/
theorem Between.of_first (cur : BTreeCursor) {c : BTreeCtx n 0} {l : BTreeLeaf} (hplug : c.plug l = t)
    (he : entries t.spine = A ++ B) (hne : l.cells ≠ []) (hleft : entries c.spineL = A)
    (hcur : cur.cursor = (l.id, 0) :: c.path) : ∃ w B', B = w :: B' ∧ Between cur t A w B' := by
  obtain ⟨p, cells⟩ := l
  obtain ⟨w, hi, rfl⟩ := List.exists_cons_of_ne_nil hne
  refine ⟨w, hi ++ entries c.spineR, ?_, c, p, [], hi, hplug, hcur, ?_, rfl⟩
  · rw [← hplug, Ctx.spine_plug_leaf, entries_append, entries_leaf, hleft] at he
    exact (List.append_cancel_left he).symm
  · rw [hleft, List.append_nil]

/-- `next` goes to the cell after the one it stands on; from the last cell it goes nowhere. -/
theorem next_runs (hg : d.Good) (hv : cur.config.Valid) (hT : Planted d cur t)
    (h : Between cur t A v B) : Runs next d cur (fun ok d' cur' => d' = d ∧
      ∃ st, cur' = { cur with cursor := st } ∧ ((ok = false ∧ st = [] ∧ B = []) ∨
        ∃ w B', ok = true ∧ B = w :: B' ∧ Between cur' t (A ++ [v]) w B')) := by
  have he := h.entries_eq
  obtain ⟨c, p, lo, hi, rfl, hcur, rfl, rfl⟩ := h
  have hpage := hT.leaf_page
  have hle := hT.leaf_length_le hv
  have hpred : pred64 (lo ++ v :: hi).length = lo.length + hi.length := by
    rw [pred64_eq (by simp) hle]
    simp
  unfold next
  refine steps_getSelf.then ?_
  rw [hcur]
  refine (steps_assert (.inr (by simp))).then ?_
  refine steps_topOf.then ?_
  refine (steps_assertPageType hT.leaf_type).then ?_
  refine (steps_loadLeaf hpage).then ?_
  refine (steps_assert (.inr rfl)).then ?_
  refine (steps_assert (.inr (by simp [leafManager]))).then ?_
  have hnum : (leafManager p (lo ++ v :: hi) ((leafIds c.spineL).getLastD nullPage)
      ((leafIds c.spineR).headD nullPage)).numCells = (lo ++ v :: hi).length := rfl
  rw [hnum, hpred]
  cases hi with
  | cons w hi =>
    refine Runs.ite_pos (by simp) ?_
    refine steps_setCursor.then ?_
    refine Runs.pure ⟨rfl, _, rfl, .inr ⟨w, hi ++ entries c.spineR, rfl, rfl, ?_⟩⟩
    refine ⟨c, p, lo ++ [v], hi, by simp, by simp, by simp, rfl⟩
  | nil =>
    refine Runs.ite_neg (by simp) ?_
    refine steps_setCursor.then ?_
    refine (steps_assert (.inr (by simp))).then ?_
    refine (popRightmost_runs c _ cur hT).bind ?_
    rintro st d' cur' ⟨rfl, rfl, ⟨rfl, hright⟩ | ⟨n', f, up, u, rfl, hlt, hplug, hright⟩⟩
    · exact Runs.pure ⟨rfl, [], rfl, .inl ⟨rfl, rfl, hright⟩⟩
    obtain ⟨f, k, u', rfl⟩ := Frame.exists_atLeft hlt
    -- the same node seen from its next child
    have hplug' : (Ctx.step (f.atRight u k) up).plug u' = c.plug ⟨p, lo ++ [v]⟩ := by
      rw [← hplug, Ctx.plug, Ctx.plug, Frame.plug_atRight]
    rw [← hplug'] at hT
    have hleft : entries (Ctx.step (f.atRight u k) up).spineL = entries c.spineL ++ (lo ++ [v]) := by
      have hupto := Ctx.entries_upto hplug hright
      rw [Ctx.spineL_step, entries_append, Frame.entries_atLeft.1, List.append_assoc] at hupto
      rw [Ctx.spineL_step, entries_append, Frame.entries_atRight.1, hupto]
      simp [Tree.spine, Tree.fold]
    have hnumCells : (frameManager (f.atRight u k) u'.id).numCells = f.size + 1 := by
      rw [frameManager_numCells]
      cases f <;> simp [Frame.atRight, Frame.size]
      omega
    rw [Ctx.path, Frame.atLeft_id, ← Frame.atRight_id (t := u) (k := k), Frame.atLeft_pre]
    refine hT.loadNode.then ?_
    refine (steps_assert (.inr ?_)).then ?_
    · rw [hnumCells]
      exact Nat.lt_succ_of_le Frame.pre_length_le
    refine steps_setCursor.then ?_
    refine (steps_assertPageType hT.frame_type).then ?_
    refine hT.loadNode.then ?_
    have hidx : f.pre.length + 1 = (f.atRight u k).pre.length := by simp
    rw [hidx]
    refine steps_childAt.then ?_
    refine steps_walkFuel.then ?_
    refine (descendFirst_runs hv (.step (f.atRight u k) up) u' _ _ ?_ hT).bind ?_
    · have h1 := up.height_le
      have h2 := hT.height_lt hg
      omega
    rintro _ d' cur' ⟨rfl, c', l, hplug'', rfl, hleft'⟩
    rw [← hplug''] at hT
    have hne := hT.leaf_nonempty hv (by rw [hplug'', hplug', he]; simp)
    have he' : entries (c.plug ⟨p, lo ++ [v]⟩).spine = (entries c.spineL ++ lo ++ [v]) ++
        ([] ++ entries c.spineR) := by
      rw [he]
      simp
    obtain ⟨w, B', hB, hw⟩ := Between.of_first { cur with cursor := (l.id, 0) :: c'.path }
      (hplug''.trans hplug') he' hne (by rw [hleft', hleft, List.append_assoc]) rfl
    exact Runs.pure ⟨rfl, _, rfl, .inr ⟨w, B', rfl, hB, hw⟩⟩

omit [Build] in
/-- The climb of `prev`: to the first ancestor with a child left of the path. -/
theorem popLeftmost_path {n m : Nat} (c : BTreeCtx m n) : ∀ u : BTree n,
    (popLeftmost c.path = [] ∧ entries c.spineL = []) ∨
      ∃ (n' : Nat) (f : BTreeFrame n') (up : BTreeCtx m (n' + 1)) (u' : BTree n'),
        popLeftmost c.path = (Ctx.step f up).path ∧ 0 < f.pre.length ∧
        (Ctx.step f up).plug u' = c.plug u ∧ entries (Ctx.step f up).spineL = entries c.spineL := by
  induction c with
  | top => exact fun _ => .inl ⟨rfl, rfl⟩
  | step f up ih =>
    intro u
    by_cases hpos : 0 < f.pre.length
    · refine .inr ⟨_, f, up, u, ?_, hpos, rfl, rfl⟩
      rw [Ctx.path, popLeftmost, if_pos hpos]
    · have hzero : f.pre.length = 0 := Nat.eq_zero_of_not_pos hpos
      have hpop : popLeftmost (Ctx.step f up).path = popLeftmost up.path := by
        rw [Ctx.path, popLeftmost, if_neg hpos]
      have hleft : entries (Ctx.step f up).spineL = entries up.spineL := by
        rw [Ctx.spineL_step, entries_append, Frame.entries_spineL_nil hzero, List.append_nil]
      rw [hpop, hleft]
      exact ih (f.plug u)

omit [Build] in
/-- The place after a step to the left, from what lies right of it. -/
theorem Between.of_last (cur : BTreeCursor) {c : BTreeCtx n 0} {l : BTreeLeaf}
    (hplug : c.plug l = t) (he : entries t.spine = A ++ B) (hne : l.cells ≠ [])
    (hright : entries c.spineR = B) (hcur : cur.cursor = (l.id, l.cells.length - 1) :: c.path) :
    ∃ A' w, A = A' ++ [w] ∧ Between cur t A' w B := by
  obtain ⟨p, cells⟩ := l
  obtain ⟨lo, w, rfl⟩ := (List.eq_nil_or_concat' cells).resolve_left hne
  refine ⟨entries c.spineL ++ lo, w, ?_, c, p, lo, [], hplug, ?_, rfl, hright.symm⟩
  · rw [← hplug, Ctx.spine_plug_leaf, entries_append, entries_leaf, hright, ← List.append_assoc,
      ← List.append_assoc] at he
    exact (List.append_cancel_right he).symm
  · rw [hcur]
    simp

/-- `prev` goes to the cell before the one it stands on; from the first cell it goes nowhere. -/
theorem prev_runs (hg : d.Good) (hv : cur.config.Valid) (hT : Planted d cur t)
    (h : Between cur t A v B) : Runs prev d cur (fun ok d' cur' => d' = d ∧
      ∃ st, cur' = { cur with cursor := st } ∧ ((ok = false ∧ st = [] ∧ A = []) ∨
        ∃ A' w, ok = true ∧ A = A' ++ [w] ∧ Between cur' t A' w (v :: B))) := by
  have he := h.entries_eq
  obtain ⟨c, p, lo, hi, rfl, hcur, rfl, rfl⟩ := h
  unfold prev
  refine steps_getSelf.then ?_
  rw [hcur]
  refine (steps_assert (.inr (by simp))).then ?_
  refine steps_topOf.then ?_
  refine (steps_getPageType hT.leaf_type).then ?_
  refine (steps_assert (.inr rfl)).then ?_
  refine (steps_loadLeaf hT.leaf_page).then ?_
  refine (steps_assert (.inr rfl)).then ?_
  refine (steps_assert (.inr (by simp [leafManager]))).then ?_
  rcases List.eq_nil_or_concat' lo with rfl | ⟨lo, w, rfl⟩
  · refine Runs.ite_neg (by simp) ?_
    refine steps_setCursor.then ?_
    rw [List.tail_cons]
    rcases popLeftmost_path c ⟨p, [] ++ v :: hi⟩ with
      ⟨hpop, hleft⟩ | ⟨n', f, up, u, hpop, hpos, hplug, hleft⟩
    · rw [hpop]
      exact Runs.pure ⟨rfl, [], rfl, .inl ⟨rfl, rfl, by rw [hleft]; rfl⟩⟩
    obtain ⟨f, u', k, rfl⟩ := Frame.exists_atRight hpos
    -- the same node seen from its previous child
    have hplug' : (Ctx.step (f.atLeft k u) up).plug u' = c.plug ⟨p, [] ++ v :: hi⟩ := by
      rw [← hplug, Ctx.plug, Ctx.plug, Frame.plug_atRight]
    rw [← hplug'] at hT
    have hright : entries (Ctx.step (f.atLeft k u) up).spineR = v :: (hi ++ entries c.spineR) := by
      have hfrom := Ctx.entries_from hplug hleft
      rw [Ctx.spineR_step, entries_append, Frame.entries_atRight.2] at hfrom
      rw [Ctx.spineR_step, entries_append, Frame.entries_atLeft.2, List.append_assoc, hfrom]
      simp [Tree.spine, Tree.fold]
    obtain ⟨k', hk'⟩ := getElem?_frame (x := u'.id) (Frame.pre_lt_size_atLeft (f := f) (k := k) (u := u))
    rw [hpop, Ctx.path, Frame.atRight_id, ← Frame.atLeft_id (k := k) (u := u), Frame.atRight_pre,
      List.length_append, List.length_singleton]
    refine steps_setCursor.then ?_
    refine (steps_assertPageType hT.frame_type).then ?_
    refine hT.loadNode.then ?_
    rw [Nat.add_sub_cancel, ← Frame.atLeft_pre (f := f) (k := k) (u := u)]
    refine (steps_index hk').then ?_
    refine steps_walkFuel.then ?_
    refine (descendLast_runs hv (.step (f.atLeft k u) up) u' _ _ ?_ hT).bind ?_
    · have h1 := up.height_le
      have h2 := hT.height_lt hg
      omega
    rintro _ d' cur' ⟨rfl, c', l, hplug'', rfl, hright'⟩
    rw [← hplug''] at hT
    have hne := hT.leaf_nonempty hv (by rw [hplug'', hplug', he]; simp)
    rw [pred64_eq (List.length_pos_iff.mpr hne) (hT.leaf_length_le hv)]
    obtain ⟨A', w, hA, hw⟩ := Between.of_last { cur with cursor := (l.id, l.cells.length - 1) :: c'.path }
      (hplug''.trans hplug') he hne (hright'.trans hright) rfl
    exact Runs.pure ⟨rfl, _, rfl, .inr ⟨A', w, rfl, hA, hw⟩⟩
  · refine Runs.ite_pos (by simp) ?_
    refine steps_setCursor.then ?_
    refine Runs.pure ⟨rfl, _, rfl, .inr ⟨entries c.spineL ++ lo, w, rfl, by simp, ?_⟩⟩
    exact ⟨c, p, lo, v :: hi, by simp, by simp, rfl, rfl⟩

end Moves

/-! ### Whole walks -/

/-- The keys of the tree from left to right. -/
def storedKeys {n : Nat} (t : BTree n) : List DefaultPagerKey := (entries t.spine).map LeafCell.key

theorem StandsOn.mem_storedKeys {n : Nat} {cur : BTreeCursor} {t : BTree n} {k : DefaultPagerKey}
    (h : StandsOn cur t k) : k ∈ storedKeys t := by
  obtain ⟨A, v, B, rfl, hb⟩ := h.between
  rw [storedKeys, hb.entries_eq]
  simp

section Walk

variable [Build]

/-- Reading the key and stepping until the step answers `false` reads these keys. -/
inductive Visits (step : BTreeM Bool) : BTreeState → List DefaultPagerKey → Prop where
  | last {s u w : BTreeState} {k : DefaultPagerKey} (hk : currentKey s = .ok k u)
      (hs : step u = .ok false w) : Visits step s [k]
  | more {s u w : BTreeState} {k : DefaultPagerKey} {ks : List DefaultPagerKey}
      (hk : currentKey s = .ok k u) (hs : step u = .ok true w) (h : Visits step w ks) :
      Visits step s (k :: ks)

variable {n : Nat} {s : BTreeState} {t : BTree n} {A B : List LeafCell} {v : LeafCell}
  {k : DefaultPagerKey}

/-- Reading the key where the cursor stands leaves everything in place. -/
theorem Between.currentKey (hT : Planted s.pager.disk s.self t) (h : Between s.self t A v B) :
    ∃ u, currentKey s = .ok v.key u ∧ u.pager.disk = s.pager.disk ∧ u.self = s.self := by
  obtain ⟨k, u, hrun, rfl, hd, hself⟩ := hT.currentKey h.standsOn s rfl rfl
  exact ⟨u, hrun, hd, hself⟩

theorem Between.visits_next (hg : s.pager.disk.Good) (hv : s.self.config.Valid)
    (hT : Planted s.pager.disk s.self t) (h : Between s.self t A v B) :
    Visits next s ((v :: B).map LeafCell.key) := by
  induction B generalizing s A v with
  | nil =>
    obtain ⟨u, hkey, hd, hself⟩ := h.currentKey hT
    obtain ⟨ok, w, hrun, hd', st, hself', ⟨rfl, -⟩ | ⟨w', B', -, hB, -⟩⟩ :=
      next_runs hg hv hT h u hd hself
    · exact .last hkey hrun
    · cases hB
  | cons b B ih =>
    obtain ⟨u, hkey, hd, hself⟩ := h.currentKey hT
    obtain ⟨ok, w, hrun, hd', st, hself', ⟨-, -, hB⟩ | ⟨w', B', rfl, hB, hw⟩⟩ :=
      next_runs hg hv hT h u hd hself
    · cases hB
    · cases hB
      refine .more hkey hrun (ih (hd' ▸ hg) ?_ ?_ hw)
      · rw [hself']
        exact hv
      · rw [hself', hd']
        exact hT.setCursor st

theorem Between.visits_prev (hg : s.pager.disk.Good) (hv : s.self.config.Valid)
    (hT : Planted s.pager.disk s.self t) (h : Between s.self t A v B) :
    Visits prev s ((A ++ [v]).map LeafCell.key).reverse := by
  induction A using List.reverseRecOn generalizing s v B with
  | nil =>
    obtain ⟨u, hkey, hd, hself⟩ := h.currentKey hT
    obtain ⟨ok, w, hrun, hd', st, hself', ⟨rfl, -⟩ | ⟨A', w', -, hA, -⟩⟩ :=
      prev_runs hg hv hT h u hd hself
    · exact .last hkey hrun
    · simp at hA
  | append_singleton A a ih =>
    obtain ⟨u, hkey, hd, hself⟩ := h.currentKey hT
    obtain ⟨ok, w, hrun, hd', st, hself', ⟨-, -, hA⟩ | ⟨A', w', rfl, hA, hw⟩⟩ :=
      prev_runs hg hv hT h u hd hself
    · simp at hA
    · obtain ⟨rfl, ha⟩ := List.append_inj' hA rfl
      cases ha
      rw [List.map_append, List.reverse_append]
      refine .more hkey hrun (ih (hd' ▸ hg) ?_ ?_ hw)
      · rw [hself']
        exact hv
      · rw [hself', hd']
        exact hT.setCursor st

/-- One step and the step back lead to the same stack. -/
theorem Between.next_prev (hg : s.pager.disk.Good) (hv : s.self.config.Valid)
    (hT : Planted s.pager.disk s.self t) (h : Between s.self t A v B) {u : BTreeState}
    (hu : next s = .ok true u) :
    Returns prev u (fun ok w => ok = true ∧ w.self.cursor = s.self.cursor) := by
  obtain ⟨ok, u', hrun, hd, st, hself, hcase⟩ := next_runs hg hv hT h s rfl rfl
  rw [hu] at hrun
  cases hrun
  rcases hcase with ⟨hf, -⟩ | ⟨w, B', -, rfl, hw⟩
  · cases hf
  have hT' : Planted u.pager.disk u.self t := by
    rw [hd, hself]
    exact hT.setCursor st
  refine (prev_runs (hd ▸ hg) (by rw [hself]; exact hv) hT' hw u rfl rfl).mono ?_
  rintro ok z ⟨-, st', -, ⟨-, -, hA⟩ | ⟨A', v', hok, hA, hz⟩⟩
  · simp at hA
  · obtain ⟨rfl, hv'⟩ := List.append_inj' hA rfl
    cases hv'
    exact ⟨hok, hz.unique hT h⟩

theorem Between.prev_next (hg : s.pager.disk.Good) (hv : s.self.config.Valid)
    (hT : Planted s.pager.disk s.self t) (h : Between s.self t A v B) {u : BTreeState}
    (hu : prev s = .ok true u) :
    Returns next u (fun ok w => ok = true ∧ w.self.cursor = s.self.cursor) := by
  obtain ⟨ok, u', hrun, hd, st, hself, hcase⟩ := prev_runs hg hv hT h s rfl rfl
  rw [hu] at hrun
  cases hrun
  rcases hcase with ⟨hf, -⟩ | ⟨A', w, -, rfl, hw⟩
  · cases hf
  have hT' : Planted u.pager.disk u.self t := by
    rw [hd, hself]
    exact hT.setCursor st
  refine (next_runs (hd ▸ hg) (by rw [hself]; exact hv) hT' hw u rfl rfl).mono ?_
  rintro ok z ⟨-, st', -, ⟨-, -, hB⟩ | ⟨v', B', hok, hB, hz⟩⟩
  · cases hB
  · cases hB
    exact ⟨hok, hz.unique hT h⟩

/-- From the first key `next` reads all keys in order, from the last key `prev` reads them back, and
from any key either undoes the other. -/
theorem walk_ordered (hg : s.pager.disk.Good) (hv : s.self.config.Valid)
    (hw : WellFormed s.pager.disk s.self t) (hne : storedKeys t ≠ []) :
    (storedKeys t).Pairwise (· < ·) ∧
    Returns moveToFirst s (fun _ u => Visits next u (storedKeys t)) ∧
    (∀ k, (storedKeys t).getLast? = some k → StandsOn s.self t k →
      Visits prev s (storedKeys t).reverse) ∧
    ∀ k, StandsOn s.self t k →
      (∀ u, next s = .ok true u →
        Returns prev u (fun ok w => ok = true ∧ w.self.cursor = s.self.cursor)) ∧
      ∀ u, prev s = .ok true u →
        Returns next u (fun ok w => ok = true ∧ w.self.cursor = s.self.cursor) := by
  have hT := wellFormed_iff.mp hw
  have hsorted := hT.ordered.keySorted_entries
  refine ⟨List.pairwise_map.mpr hsorted, ?_, ?_, ?_⟩
  · have hcells : entries t.spine ≠ [] := by
      intro h
      exact hne (by rw [storedKeys, h]; rfl)
    obtain ⟨v, B, he⟩ := List.exists_cons_of_ne_nil hcells
    refine (moveToFirst_runs hg hv hT he s rfl rfl).mono ?_
    rintro _ u ⟨hd, st, hself, hbet⟩
    have hT' : Planted u.pager.disk u.self t := by
      rw [hd, hself]
      exact hT.setCursor st
    rw [storedKeys, he]
    exact hbet.visits_next (hd ▸ hg) (by rw [hself]; exact hv) hT'
  · intro k hk hon
    obtain ⟨A, v, B, rfl, hbet⟩ := hon.between
    have he := hbet.entries_eq
    have hB : B = [] := by
      rcases List.eq_nil_or_concat' B with hB | ⟨B', b, rfl⟩
      · exact hB
      rw [storedKeys, he, ← List.cons_append, ← List.append_assoc, List.map_append, List.map_cons,
        List.map_nil, List.getLast?_concat] at hk
      rw [he] at hsorted
      have hlt := (hsorted.around).2 b (by simp)
      exact absurd (Option.some.inj hk) hlt.ne'
    subst hB
    rw [storedKeys, he]
    exact hbet.visits_prev hg hv hT
  · intro k hon
    obtain ⟨A, v, B, -, hbet⟩ := hon.between
    exact ⟨fun u hu => hbet.next_prev hg hv hT hu, fun u hu => hbet.prev_next hg hv hT hu⟩

end Walk

theorem walk_ordered_narrow :
    letI : Build := ⟨false⟩
    Returns moveToFirst narrowState (fun _ u => Visits next u [1, 2]) := by
  let _ : Build := ⟨false⟩
  exact (walk_ordered narrow_good narrow_valid narrow_wellFormed (by decide)).2.1

end Cpplite
