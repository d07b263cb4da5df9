import Cpplite.BTree.ParentSpec

/-!
Neighbouring children. Borrowing and merging work on two children with a separator
between them; this is how the code finds such a pair, and what a change of the pair
does to the tree around it.
-/
namespace Cpplite

open Exec Search Linked HeightTree

section Lookup

variable {n : Nat} {d : Disk} {cur : BTreeCursor} {f g : BTreeFrame n} {x y : Nat}
  {t u : BTree n} {k : DefaultPagerKey}

/-- The manager of a node page with the pair `x`, `k`, `y` in the frame. -/
def pairManager (f : BTreeFrame n) (x : Nat) (k : DefaultPagerKey) (y : Nat) : NodePageManager :=
  nodeManager f.id (preCells f ++ ⟨k, x⟩ :: (restCells f y).1) (restCells f y).2

theorem pageCells_plug : pageCells (f.plug t).cells = preCells f ++ (restCells f t.id).1 := by
  cases f <;> simp [pageCells, Frame.plug, preCells, restCells, Frame.pre]

theorem right_plug : (f.plug t).right.id = (restCells f t.id).2 := by
  cases f <;> rfl

theorem frameManager_eq (h : g.plug t = f.plug₂ u k t) (hid : f.id = g.id) :
    frameManager g t.id = pairManager f u.id k t.id := by
  rw [frameManager, pairManager, ← pageCells_plug, ← right_plug, h, hid, pageCells_plug₂, right_plug₂]

theorem frameManager_eq' (h : g.plug t = f.plug₂ t k u) (hid : f.id = g.id) :
    frameManager g t.id = pairManager f t.id k u.id := by
  rw [frameManager, pairManager, ← pageCells_plug, ← right_plug, h, hid, pageCells_plug₂, right_plug₂]

/-- The page number of a sibling, `NULL_PAGE` for none. -/
def idOf (o : Option (BTree n)) : Nat := (o.map Tree.id).getD nullPage

theorem leftSiblingOf_steps :
    Steps (leftSiblingOf (frameManager f x) f.pre.length) d cur (idOf f.left?) d cur := by
  unfold leftSiblingOf
  cases hl : f.left? with
  | none =>
    have hpre : f.pre = [] := by simpa [Frame.left?] using hl
    refine Runs.ite_neg (by simp [hpre]) ?_
    exact steps_pure
  | some u =>
    obtain ⟨⟨k, u'⟩, hk, rfl⟩ := Option.map_eq_some_iff.mp hl
    obtain ⟨as, has⟩ := List.getLast?_eq_some_iff.mp hk
    refine Runs.ite_pos (by simp [has]) ?_
    refine (steps_index (a := ⟨k, u'.id⟩) ?_).then (Runs.pure ⟨rfl, rfl, rfl⟩)
    simp only [frameManager, nodeManager, preCells, has]
    rw [List.getElem?_append_left (by simp)]
    simp

theorem rightSiblingOf_steps :
    Steps (rightSiblingOf (frameManager f x) f.pre.length) d cur (idOf f.right?) d cur := by
  unfold rightSiblingOf
  cases f with
  | last p as =>
    refine Runs.ite_neg (by simp [frameManager, nodeManager, restCells]) ?_
    refine Runs.ite_neg (by simp [frameManager, nodeManager, restCells]) ?_
    exact steps_pure
  | mid p as k' bs r =>
    cases bs with
    | nil =>
      refine Runs.ite_neg (by simp [frameManager, nodeManager, restCells]) ?_
      refine Runs.ite_pos (by simp [frameManager, nodeManager, restCells]) ?_
      exact steps_pure
    | cons b bs =>
      refine Runs.ite_pos (by simp [frameManager, nodeManager, restCells]) ?_
      refine (steps_index (a := ⟨b.1, b.2.id⟩) ?_).then (Runs.pure ⟨rfl, rfl, rfl⟩)
      simp only [frameManager, nodeManager, restCells]
      rw [List.getElem?_append_right (by simp)]
      simp

theorem mergePair_first :
    Steps (mergePair (pairManager f x k y) f.pre.length x) d cur (⟨k, x⟩, x, y) d cur := by
  unfold mergePair
  have hcell : (pairManager f x k y).cells[f.pre.length]? = some ⟨k, x⟩ := by
    simp only [pairManager, nodeManager]
    rw [List.getElem?_append_right (by simp)]
    simp
  refine Runs.ite_neg (by simp [pairManager, nodeManager]) ?_
  refine (steps_index hcell).then ?_
  cases f with
  | last p as =>
    refine Runs.ite_pos (by simp [pairManager, nodeManager, restCells]) ?_
    exact steps_pure
  | mid p as k' bs r =>
    refine Runs.ite_neg (by simp [pairManager, nodeManager, restCells]) ?_
    refine (steps_index (a := ⟨k', y⟩) ?_).then (Runs.pure ⟨rfl, rfl, rfl⟩)
    simp only [pairManager, nodeManager, restCells]
    rw [List.getElem?_append_right (by simp)]
    simp

theorem mergePair_last {p : Nat} {as : List (DefaultPagerKey × BTree n)} :
    Steps (mergePair (pairManager (.last p as) x k y) (as.length + 1) y) d cur (⟨k, x⟩, x, y) d
      cur := by
  unfold mergePair
  refine Runs.ite_pos (by simp [pairManager, nodeManager, restCells, Frame.pre]) ?_
  refine (steps_index (a := ⟨k, x⟩) ?_).then (Runs.pure ⟨rfl, rfl, rfl⟩)
  simp only [pairManager, nodeManager, restCells]
  rw [List.getElem?_append_right (by simp [Frame.pre])]
  simp [Frame.pre]

end Lookup

section Tree

variable {m n : Nat} {d d' : Disk} {up : BTreeCtx m (n + 1)} {f : BTreeFrame n}
  {t u t' u' : BTree n} {k k' : DefaultPagerKey}

theorem ids_pair {c : BTreeCtx m (n + 1)} : (c.plug (f.plug₂ t k u)).ids.Perm
    (f.id :: (c.ids ++ f.siblings.flatMap Tree.ids ++ (t.ids ++ u.ids))) := by
  refine (Ctx.ids_plug c _).trans ?_
  have hid : Tree.id (n := n + 1) (f.plug₂ t k u) = f.id := Frame.plug₂_id
  have hk := (Frame.kids_plug₂ (f := f) (t := t) (k := k) (u := u)).flatMap_right Tree.ids
  rw [Tree.ids_node, hid]
  rw [List.perm_iff_count] at hk ⊢
  intro a
  have := hk a
  simp only [List.flatMap_cons, List.count_append, List.count_cons] at this ⊢
  omega

theorem ids_hole {c : BTreeCtx m (n + 1)} : (c.plug (f.plug u)).ids.Perm
    (f.id :: (c.ids ++ f.siblings.flatMap Tree.ids ++ u.ids)) := by
  refine (Ctx.ids_plug c _).trans ?_
  have hid : Tree.id (n := n + 1) (f.plug u) = f.id := Frame.plug_id
  have hk := (Frame.kids_plug (f := f) (t := u)).flatMap_right Tree.ids
  rw [Tree.ids_node, hid]
  rw [List.perm_iff_count] at hk ⊢
  intro a
  have := hk a
  simp only [List.flatMap_cons, List.count_append, List.count_cons] at this ⊢
  omega

/-- The pages of a pair are apart from the frame's page and from everything around it. -/
theorem pair_disjoint (hnd : (up.plug (f.plug₂ t k u)).ids.Nodup) :
    f.id ∉ up.ids ∧ (∀ v ∈ f.siblings, f.id ∉ v.ids) ∧ f.id ∉ t.ids ∧ f.id ∉ u.ids ∧
      (∀ q, q ∈ t.ids ∨ q ∈ u.ids → q ∉ up.ids ∧ ∀ v ∈ f.siblings, q ∉ v.ids) ∧
      (∀ q ∈ t.ids, q ∉ u.ids) := by
  have h := ids_pair.nodup_iff.mp hnd
  obtain ⟨hf, h⟩ := List.nodup_cons.mp h
  simp only [List.mem_append, List.mem_flatMap, not_or, not_exists, not_and] at hf
  obtain ⟨-, htu, hdis⟩ := List.nodup_append.mp h
  obtain ⟨-, -, htu⟩ := List.nodup_append.mp htu
  refine ⟨hf.1.1, hf.1.2, hf.2.1, hf.2.2, ?_, fun q hq hq' => htu q hq q hq' rfl⟩
  intro q hq
  have hq' : q ∈ t.ids ++ u.ids := List.mem_append.mpr hq
  refine ⟨fun hm => hdis q (List.mem_append_left _ hm) q hq' rfl, fun v hv hm => ?_⟩
  exact hdis q (List.mem_append_right _ (List.mem_flatMap.mpr ⟨v, hv, hm⟩)) q hq' rfl

/-- A new pair in the frame. -/
theorem stored_pair (hs : Stored d (up.plug (f.plug₂ t k u)))
    (hnd : (up.plug (f.plug₂ t k u)).ids.Nodup)
    (hp : d'.page f.id =
      .node (preCells f ++ ⟨k', t'.id⟩ :: (restCells f u'.id).1) (restCells f u'.id).2)
    (ht : Stored d' t') (hu : Stored d' u')
    (hsame : ∀ q, (d.page q).IsTree → q ≠ f.id → q ∉ t.ids → q ∉ u.ids →
      (d'.page q).core = (d.page q).core) :
    Stored d' (up.plug (f.plug₂ t' k' u')) := by
  obtain ⟨hup, hN⟩ := stored_plug.mp hs
  obtain ⟨-, -, -, hsib⟩ := stored_frame₂.mp hN
  obtain ⟨h1, h2, -, -, h5, -⟩ := pair_disjoint hnd
  have hid : Tree.id (n := n + 1) (f.plug₂ t k u) = f.id := Frame.plug₂_id
  have hid' : Tree.id (n := n + 1) (f.plug₂ t' k' u') = f.id := Frame.plug₂_id
  rw [hid] at hup
  rw [stored_plug, hid']
  refine ⟨hup.frame ?_, stored_frame₂.mpr ⟨hp, ht, hu, ?_⟩⟩
  · intro q hq
    exact hsame q (hup.isTree q hq) (by rintro rfl; exact h1 hq) (fun h => (h5 q (.inl h)).1 hq)
      (fun h => (h5 q (.inr h)).1 hq)
  · intro v hv
    refine Stored.frame (hsib v hv) ?_
    intro q hq
    exact hsame q ((hsib v hv).isTree q hq) (by rintro rfl; exact h2 v hv hq) (fun h => (h5 q (.inl h)).2 v hv hq)
      (fun h => (h5 q (.inr h)).2 v hv hq)

/-- One child in the place of the pair. -/
theorem stored_merged (hs : Stored d (up.plug (f.plug₂ t k u)))
    (hnd : (up.plug (f.plug₂ t k u)).ids.Nodup)
    (hp : d'.page f.id = .node (preCells f ++ (restCells f u'.id).1) (restCells f u'.id).2)
    (hu : Stored d' u')
    (hsame : ∀ q, (d.page q).IsTree → q ≠ f.id → q ∉ t.ids → q ∉ u.ids →
      (d'.page q).core = (d.page q).core) :
    Stored d' (up.plug (f.plug u')) := by
  obtain ⟨hup, hN⟩ := stored_plug.mp hs
  obtain ⟨-, -, -, hsib⟩ := stored_frame₂.mp hN
  obtain ⟨h1, h2, -, -, h5, -⟩ := pair_disjoint hnd
  have hid : Tree.id (n := n + 1) (f.plug₂ t k u) = f.id := Frame.plug₂_id
  have hid' : Tree.id (n := n + 1) (f.plug u') = f.id := Frame.plug_id
  rw [hid] at hup
  rw [stored_plug, hid']
  refine ⟨hup.frame ?_, stored_frame.mpr ⟨hp, hu, ?_⟩⟩
  · intro q hq
    exact hsame q (hup.isTree q hq) (by rintro rfl; exact h1 hq) (fun h => (h5 q (.inl h)).1 hq)
      (fun h => (h5 q (.inr h)).1 hq)
  · intro v hv
    refine Stored.frame (hsib v hv) ?_
    intro q hq
    exact hsame q ((hsib v hv).isTree q hq) (by rintro rfl; exact h2 v hv hq) (fun h => (h5 q (.inl h)).2 v hv hq)
      (fun h => (h5 q (.inr h)).2 v hv hq)

end Tree

/-! ### Trees being mended -/

section Mend

variable {m n : Nat} {d d' : Disk} {cur : BTreeCursor}

/-- A node in the hole that may be one cell short. -/
structure Sagging (d : Disk) (cur : BTreeCursor) (c : BTreeCtx m (n + 1)) (t : BTree (n + 1)) : Prop
    extends Hung d cur c t where
  kids_filled : ∀ u ∈ Node.kids t, u.Filled cur.config.bounds
  size_ge : c.lower cur.config.bounds ≤ (Node.cells t).length + 1
  size_le : (Node.cells t).length ≤ cur.config.nodeMaxCells

/-- Two neighbouring children of which no bounds are asked. -/
structure Pair (d : Disk) (cur : BTreeCursor) (up : BTreeCtx m (n + 1)) (f : BTreeFrame n)
    (t : BTree n) (k : DefaultPagerKey) (u : BTree n) : Prop
    extends Hung d cur up (f.plug₂ t k u) where
  size_ge : up.lower cur.config.bounds ≤ f.size + 1
  size_le : f.size + 1 ≤ cur.config.nodeMaxCells
  siblings : ∀ v ∈ f.siblings, v.Filled cur.config.bounds

theorem Sagging.setCursor {c : BTreeCtx m (n + 1)} {t : BTree (n + 1)} (h : Sagging d cur c t)
    (st : BTreeCursorStack) : Sagging d { cur with cursor := st } c t :=
  ⟨h.toHung.setCursor st, h.kids_filled, h.size_ge, h.size_le⟩

/-- Nothing short: the tree is finished as it stands. -/
theorem Sagging.settled {c : BTreeCtx m (n + 1)} {t : BTree (n + 1)} (h : Sagging d cur c t)
    (hsz : c.lower cur.config.bounds ≤ (Node.cells t).length) :
    Rebuilt d d cur cur (c.plug t).ids (c.plug t).spine (c.plug t) where
  root_eq := h.root_eq
  config_eq := rfl
  stored := h.stored
  nodup := h.nodup
  ids_mem _ hp := .inl hp
  spine_eq := rfl
  filled := (Ctx.rootFilled_plug c t).mpr
    ⟨h.ctx_filled, Ctx.holeFilled_node.mpr ⟨hsz, h.size_le, h.kids_filled⟩⟩
  evolves := .refl h.good
  leaves _ _ _ _ hp := hp

variable {up : BTreeCtx m (n + 1)} {f f₀ : BTreeFrame n} {t u t' u' : BTree n}
  {k k' : DefaultPagerKey}

/-- The child in the hole and its left neighbour. -/
theorem Hung.left_pair (h : Hung d cur (.step f₀ up) t) (hl : f₀.left? = some u) :
    ∃ (f : BTreeFrame n) (k : DefaultPagerKey), (∀ x, f₀.plug x = f.plug₂ u k x) ∧ f.id = f₀.id ∧
      f.pre.length + 1 = f₀.pre.length ∧ f.size + 1 = f₀.size ∧ Pair d cur up f u k t ∧
      u.Filled cur.config.bounds := by
  obtain ⟨f, k, hplug, hsib, hid, hpre, hsize⟩ := Frame.left_pair hl
  obtain ⟨hge, hle, hfill, hup⟩ := h.ctx_filled
  have hsub : ∀ v, v ∈ f₀.siblings ↔ v ∈ u :: f.siblings := fun v => hsib.mem_iff
  have hctx : (Ctx.step f₀ up).plug t = up.plug (f.plug₂ u k t) := by rw [Ctx.plug, hplug]
  refine ⟨f, k, hplug, hid, hpre, hsize, ⟨⟨h.good, ?_, ?_, ?_, ?_, hup⟩, ?_, ?_, ?_⟩, ?_⟩
  · rw [← hctx]
    exact h.root_eq
  · rw [← hctx]
    exact h.stored
  · rw [← hctx]
    exact h.nodup
  · rw [← hctx]
    exact h.ordered
  · rw [hsize]
    exact hge
  · rw [hsize]
    exact hle
  · exact fun v hv => hfill v ((hsub v).mpr (List.mem_cons_of_mem _ hv))
  · exact hfill u ((hsub u).mpr List.mem_cons_self)

/-- The child in the hole and its right neighbour. -/
theorem Hung.right_pair (h : Hung d cur (.step f₀ up) t) (hr : f₀.right? = some u) :
    ∃ (f : BTreeFrame n) (k : DefaultPagerKey), (∀ x, f₀.plug x = f.plug₂ x k u) ∧ f.id = f₀.id ∧
      f.pre.length = f₀.pre.length ∧ f.size + 1 = f₀.size ∧ Pair d cur up f t k u ∧
      u.Filled cur.config.bounds := by
  obtain ⟨f, k, hplug, hsib, hid, hpre, hsize⟩ := Frame.right_pair hr
  obtain ⟨hge, hle, hfill, hup⟩ := h.ctx_filled
  have hsub : ∀ v, v ∈ f₀.siblings ↔ v ∈ u :: f.siblings := fun v => hsib.mem_iff
  have hctx : (Ctx.step f₀ up).plug t = up.plug (f.plug₂ t k u) := by rw [Ctx.plug, hplug]
  refine ⟨f, k, hplug, hid, hpre, hsize, ⟨⟨h.good, ?_, ?_, ?_, ?_, hup⟩, ?_, ?_, ?_⟩, ?_⟩
  · rw [← hctx]
    exact h.root_eq
  · rw [← hctx]
    exact h.stored
  · rw [← hctx]
    exact h.nodup
  · rw [← hctx]
    exact h.ordered
  · rw [hsize]
    exact hge
  · rw [hsize]
    exact hle
  · exact fun v hv => hfill v ((hsub v).mpr (List.mem_cons_of_mem _ hv))
  · exact hfill u ((hsub u).mpr List.mem_cons_self)

/-- The parent's separators around the pair. -/
theorem Pair.around (h : Pair d cur up f t k u) :
    (∀ a ∈ preCells f, a.key < k) ∧ (∀ b ∈ (restCells f u.id).1, k < b.key) := by
  have ho := h.ordered
  rw [Ctx.spine_plug] at ho
  have hs := Node.keySorted_of_ordered (ho.sublist
    ((List.sublist_append_right _ _).trans (List.sublist_append_left _ _)))
  have hs := keySorted_pageCells.mpr hs
  rw [pageCells_plug₂] at hs
  exact hs.around

/-- A new pair within bounds finishes the tree. -/
theorem Pair.rotate {v w : BTree n} (h : Pair d cur up f t k u) (hg : d'.Good)
    (hp : d'.page f.id =
      .node (preCells f ++ ⟨k', v.id⟩ :: (restCells f w.id).1) (restCells f w.id).2)
    (ht : Stored d' v) (hu : Stored d' w)
    (hsame : ∀ q, (d.page q).IsTree → q ≠ f.id → q ∉ t.ids → q ∉ u.ids →
      (d'.page q).core = (d.page q).core)
    (hids : (v.ids ++ w.ids).Perm (t.ids ++ u.ids)) (hft : v.Filled cur.config.bounds)
    (hfu : w.Filled cur.config.bounds) :
    Rebuilt d' d' cur cur (up.plug (f.plug₂ t k u)).ids (up.plug (f.plug₂ v k' w)).spine
      (up.plug (f.plug₂ v k' w)) := by
  have hid : Tree.id (n := n + 1) (f.plug₂ t k u) = f.id := Frame.plug₂_id
  have hid' : Tree.id (n := n + 1) (f.plug₂ v k' w) = f.id := Frame.plug₂_id
  have hperm : (up.plug (f.plug₂ v k' w)).ids.Perm (up.plug (f.plug₂ t k u)).ids :=
    ids_pair.trans (((List.Perm.append_left _ hids).cons _).trans ids_pair.symm)
  refine ⟨?_, rfl, stored_pair h.stored h.nodup hp ht hu hsame, hperm.nodup_iff.mpr h.nodup,
    fun q hq => .inl (hperm.mem_iff.mp hq), rfl, ?_, .refl hg, fun _ _ _ _ hq => hq⟩
  · rw [← h.root_eq, Ctx.id_plug, Ctx.id_plug, hid, hid']
  · rw [Ctx.rootFilled_plug, Ctx.holeFilled_node, Frame.forall_kids₂, Frame.length_plug₂_cells]
    exact ⟨h.ctx_filled, h.size_ge, h.size_le, hft, hfu, h.siblings⟩

/-- One page fewer after a merge. -/
theorem ids_merged {w : BTree n} (hids : (t.id :: w.ids).Perm (t.ids ++ u.ids)) :
    (t.id :: (up.plug (f.plug w)).ids).Perm (up.plug (f.plug₂ t k u)).ids := by
  have h1 := ids_hole (c := up) (f := f) (u := w)
  have h2 := ids_pair (c := up) (f := f) (t := t) (k := k) (u := u)
  rw [List.perm_iff_count] at *
  intro a
  have h1 := h1 a
  have h2 := h2 a
  have h3 := hids a
  simp only [List.count_append, List.count_cons] at h1 h2 h3 ⊢
  omega

/-- One child in the place of the pair: the parent has lost a cell. -/
theorem Pair.merge (h : Pair d cur up f t k u) (hg : d'.Good)
    (hp : d'.page f.id = .node (preCells f ++ (restCells f u'.id).1) (restCells f u'.id).2)
    (hu : Stored d' u')
    (hsame : ∀ q, (d.page q).IsTree → q ≠ f.id → q ∉ t.ids → q ∉ u.ids →
      (d'.page q).core = (d.page q).core)
    (hids : (t.id :: u'.ids).Perm (t.ids ++ u.ids)) (hfu : u'.Filled cur.config.bounds)
    (ho : Ordered LeafCell.key (up.plug (f.plug u')).spine) : Sagging d' cur up (f.plug u') := by
  have hid : Tree.id (n := n + 1) (f.plug₂ t k u) = f.id := Frame.plug₂_id
  have hid' : Tree.id (n := n + 1) (f.plug u') = f.id := Frame.plug_id
  have hnd := (ids_merged (f := f) (k := k) hids).nodup_iff.mpr h.nodup
  refine ⟨⟨hg, ?_, stored_merged h.stored h.nodup hp hu hsame, (List.nodup_cons.mp hnd).2, ho,
    h.ctx_filled⟩, ?_, ?_, ?_⟩
  · rw [← h.root_eq, Ctx.id_plug, Ctx.id_plug, hid, hid']
  · exact Frame.forall_kids.mpr ⟨hfu, h.siblings⟩
  · rw [Frame.length_plug_cells]
    exact h.size_ge
  · rw [Frame.length_plug_cells]
    exact (Nat.le_succ _).trans h.size_le

end Mend

end Cpplite
