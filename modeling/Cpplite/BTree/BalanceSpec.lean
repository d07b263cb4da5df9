import Cpplite.BTree.RotateSpec

/-!
`balance_node`: a node one cell short takes a cell from a sibling through the separator,
or is merged with a sibling, which may leave the parent short in turn. The line of leaves
and separators never changes on the way up.
-/
namespace Cpplite

open Exec Search Linked HeightTree

section Climb

variable {m n : Nat} {d d' : Disk} {cur cur' : BTreeCursor} [Build]

/-- A root with a single child gives way to it. -/
theorem collapse_runs {f : BTreeFrame n} {up : BTreeCtx m (n + 1)} {u : BTree n}
    (hv : cur.config.Valid) (h : Sagging d cur up (f.plug u)) (hroot : f.id = cur.rootPgno)
    (hsz : f.size = 0) :
    Runs (do insertFreelist cur.rootPgno; setRootPgno u.id) d cur (fun _ d' cur' =>
      Rebuilt d d' cur cur' (up.plug (f.plug u)).ids (up.plug (f.plug u)).spine u) := by
  obtain ⟨hd, h1⟩ := h.good.sound.first
  have hid : Tree.id (n := n + 1) (f.plug u) = f.id := Frame.plug_id
  have htop := h.toHung.root_iff.mp (hid.trans hroot)
  cases up with
  | step g up => cases htop
  | top =>
    obtain ⟨p, rfl⟩ : ∃ p, f = .last p [] := by
      cases f with
      | last p as => exact ⟨p, by rw [List.length_eq_zero_iff.mp hsz]⟩
      | mid p as k bs r => simp [Frame.size] at hsz
    obtain ⟨hpage, hsu, -⟩ := stored_frame.mp h.stored
    have hnd : (p :: u.ids).Nodup := by
      have := ids_hole (c := .top) (f := .last p []) (u := u)
      exact (this.nodup_iff.mp h.nodup)
    have hpt : (d.page p).IsTree := by rw [show p = (Frame.last p []).id from rfl, hpage]; trivial
    rw [← hroot]
    change Runs (do insertFreelist p; setRootPgno u.id) _ _ _
    refine (steps_insertFreelist h1 (h.good.ne_one hpt) hpt.inUse.1).then ?_
    refine Runs.mono steps_setRootPgno ?_
    rintro _ d' cur' ⟨-, rfl, rfl⟩
    change Rebuilt d (d.free p hd) _ _ _ _ _
    have hsame : ∀ q, (d.page q).IsTree → q ≠ p → (d.free p hd).page q = d.page q :=
      fun q hq hne => Disk.free_page_of_ne (h.good.ne_one hq) hne
    have hfu := h.kids_filled u (by simp [Node.kids, Frame.plug])
    refine ⟨rfl, rfl, ?_, (List.nodup_cons.mp hnd).2, ?_, ?_, ?_, ?_, ?_⟩
    · refine Stored.frame hsu (fun q hq => ?_)
      rw [hsame q (Stored.isTree hsu q hq)]
      rintro rfl
      exact (List.nodup_cons.mp hnd).1 hq
    · intro q hq
      refine .inl ((ids_hole (f := .last p []) (u := u)).mem_iff.mpr ?_)
      simp [hq]
    · rw [Ctx.plug, Frame.spine_plug]
      simp [Frame.spineL, Frame.spineR, Frame.foldL, Frame.foldR, Frame.pre]
    · exact hfu.rootFilled hv.node_min
    · refine .free h.good h1 hpt ((ids_hole (f := .last p []) (u := u)).mem_iff.mpr ?_)
      exact List.mem_cons_self
    · intro q cells a b hq
      rw [hsame q (by rw [hq]; trivial), hq]
      rintro rfl
      rw [show q = (Frame.last q []).id from rfl, hpage] at hq
      cases hq

omit [Build] in
/-- The pages of a pair and of its parent are three. -/
theorem Pair.apart {f : BTreeFrame n} {up : BTreeCtx m (n + 1)} {t u : BTree n} {k : DefaultPagerKey}
    (h : Pair d cur up f t k u) : f.id ≠ t.id ∧ f.id ≠ u.id ∧ t.id ≠ u.id := by
  obtain ⟨-, -, hft, hfu, -, htu⟩ := pair_disjoint h.nodup
  refine ⟨?_, ?_, ?_⟩
  · intro he
    exact hft (he ▸ t.id_mem_ids)
  · intro he
    exact hfu (he ▸ u.id_mem_ids)
  · intro he
    exact htu _ t.id_mem_ids (he ▸ u.id_mem_ids)

omit [Build] in
/-- Writing the three pages of a pair is work on the tree's own pages. -/
theorem Pair.evolves {f : BTreeFrame n} {up : BTreeCtx m (n + 1)} {t u : BTree n}
    {k : DefaultPagerKey} {a b c : Nat} {la lb lc : LogicalPage} (h : Pair d cur up f t k u)
    (habc : [a, b, c].Perm [f.id, t.id, u.id]) :
    d.Evolves (((d.set a la).set b lb).set c lc) (up.plug (f.plug₂ t k u)).ids := by
  have hmem := fun x => (ids_pair (c := up) (f := f) (t := t) (k := k) (u := u)).mem_iff (a := x)
  obtain ⟨hft, hfu, htu⟩ := h.apart
  have hnd : [a, b, c].Nodup := habc.nodup_iff.mpr (by simp [hft, hfu, htu])
  simp only [List.nodup_cons, List.mem_cons, List.not_mem_nil, or_false, not_or] at hnd
  obtain ⟨⟨hab, hac⟩, hbc, -⟩ := hnd
  have hin : ∀ x ∈ [a, b, c], x ∈ (up.plug (f.plug₂ t k u)).ids := by
    intro x hx
    have hx := habc.mem_iff.mp hx
    simp only [List.mem_cons, List.not_mem_nil, or_false] at hx
    rw [hmem]
    rcases hx with rfl | rfl | rfl
    · exact List.mem_cons_self
    · exact List.mem_cons_of_mem _ (List.mem_append_right _ (List.mem_append_left _ t.id_mem_ids))
    · exact List.mem_cons_of_mem _ (List.mem_append_right _ (List.mem_append_right _ u.id_mem_ids))
  have ha := hin a (by simp)
  have hb := hin b (by simp)
  have hc := hin c (by simp)
  have htree := h.stored.isTree
  have e1 := Disk.Evolves.set (l := la) h.good (htree a ha) ha
  have e2 := e1.set_more (l := lb) h.good (by
    rw [Disk.set_page_of_ne (Ne.symm hab)]
    exact htree b hb) hb
  refine e2.set_more h.good ?_ hc
  rw [Disk.set_page_of_ne (Ne.symm hbc), Disk.set_page_of_ne (Ne.symm hac)]
  exact htree c hc

section Rotate

variable {f : BTreeFrame (n + 1)} {up : BTreeCtx m (n + 2)} {ts us : List (DefaultPagerKey × BTree n)}
  {x : DefaultPagerKey × BTree n} {k : DefaultPagerKey} {v r : BTree n} {p q : Nat}

theorem Pair.borrow_left (hv : cur.config.Valid)
    (h : Pair (n := n + 1) d cur up f ⟨p, ts ++ [x], v⟩ k ⟨q, us, r⟩)
    (hkids : ∀ w ∈ (⟨p, ts ++ [x] ++ (k, v) :: us, r⟩ : BTreeNode n).kids,
      w.Filled cur.config.bounds)
    (hts : cur.config.nodeMinCells < ts.length + 1 ∧ ts.length + 1 ≤ cur.config.nodeMaxCells)
    (hus : us.length + 1 = cur.config.nodeMinCells) :
    Runs (borrowNodeSiblingCell q p (f.id, f.pre.length) true) d cur (fun b d' cur' => b = true ∧
      ∃ t' : BTree m, Rebuilt d d' cur cur'
        (up.plug (f.plug₂ (⟨p, ts ++ [x], v⟩ : BTreeNode n) k ⟨q, us, r⟩)).ids
        (up.plug (f.plug₂ (⟨p, ts ++ [x], v⟩ : BTreeNode n) k ⟨q, us, r⟩)).spine t') := by
  obtain ⟨hpf, hst, hsu, -⟩ := stored_frame₂.mp (stored_plug.mp h.stored).2
  replace hpf : d.page f.id = .node (preCells f ++ ⟨k, p⟩ :: (restCells f q).1) (restCells f q).2 :=
    hpf
  have hpp : d.page p = .node (pageCells ts ++ [⟨x.1, x.2.id⟩]) v.id := by
    have := isNode_map.mp hst.1
    simpa [pageCells] using this
  have hpq : d.page q = .node (pageCells us) r.id := isNode_map.mp hsu.1
  obtain ⟨hfp, hfq, hpq'⟩ : f.id ≠ p ∧ f.id ≠ q ∧ p ≠ q := h.apart
  have hline := keySorted_pageCells.mpr (h.line (s := (k, v)))
  have hk : (∀ a ∈ pageCells ts, a.key < x.1) ∧ (∀ b ∈ pageCells us, k < b.key) := by
    simp only [pageCells, List.map_append, List.map_cons] at hline ⊢
    exact ⟨(KeySorted.around (hline.sublist (List.sublist_append_left _ _))).1, hline.around.2⟩
  obtain ⟨hlo, hhi⟩ := h.around
  have hsplit := hv.node_split
  have hmax := hv.node_max
  have hrun := borrowNodeSiblingCell_left (d := d) (h.good.ne_zero (by rw [hpp]; simp)) hpf hpp hpq hfp hfq hpq' hlo hhi hk.1 hk.2
    (by simp [pageCells]; omega) (by simpa [pageCells] using hts.1)
  rw [length_preCells] at hrun
  refine Runs.mono hrun ?_
  rintro _ _ _ ⟨rfl, rfl, rfl⟩
  refine ⟨rfl, _, h.recut (s := (k, v)) ts x ((k, v) :: us) (by simp)
    (h.evolves (List.Perm.swap _ _ _)) ?_ ?_ ?_ ?_ hkids ?_ ?_⟩
  · rw [Disk.set_page_of_ne hfq, Disk.set_page_self]
  · rw [Disk.set_page_of_ne hpq', Disk.set_page_of_ne (Ne.symm hfp), Disk.set_page_self]
  · rw [Disk.set_page_self]
    simp [pageCells]
  · intro y _ h1 h2 h3
    rw [Disk.set_page_of_ne h3, Disk.set_page_of_ne h1, Disk.set_page_of_ne h2]
  · omega
  · rw [List.length_cons]
    omega

theorem Pair.borrow_right (hv : cur.config.Valid)
    (h : Pair (n := n + 1) d cur up f ⟨p, ts, v⟩ k ⟨q, x :: us, r⟩)
    (hkids : ∀ w ∈ (⟨p, ts ++ (k, v) :: x :: us, r⟩ : BTreeNode n).kids, w.Filled cur.config.bounds)
    (hts : ts.length + 1 = cur.config.nodeMinCells)
    (hus : cur.config.nodeMinCells < us.length + 1 ∧ us.length + 1 ≤ cur.config.nodeMaxCells) :
    Runs (borrowNodeSiblingCell p q (f.id, f.pre.length + 1) false) d cur (fun b d' cur' =>
      b = true ∧ ∃ t' : BTree m, Rebuilt d d' cur cur'
        (up.plug (f.plug₂ (⟨p, ts, v⟩ : BTreeNode n) k ⟨q, x :: us, r⟩)).ids
        (up.plug (f.plug₂ (⟨p, ts, v⟩ : BTreeNode n) k ⟨q, x :: us, r⟩)).spine t') := by
  obtain ⟨hpf, hst, hsu, -⟩ := stored_frame₂.mp (stored_plug.mp h.stored).2
  replace hpf : d.page f.id = .node (preCells f ++ ⟨k, p⟩ :: (restCells f q).1) (restCells f q).2 :=
    hpf
  have hpp : d.page p = .node (pageCells ts) v.id := isNode_map.mp hst.1
  have hpq : d.page q = .node (⟨x.1, x.2.id⟩ :: pageCells us) r.id := isNode_map.mp hsu.1
  obtain ⟨hfp, hfq, hpq'⟩ : f.id ≠ p ∧ f.id ≠ q ∧ p ≠ q := h.apart
  have hline := keySorted_pageCells.mpr (h.line (s := (k, v)))
  have hk : (∀ a ∈ pageCells ts, a.key < k) ∧ (∀ b ∈ pageCells us, x.1 < b.key) := by
    simp only [pageCells, List.map_append, List.map_cons] at hline ⊢
    refine ⟨hline.around.1, ?_⟩
    have htail := (List.pairwise_append.mp hline).2.1
    exact (List.pairwise_cons.mp (List.pairwise_cons.mp htail).2).1
  obtain ⟨hlo, hhi⟩ := h.around
  have hsplit := hv.node_split
  have hmax := hv.node_max
  have hrun := borrowNodeSiblingCell_right (d := d) (h.good.ne_zero (by rw [hpq]; simp)) hpf hpp hpq hfp hfq hpq' hlo hhi hk.1 hk.2
    (by simp [pageCells]; omega) (by simpa [pageCells] using hus.1)
  rw [length_preCells] at hrun
  refine Runs.mono hrun ?_
  rintro _ _ _ ⟨rfl, rfl, rfl⟩
  refine ⟨rfl, _, h.recut (s := (k, v)) (ts ++ [(k, v)]) x us (by simp)
    (h.evolves (show List.Perm ([q] ++ _) _ from List.perm_append_comm)) ?_ ?_ ?_ ?_ hkids ?_ ?_⟩
  · rw [Disk.set_page_of_ne hfp, Disk.set_page_self]
  · rw [Disk.set_page_self]
    simp [pageCells]
  · rw [Disk.set_page_of_ne (Ne.symm hpq'), Disk.set_page_of_ne (Ne.symm hfq), Disk.set_page_self]
  · intro y _ h1 h2 h3
    rw [Disk.set_page_of_ne h2, Disk.set_page_of_ne h1, Disk.set_page_of_ne h3]
  · rw [List.length_append, List.length_singleton]
    omega
  · omega

end Rotate

section Borrow

variable {f₀ : BTreeFrame (n + 1)} {up : BTreeCtx m (n + 2)} {t : BTree (n + 1)}

/-- How borrowing ends: the tree is finished, or the sibling on that side has nothing to spare. -/
def Borrowed (d : Disk) (cur : BTreeCursor) (c : BTreeCtx m (n + 1)) (t : BTree (n + 1))
    (sibling : Option (BTree (n + 1))) (b : Bool) (d' : Disk) (cur' : BTreeCursor) : Prop :=
  (b = true ∧ ∃ t' : BTree m, Rebuilt d d' cur cur' (c.plug t).ids (c.plug t).spine t') ∨
    (b = false ∧ d' = d ∧ cur' = cur ∧
      ∀ u, sibling = some u → (Node.cells u).length = cur.config.nodeMinCells)

theorem borrowNodeLeft_runs (hv : cur.config.Valid) (h : Sagging d cur (.step f₀ up) t)
    (hsz : (Node.cells t).length + 1 = cur.config.nodeMinCells) :
    Runs (borrowNodeSiblingCell t.id (idOf f₀.left?) (f₀.id, f₀.pre.length - 1) true) d cur
      (Borrowed d cur (.step f₀ up) t f₀.left?) := by
  cases hl : f₀.left? with
  | none =>
    refine Runs.mono borrowNodeSiblingCell_null ?_
    rintro _ _ _ ⟨rfl, rfl, rfl⟩
    exact .inr ⟨rfl, rfl, rfl, by simp⟩
  | some u =>
    obtain ⟨f, k, hplug, hid, hpre, -, hpair, hfu⟩ := h.toHung.left_pair hl
    obtain ⟨hmin, hmax, hku⟩ := Tree.filled_node.mp hfu
    obtain ⟨-, hst, hsu, -⟩ := stored_frame₂.mp (stored_plug.mp hpair.stored).2
    have hkt := h.kids_filled
    obtain ⟨pu, uc, ur⟩ := u
    obtain ⟨pt, us, r⟩ := t
    have hpu : d.page pu = .node (pageCells uc) ur.id := isNode_map.mp hst.1
    have hpt : d.page pt = .node (pageCells us) r.id := isNode_map.mp hsu.1
    change Runs (borrowNodeSiblingCell pt pu (f₀.id, f₀.pre.length - 1) true) _ _ _
    by_cases heq : uc.length = cur.config.nodeMinCells
    · have hu0 : pu ≠ nullPage := hpair.good.ne_zero (by rw [hpu]; simp)
      refine Runs.mono (borrowNodeSiblingCell_min hu0 hpt hpu (by simpa [pageCells] using heq)) ?_
      rintro _ _ _ ⟨rfl, rfl, rfl⟩
      refine .inr ⟨rfl, rfl, rfl, ?_⟩
      rintro _ ⟨⟩
      exact heq
    obtain ⟨ts, x, rfl⟩ : ∃ ts x, uc = ts ++ [x] := by
      refine (List.eq_nil_or_concat' uc).resolve_left ?_
      rintro rfl
      exact absurd (hv.node_min.trans hmin) (by simp)
    have hkids := List.forall_mem_append.mpr ⟨hku, hkt⟩
    rw [kids_cut (s := (k, ur)) (i := pu)] at hkids
    rw [List.length_append, List.length_singleton] at hmin hmax heq
    rw [show f₀.pre.length - 1 = f.pre.length by omega, ← hid]
    refine (hpair.borrow_left hv hkids ⟨lt_of_le_of_ne hmin (Ne.symm heq), hmax⟩ hsz).mono ?_
    rintro b d' cur' hb
    refine .inl ?_
    rw [Ctx.plug, hplug]
    exact hb

theorem borrowNodeRight_runs (hv : cur.config.Valid) (h : Sagging d cur (.step f₀ up) t)
    (hsz : (Node.cells t).length + 1 = cur.config.nodeMinCells) :
    Runs (borrowNodeSiblingCell t.id (idOf f₀.right?) (f₀.id, f₀.pre.length + 1) false) d cur
      (Borrowed d cur (.step f₀ up) t f₀.right?) := by
  cases hl : f₀.right? with
  | none =>
    refine Runs.mono borrowNodeSiblingCell_null ?_
    rintro _ _ _ ⟨rfl, rfl, rfl⟩
    exact .inr ⟨rfl, rfl, rfl, by simp⟩
  | some u =>
    obtain ⟨f, k, hplug, hid, hpre, -, hpair, hfu⟩ := h.toHung.right_pair hl
    obtain ⟨hmin, hmax, hku⟩ := Tree.filled_node.mp hfu
    obtain ⟨-, hst, hsu, -⟩ := stored_frame₂.mp (stored_plug.mp hpair.stored).2
    have hkt := h.kids_filled
    obtain ⟨pu, uc, ur⟩ := u
    obtain ⟨pt, ts, r⟩ := t
    have hpt : d.page pt = .node (pageCells ts) r.id := isNode_map.mp hst.1
    have hpu : d.page pu = .node (pageCells uc) ur.id := isNode_map.mp hsu.1
    change Runs (borrowNodeSiblingCell pt pu (f₀.id, f₀.pre.length + 1) false) _ _ _
    by_cases heq : uc.length = cur.config.nodeMinCells
    · have hu0 : pu ≠ nullPage := hpair.good.ne_zero (by rw [hpu]; simp)
      refine Runs.mono (borrowNodeSiblingCell_min hu0 hpt hpu (by simpa [pageCells] using heq)) ?_
      rintro _ _ _ ⟨rfl, rfl, rfl⟩
      refine .inr ⟨rfl, rfl, rfl, ?_⟩
      rintro _ ⟨⟩
      exact heq
    obtain ⟨x, us, rfl⟩ : ∃ x us, uc = x :: us := by
      cases uc with
      | nil => exact absurd (hv.node_min.trans hmin) (by simp)
      | cons x us => exact ⟨x, us, rfl⟩
    have hkids := List.forall_mem_append.mpr ⟨hkt, hku⟩
    rw [kids_cut (s := (k, r)) (i := pt)] at hkids
    rw [List.length_cons] at hmin hmax heq
    rw [← hpre, ← hid]
    refine (hpair.borrow_right hv hkids hsz ⟨lt_of_le_of_ne hmin (Ne.symm heq), hmax⟩).mono ?_
    rintro b d' cur' hb
    refine .inl ?_
    rw [Ctx.plug, hplug]
    exact hb

omit [Build] in
/-- A sibling on either side is a node of the tree. -/
theorem Hung.sibling_type {up : BTreeCtx m (n + 2)} (h : Hung d cur (.step f₀ up) t)
    {o : Option (BTree (n + 1))} (hsib : ∀ u, o = some u → u ∈ f₀.siblings) (ho : o ≠ none) :
    (d.page (idOf o)).type? = some .nodePage := by
  obtain ⟨u, rfl⟩ := Option.ne_none_iff_exists'.mp ho
  obtain ⟨-, -, hs⟩ := stored_frame.mp (stored_plug (c := up).mp h.stored).2
  have hu := isNode_map.mp (hs u (hsib u rfl)).1
  change (d.page (Node.id u)).type? = _
  rw [hu]
  rfl

theorem borrowFromNodeSibling_runs (hv : cur.config.Valid) (h : Sagging d cur (.step f₀ up) t)
    (hsz : (Node.cells t).length + 1 = cur.config.nodeMinCells) :
    Runs (borrowFromNodeSibling (f₀.id, f₀.pre.length) t.id) d cur (fun b d' cur' =>
      (b = true ∧ ∃ t' : BTree m, Rebuilt d d' cur cur' ((Ctx.step f₀ up).plug t).ids
        ((Ctx.step f₀ up).plug t).spine t') ∨
      (b = false ∧ d' = d ∧ cur' = cur ∧ ∀ u, f₀.left? = some u ∨ f₀.right? = some u →
        (Node.cells u).length = cur.config.nodeMinCells)) := by
  obtain ⟨hpage, -, -⟩ := stored_frame.mp (stored_plug (c := up).mp h.stored).2
  have hlen : (preCells f₀ ++ (restCells f₀ t.id).1).length = f₀.size := length_cells
  unfold borrowFromNodeSibling
  refine (steps_assertPageType (by simp [hpage, LogicalPage.type?])).then ?_
  refine (steps_loadNode hpage).then ?_
  refine (steps_assert (.inr rfl)).then ?_
  refine (steps_assert (.inr (by simp [nodeManager, hlen, Frame.pre_length_le]))).then ?_
  refine leftSiblingOf_steps.then ?_
  refine Runs.bind (P := fun _ d' c' => d' = d ∧ c' = cur) (Runs.when ?_ ?_) ?_
  · intro hpos
    refine Runs.mono (steps_assertPageType ?_) (fun _ _ _ hs => hs.2)
    exact h.toHung.sibling_type (fun u => Frame.left_mem) (Frame.left_ne_none hpos)
  · intro _
    exact ⟨rfl, rfl⟩
  rintro _ d cur ⟨rfl, rfl⟩
  refine rightSiblingOf_steps.then ?_
  refine Runs.bind (P := fun _ d' c' => d' = d ∧ c' = cur) (Runs.when ?_ ?_) ?_
  · intro hpos
    refine Runs.mono (steps_assertPageType ?_) (fun _ _ _ hs => hs.2)
    refine h.toHung.sibling_type (fun u => Frame.right_mem) (Frame.right_ne_none ?_)
    rw [← hlen]
    exact hpos
  · intro _
    exact ⟨rfl, rfl⟩
  rintro _ d cur ⟨rfl, rfl⟩
  refine (borrowNodeLeft_runs hv h hsz).bind ?_
  rintro b d' cur' (⟨rfl, hdone⟩ | ⟨rfl, rfl, rfl, hleft⟩)
  · exact Runs.ite_pos rfl (Runs.pure (.inl ⟨rfl, hdone⟩))
  · refine Runs.ite_neg (by decide) ?_
    refine (borrowNodeRight_runs hv h hsz).mono ?_
    rintro b d' cur' (⟨rfl, hdone⟩ | ⟨rfl, rfl, rfl, hright⟩)
    · exact .inl ⟨rfl, hdone⟩
    · exact .inr ⟨rfl, rfl, rfl, fun u hu => hu.elim (hleft u) (hright u)⟩

end Borrow

section Merge

variable {f₀ : BTreeFrame (n + 1)} {up : BTreeCtx m (n + 2)} {t : BTree (n + 1)}

/-- What merging leaves: one page fewer, a parent one cell smaller, and the same line. -/
structure Merged (d d' : Disk) (cur : BTreeCursor) (c : BTreeCtx m (n + 1)) (t : BTree (n + 1))
    (u : BTree (n + 1)) (f : BTreeFrame (n + 1)) (up : BTreeCtx m (n + 2)) : Prop where
  sagging : Sagging d' cur up (f.plug u)
  spine_eq : (up.plug (f.plug u)).spine = (c.plug t).spine
  evolves : d.Evolves d' (c.plug t).ids
  ids_mem : ∀ x ∈ (up.plug (f.plug u)).ids, x ∈ (c.plug t).ids
  leaves : ∀ x cells a b, d.page x = .leaf cells a b → d'.page x = .leaf cells a b

theorem Pair.merge_runs {f : BTreeFrame (n + 1)} {l₁ l₂ : List (DefaultPagerKey × BTree n)}
    {k : DefaultPagerKey} {v r : BTree n} {p q i curr : Nat} (hv : cur.config.Valid)
    (h : Pair (n := n + 1) d cur up f ⟨p, l₁, v⟩ k ⟨q, l₂, r⟩)
    (hplug : (Ctx.step f₀ up).plug t =
      up.plug (f.plug₂ (⟨p, l₁, v⟩ : BTreeNode n) k ⟨q, l₂, r⟩))
    (hi : i ≤ f.size + 1) (hcurr : curr = p ∨ curr = q)
    (hmp : Steps (mergePair (pairManager f p k q) i curr) d cur (⟨k, p⟩, p, q) d cur)
    (hfix : i = f.size + 1 ∨ i = f.size → (restCells f q).2 = q)
    (hkids : ∀ w ∈ (⟨p, l₁ ++ (k, v) :: l₂, r⟩ : BTreeNode n).kids, w.Filled cur.config.bounds)
    (hlen : l₁.length + l₂.length + 1 = 2 * cur.config.nodeMinCells) :
    Runs (mergeWithNodeSibling curr (f.id, i)) d cur (fun x d' cur' => cur' = cur ∧ x = q ∧
      Merged d d' cur (.step f₀ up) t (⟨q, l₁ ++ (k, v) :: l₂, r⟩ : BTreeNode n) f up) := by
  obtain ⟨hd, h1⟩ := h.good.sound.first
  obtain ⟨hpf, hst, hsu, -⟩ := stored_frame₂.mp (stored_plug.mp h.stored).2
  replace hpf : d.page f.id = .node (preCells f ++ ⟨k, p⟩ :: (restCells f q).1) (restCells f q).2 :=
    hpf
  have hpp : d.page p = .node (pageCells l₁) v.id := isNode_map.mp hst.1
  have hpq : d.page q = .node (pageCells l₂) r.id := isNode_map.mp hsu.1
  obtain ⟨hfp, hfq, hpq'⟩ : f.id ≠ p ∧ f.id ≠ q ∧ p ≠ q := h.apart
  have hsize : (preCells f ++ ⟨k, p⟩ :: (restCells f q).1).length = f.size + 1 := by
    have := length_cells (f := f) (x := q)
    simp only [List.length_append, List.length_cons] at this ⊢
    omega
  have hline := keySorted_pageCells.mpr (h.line (s := (k, v)))
  have hcells : pageCells (l₁ ++ (k, v) :: l₂) = pageCells l₁ ++ ⟨k, v.id⟩ :: pageCells l₂ := by
    simp [pageCells]
  have hsplit := hv.node_split
  have hmin := hv.node_min
  obtain ⟨hlo, hhi⟩ := h.around
  rw [hcells] at hline
  have hrun := mergeWithNodeSibling_steps h1 rfl hpf hpp hpq hfp hfq hpq' hmp (hi.trans hsize.ge) hcurr
    (by rw [hsize]; exact hfix) hlo hhi hline (by simp [pageCells]; omega) hv.node_max
  refine Runs.mono hrun ?_
  rintro _ _ _ ⟨rfl, rfl, rfl⟩
  rw [← hcells]
  have hres := h.merge_node (s := (k, v)) h1 rfl hkids (by
    simp only [List.length_append, List.length_cons]
    omega)
  rw [← hplug] at hres
  exact ⟨rfl, rfl, hres.1, hres.2.1, hres.2.2.1, hres.2.2.2.1, hres.2.2.2.2⟩

/-- A right child is merged into its left sibling, any other child into its right one. -/
theorem mergeWithNodeSibling_runs (hv : cur.config.Valid) (h : Sagging d cur (.step f₀ up) t)
    (hsz : (Node.cells t).length + 1 = cur.config.nodeMinCells)
    (hsib : ∀ u, f₀.left? = some u ∨ f₀.right? = some u →
      (Node.cells u).length = cur.config.nodeMinCells) :
    Runs (mergeWithNodeSibling t.id (f₀.id, f₀.pre.length)) d cur (fun p d' cur' => cur' = cur ∧
      ∃ (u : BTree (n + 1)) (f : BTreeFrame (n + 1)), p = u.id ∧ f.id = f₀.id ∧
        f.size + 1 = f₀.size ∧ Merged d d' cur (.step f₀ up) t u f up) := by
  have hmin := hv.node_min
  have hkt := h.kids_filled
  by_cases hlast : f₀.pre.length < f₀.size
  · obtain ⟨u, hu⟩ := Option.ne_none_iff_exists'.mp (Frame.right_ne_none hlast)
    obtain ⟨f, k, hplug, hid, hpre, hsize, hpair, hfu⟩ := h.toHung.right_pair hu
    obtain ⟨-, -, hku⟩ := Tree.filled_node.mp hfu
    have hlen := hsib u (.inr hu)
    obtain ⟨pt, l₁, v⟩ := t
    obtain ⟨pu, l₂, r⟩ := u
    have hkids := List.forall_mem_append.mpr ⟨hkt, hku⟩
    rw [kids_cut (s := (k, v)) (i := pt)] at hkids
    rw [← hid, ← hpre]
    refine (hpair.merge_runs hv (by rw [Ctx.plug, hplug]) ?_ (.inl rfl) mergePair_first ?_
      hkids ?_).mono ?_
    · exact Frame.pre_length_le.trans (Nat.le_succ _)
    · intro hi
      cases f with
      | last p as => rfl
      | mid p as k' bs r' =>
        simp only [Frame.pre, Frame.size] at hi
        omega
    · change l₁.length + 1 = _ at hsz
      change l₂.length = _ at hlen
      omega
    · rintro x d' cur' ⟨rfl, rfl, hm⟩
      exact ⟨rfl, _, f, rfl, rfl, hsize, hm⟩
  · have hpos : 0 < f₀.pre.length := by
      have hl := h.ctx_filled.1
      have := f₀.pre_length_le
      cases up <;> simp only [Ctx.lower, BTreeConfig.bounds] at hl <;> omega
    obtain ⟨u, hu⟩ := Option.ne_none_iff_exists'.mp (Frame.left_ne_none hpos)
    obtain ⟨f, k, hplug, hid, hpre, hsize, hpair, hfu⟩ := h.toHung.left_pair hu
    obtain ⟨-, -, hku⟩ := Tree.filled_node.mp hfu
    have hlen := hsib u (.inl hu)
    obtain ⟨pt, l₂, r⟩ := t
    obtain ⟨pu, l₁, v⟩ := u
    have hkids := List.forall_mem_append.mpr ⟨hku, hkt⟩
    rw [kids_cut (s := (k, v)) (i := pu)] at hkids
    rw [← hid, ← hpre]
    -- the pair is the last one of its node
    obtain ⟨p, as, rfl⟩ : ∃ p as, f = .last p as := by
      cases f with
      | last p as => exact ⟨p, as, rfl⟩
      | mid p as k' bs r' =>
        change as.length + 1 = _ at hpre
        change as.length + 1 + bs.length + 1 = _ at hsize
        omega
    refine (hpair.merge_runs hv (by rw [Ctx.plug, hplug]) le_rfl (.inr rfl) mergePair_last
      (fun _ => rfl) hkids ?_).mono ?_
    · change l₂.length + 1 = _ at hsz
      change l₁.length = _ at hlen
      omega
    · rintro x d' cur' ⟨rfl, rfl, hm⟩
      exact ⟨rfl, _, _, rfl, rfl, hsize, hm⟩

end Merge

/-- The end of both merges: a root without cells is given up, and a node that is short is balanced
in turn. -/
theorem settle_runs {f : BTreeFrame n} {up : BTreeCtx m (n + 1)} {u : BTree n} {A B : Prop}
    [Decidable A] [Decidable B] {z : BTreeM Unit} (hv : cur.config.Valid)
    (h : Sagging d cur up (f.plug u)) (hA : A ↔ cur.rootPgno = f.id ∧ f.size = 0)
    (hB : B ↔ cur.rootPgno ≠ f.id ∧ f.size < cur.config.nodeMinCells)
    (hz : up.path ≠ [] → f.size + 1 = cur.config.nodeMinCells → Runs z d cur (fun _ d' cur' =>
      ∃ (m' : Nat) (t' : BTree m'), Rebuilt d d' cur cur' (up.plug (f.plug u)).ids
        (up.plug (f.plug u)).spine t')) :
    Runs (if A then do insertFreelist cur.rootPgno; setRootPgno u.id else if B then z else pure ())
      d cur (fun _ d' cur' => ∃ (m' : Nat) (t' : BTree m'), Rebuilt d d' cur cur'
        (up.plug (f.plug u)).ids (up.plug (f.plug u)).spine t') := by
  have hid : Tree.id (n := n + 1) (f.plug u) = f.id := Frame.plug_id
  have hroot := h.toHung.root_iff
  rw [hid] at hroot
  have hge := h.size_ge
  rw [Frame.length_plug_cells] at hge
  by_cases hcA : A
  · obtain ⟨hr, hs⟩ := hA.mp hcA
    refine Runs.ite_pos hcA ?_
    refine (collapse_runs hv h hr.symm hs).mono ?_
    intro _ d' cur' hreb
    exact ⟨n, u, hreb⟩
  refine Runs.ite_neg hcA ?_
  by_cases hcB : B
  · obtain ⟨hr, hs⟩ := hB.mp hcB
    have hne : up.path ≠ [] := fun he => hr (hroot.mpr he).symm
    refine Runs.ite_pos hcB (hz hne ?_)
    cases up with
    | top => exact absurd rfl hne
    | step g up =>
      simp only [Ctx.lower, BTreeConfig.bounds] at hge
      omega
  · refine Runs.ite_neg hcB (Runs.pure ⟨m, _, h.settled ?_⟩)
    rw [Frame.length_plug_cells]
    cases up with
    | top =>
      by_contra hlt
      simp only [Ctx.lower] at hlt
      exact hcA (hA.mpr ⟨(hroot.mpr rfl).symm, by omega⟩)
    | step g up =>
      by_contra hlt
      simp only [Ctx.lower, BTreeConfig.bounds] at hlt
      refine hcB (hB.mpr ⟨?_, by omega⟩)
      intro he
      cases hroot.mp he.symm

/-- The climb, by induction on the path: a short node is refilled from a sibling, or merged with
one, and then its parent may be the short node. -/
theorem balanceNode_runs (N : Nat) : ∀ {n : Nat} (c : BTreeCtx m (n + 1)) (t : BTree (n + 1))
    (d : Disk) (cur : BTreeCursor), c.path.length = N → c.path ≠ [] → cur.config.Valid →
    Sagging d cur c t → (Node.cells t).length + 1 = cur.config.nodeMinCells →
    Runs (balanceNode c.path t.id) d cur (fun _ d' cur' => ∃ (m' : Nat) (t' : BTree m'),
      Rebuilt d d' cur cur' (c.plug t).ids (c.plug t).spine t') := by
  induction N with
  | zero =>
    intro n c t d cur hN hne
    exact absurd (List.length_eq_zero_iff.mp hN) hne
  | succ N ih =>
    intro n c t d cur hN hne hv h hsz
    obtain ⟨f₀, up, rfl⟩ : ∃ f₀ up, c = .step f₀ up := by
      cases c with
      | top => exact absurd rfl hne
      | step f₀ up => exact ⟨f₀, up, rfl⟩
    obtain ⟨-, hst, -⟩ := stored_frame.mp (stored_plug (c := up).mp h.stored).2
    have hpt : d.page t.id = .node (pageCells (Node.cells t)) (Node.right t).id :=
      isNode_map.mp hst.1
    rw [Ctx.path, balanceNode]
    refine (steps_assertPageType (by simp [hpt, LogicalPage.type?])).then ?_
    refine (steps_loadNode hpt).then ?_
    refine steps_getSelf.then ?_
    refine (steps_assert (.inr (by simp [nodeManager, pageCells]; omega))).then ?_
    refine (steps_assert (.inr (by simp))).then ?_
    refine steps_setCursor.then ?_
    have h := h.setCursor up.path
    have hv' : ({ cur with cursor := up.path } : BTreeCursor).config.Valid := hv
    refine (borrowFromNodeSibling_runs hv' h hsz).bind ?_
    rintro b d' cur' (⟨rfl, t', hr⟩ | ⟨rfl, rfl, rfl, hsib⟩)
    · refine Runs.ite_pos rfl (Runs.pure ⟨m, t', ?_⟩)
      exact Rebuilt.after h.good (.refl h.good) (fun _ _ _ _ hp => hp) (fun _ hp => .inl hp) hr rfl
    refine Runs.ite_neg (by decide) ?_
    refine (mergeWithNodeSibling_runs hv' h hsz hsib).bind ?_
    rintro _ e cur' ⟨rfl, u, f, rfl, hid, hsize, hm⟩
    obtain ⟨hpage, -, -⟩ := stored_frame.mp (stored_plug.mp hm.sagging.stored).2
    rw [← hid]
    refine (steps_loadNode hpage).then ?_
    refine steps_getSelf.then ?_
    have hnum : (nodeManager f.id (preCells f ++ (restCells f u.id).1) (restCells f u.id).2).numCells =
      f.size := length_cells
    refine (settle_runs hv' hm.sagging (by rw [hnum]) (by rw [hnum]) ?_).mono ?_
    · intro hne hsz'
      have hid' : Tree.id (n := n + 2) (f.plug u) = f.id := Frame.plug_id
      have hrec := ih up (f.plug u) e { cur with cursor := up.path } (Nat.succ_injective hN) hne hv hm.sagging (by
        rw [Frame.length_plug_cells]
        exact hsz')
      rw [hid'] at hrec
      exact hrec
    · rintro _ d' cur' ⟨m', t', hr⟩
      rw [hm.spine_eq] at hr
      exact ⟨m', t', Rebuilt.after h.good hm.evolves hm.leaves (fun p hp => .inl (hm.ids_mem p hp)) hr
        rfl⟩

end Climb

end Cpplite
