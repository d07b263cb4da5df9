import Cpplite.BTree.PairSpec

/-!
Two neighbouring nodes and the separator between them: what borrowing and merging do to
the three pages, and that the line of leaves and separators stays the same.
-/
namespace Cpplite

open Exec Search Linked HeightTree

/-! ### Pages -/

section Pages

variable {d : Disk} {cur : BTreeCursor} {p pt pu r rt ru y : Nat} {k k₁ : DefaultPagerKey}
  {lo hi ts us : List NodeCell} {isLeft : Bool} [Build]

theorem borrowNodeSiblingCell_null {sep : BTreeCursorNode} :
    Steps (borrowNodeSiblingCell pu nullPage sep isLeft) d cur false d cur := by
  unfold borrowNodeSiblingCell
  exact Runs.ite_pos rfl steps_pure

/-- A sibling with nothing to spare. -/
theorem borrowNodeSiblingCell_min {sep : BTreeCursorNode} {cells : List NodeCell} (h0 : pt ≠ nullPage)
    (hu : d.page pu = .node us ru) (ht : d.page pt = .node cells rt)
    (hmin : cells.length = cur.config.nodeMinCells) :
    Steps (borrowNodeSiblingCell pu pt sep isLeft) d cur false d cur := by
  unfold borrowNodeSiblingCell
  refine Runs.ite_neg h0 ?_
  refine (steps_loadNode hu).then ?_
  refine (steps_loadNode ht).then ?_
  refine steps_getSelf.then ?_
  refine (steps_assert (.inr hmin.ge)).then ?_
  exact Runs.ite_pos hmin steps_pure

/-- The last cell of the left sibling comes over through the separator. -/
theorem borrowNodeSiblingCell_left (h0 : pt ≠ nullPage)
    (hp : d.page p = .node (lo ++ ⟨k, pt⟩ :: hi) r)
    (ht : d.page pt = .node (ts ++ [⟨k₁, y⟩]) rt) (hu : d.page pu = .node us ru)
    (hpt : p ≠ pt) (hpu : p ≠ pu) (htu : pt ≠ pu) (hlo : ∀ a ∈ lo, a.key < k)
    (hhi : ∀ b ∈ hi, k < b.key) (hts : ∀ a ∈ ts, a.key < k₁) (hus : ∀ b ∈ us, k < b.key)
    (hroom : us.length < nodeMaxCells) (hmin : cur.config.nodeMinCells < ts.length + 1) :
    Steps (borrowNodeSiblingCell pu pt (p, lo.length) true) d cur true
      (((d.set pt (.node ts y)).set p (.node (lo ++ ⟨k₁, pt⟩ :: hi) r)).set pu
        (.node (⟨k, rt⟩ :: us) ru)) cur := by
  have hlen : (nodeManager pt (ts ++ [⟨k₁, y⟩]) rt).numCells = ts.length + 1 := by
    simp [nodeManager]
  unfold borrowNodeSiblingCell
  refine Runs.ite_neg h0 ?_
  refine (steps_loadNode hu).then ?_
  refine (steps_loadNode ht).then ?_
  refine steps_getSelf.then ?_
  refine (steps_assert (.inr (by rw [hlen]; exact hmin.le))).then ?_
  refine Runs.ite_neg (by rw [hlen]; exact hmin.ne') ?_
  refine (steps_assertPageType (by simp [hp, LogicalPage.type?])).then ?_
  refine (steps_loadNode hp).then ?_
  refine (steps_assert (.inr rfl)).then ?_
  refine (steps_assert (.inr (by simp [nodeManager]))).then ?_
  refine Runs.ite_pos rfl ?_
  refine (steps_index (a := ⟨k, pt⟩) (by simp [nodeManager])).then ?_
  refine (steps_index (a := ⟨k₁, y⟩) (by simp [nodeManager])).then ?_
  refine (steps_setNodeRightChild ht).then ?_
  refine (steps_deleteNodeCell Disk.set_page_self hts (by simp)).then ?_
  rw [List.append_nil, Disk.set_set]
  refine (steps_updateCellKey (d := d.set pt (.node ts y)) (by rw [Disk.set_page_of_ne hpt, hp])
    hlo hhi).then ?_
  have hu' : ((d.set pt (.node ts y)).set p (.node (lo ++ ⟨k₁, pt⟩ :: hi) r)).page pu =
      .node ([] ++ us) ru := by
    rw [Disk.set_page_of_ne (Ne.symm hpu), Disk.set_page_of_ne (Ne.symm htu), hu]
    rfl
  refine (steps_insertNodeCell hu' (by simp) hus hroom).then ?_
  refine (steps_setCellLeftChild (x := nullPage) Disk.set_page_self (by simp) hus).then ?_
  rw [Disk.set_set]
  exact steps_pure

/-- The first cell of the right sibling comes over through the separator. -/
theorem borrowNodeSiblingCell_right (h0 : pu ≠ nullPage)
    (hp : d.page p = .node (lo ++ ⟨k, pt⟩ :: hi) r)
    (ht : d.page pt = .node ts rt) (hu : d.page pu = .node (⟨k₁, y⟩ :: us) ru)
    (hpt : p ≠ pt) (hpu : p ≠ pu) (htu : pt ≠ pu) (hlo : ∀ a ∈ lo, a.key < k)
    (hhi : ∀ b ∈ hi, k < b.key) (hts : ∀ a ∈ ts, a.key < k) (hus : ∀ b ∈ us, k₁ < b.key)
    (hroom : ts.length < nodeMaxCells) (hmin : cur.config.nodeMinCells < us.length + 1) :
    Steps (borrowNodeSiblingCell pt pu (p, lo.length + 1) false) d cur true
      (((d.set pu (.node us ru)).set p (.node (lo ++ ⟨k₁, pt⟩ :: hi) r)).set pt
        (.node (ts ++ [⟨k, rt⟩]) y)) cur := by
  unfold borrowNodeSiblingCell
  refine Runs.ite_neg h0 ?_
  refine (steps_loadNode ht).then ?_
  refine (steps_loadNode hu).then ?_
  refine steps_getSelf.then ?_
  refine (steps_assert (.inr hmin.le)).then ?_
  refine Runs.ite_neg hmin.ne' ?_
  refine (steps_assertPageType (by simp [hp, LogicalPage.type?])).then ?_
  refine (steps_loadNode hp).then ?_
  refine (steps_assert (.inr rfl)).then ?_
  refine (steps_assert (.inr (by simp [nodeManager]))).then ?_
  refine Runs.ite_neg (by decide) ?_
  refine (steps_index (a := ⟨k₁, y⟩) (by simp [nodeManager])).then ?_
  refine (steps_deleteNodeCell (x := y) (show _ = LogicalPage.node ([] ++ _ :: us) _ from hu) (by simp) hus).then ?_
  refine (steps_index (a := ⟨k, pt⟩) (by simp [nodeManager])).then ?_
  refine (steps_assert (.inr rfl)).then ?_
  rw [List.nil_append]
  refine (steps_updateCellKey (d := d.set pu (.node us ru)) (by rw [Disk.set_page_of_ne hpu, hp])
    hlo hhi).then ?_
  have ht' : ((d.set pu (.node us ru)).set p (.node (lo ++ ⟨k₁, pt⟩ :: hi) r)).page pt =
      .node (ts ++ []) rt := by
    rw [Disk.set_page_of_ne (Ne.symm hpt), Disk.set_page_of_ne htu, ht, List.append_nil]
  have hins := steps_insertNodeCell (c := cur) ht' hts (by simp) (by simpa using hroom)
  rw [List.append_nil] at hins
  refine hins.then ?_
  refine (steps_setCellLeftChild (x := nullPage) Disk.set_page_self hts (by simp)).then ?_
  refine (steps_setNodeRightChild Disk.set_page_self).then ?_
  rw [Disk.set_set, Disk.set_set]
  exact steps_pure

theorem insertAll_steps : ∀ (rest done : List NodeCell) (d : Disk), d.page p = .node (done ++ hi) r →
    KeySorted NodeCell.key (done ++ rest ++ hi) → (done ++ rest ++ hi).length ≤ nodeMaxCells →
    Steps (rest.foldlM (fun npm cell => insertWithChild npm cell.key cell.leftChild)
      (nodeManager p (done ++ hi) r)) d cur (nodeManager p (done ++ rest ++ hi) r)
      (d.set p (.node (done ++ rest ++ hi) r)) cur
  | [], done, d, h, _, _ => by
    rw [List.append_nil, Disk.set_self h]
    exact steps_pure
  | c :: rest, done, d, h, hs, hl => by
    have happ : done ++ c :: rest ++ hi = (done ++ [c]) ++ rest ++ hi := by simp
    have hcons : done ++ c :: rest ++ hi = done ++ (c :: (rest ++ hi)) := by simp
    have hs' := hs
    rw [hcons] at hs'
    obtain ⟨-, htail, hcross⟩ := List.pairwise_append.mp hs'
    have hlt : ∀ a ∈ done, a.key < c.key := fun a ha => hcross a ha c (by simp)
    have hgt : ∀ b ∈ hi, c.key < b.key :=
      fun b hb => (List.pairwise_cons.mp htail).1 b (by simp [hb])
    have hroom : (done ++ hi).length < nodeMaxCells := by
      simp only [List.length_append, List.length_cons] at hl ⊢
      omega
    rw [happ, List.foldlM_cons]
    refine (steps_insertWithChild h hlt hgt hroom).then ?_
    have hrest := insertAll_steps rest (done ++ [c]) (d.set p (.node (done ++ c :: hi) r))
      (by simp) (by rwa [happ] at hs) (by rwa [happ] at hl)
    rw [Disk.set_set, List.append_cons done c hi |>.symm] at hrest
    exact hrest

/-- The left node's cells and the separator go into the right node, and the left page is freed. -/
theorem mergeWithNodeSibling_steps {i curr : Nat} {hd : PagerFirstPageHeader} {cells : List NodeCell}
    (h1 : d.page 1 = .first hd) (hcells : cells = lo ++ ⟨k, pt⟩ :: hi)
    (hp : d.page p = .node cells r) (ht : d.page pt = .node ts rt) (hu : d.page pu = .node us ru)
    (hpt : p ≠ pt) (hpu : p ≠ pu) (htu : pt ≠ pu)
    (hmp : Steps (mergePair (nodeManager p cells r) i curr) d cur (⟨k, pt⟩, pt, pu) d cur)
    (hi' : i ≤ cells.length) (hcurr : curr = pt ∨ curr = pu)
    (hfix : i = cells.length ∨ i = cells.length - 1 → r = pu)
    (hlo : ∀ a ∈ lo, a.key < k) (hhi : ∀ b ∈ hi, k < b.key)
    (hs : KeySorted NodeCell.key (ts ++ ⟨k, rt⟩ :: us))
    (hroom : ts.length + us.length + 1 ≤ cur.config.nodeMaxCells)
    (hmax : cur.config.nodeMaxCells ≤ nodeMaxCells) :
    Steps (mergeWithNodeSibling curr (p, i)) d cur pu
      (((d.set pu (.node (ts ++ ⟨k, rt⟩ :: us) ru)).set p (.node (lo ++ hi) r)).free pt hd) cur := by
  have hne1 : ∀ q cs x, d.page q = .node cs x → q ≠ 1 := by
    rintro q cs x hq rfl
    rw [h1] at hq
    cases hq
  have hctype : (d.page curr).type? = some .nodePage := by
    rcases hcurr with rfl | rfl
    · rw [ht]
      rfl
    · rw [hu]
      rfl
  obtain ⟨hts, hus, hcross⟩ := List.pairwise_append.mp hs
  obtain ⟨hkus, hus⟩ := List.pairwise_cons.mp hus
  have hkts : ∀ a ∈ ts, a.key < k := fun a ha => hcross a ha ⟨k, rt⟩ (by simp)
  have hall : KeySorted NodeCell.key ([] ++ ts ++ us) := by
    refine List.pairwise_append.mpr ⟨hts, hus, ?_⟩
    intro a ha b hb
    exact (hkts a ha).trans (hkus b hb)
  unfold mergeWithNodeSibling
  refine (steps_assertPageType hctype).then ?_
  refine (steps_assertPageType (by simp [hp, LogicalPage.type?])).then ?_
  refine (steps_loadNode hp).then ?_
  refine (steps_assert (.inr rfl)).then ?_
  refine (steps_assert (.inr hi')).then ?_
  refine hmp.then ?_
  refine (steps_loadNode ht).then ?_
  refine (steps_loadNode hu).then ?_
  refine steps_getSelf.then ?_
  refine (steps_assert (.inr hroom)).then ?_
  refine (insertAll_steps ts [] d hu hall (by
    simp only [List.nil_append, List.length_append]
    omega)).then ?_
  rw [List.nil_append]
  refine (steps_insertWithChild Disk.set_page_self hkts hkus (by
    rw [List.length_append]
    omega)).then ?_
  rw [Disk.set_set]
  subst hcells
  have hp' : (d.set pu (.node (ts ++ ⟨k, rt⟩ :: us) ru)).page p = .node (lo ++ ⟨k, pt⟩ :: hi) r := by
    rw [Disk.set_page_of_ne hpu, hp]
  refine (steps_deleteNodeCell hp' hlo hhi).then ?_
  refine Runs.bind (P := fun _ d' c' => d' = (d.set pu (.node (ts ++ ⟨k, rt⟩ :: us) ru)).set p
    (.node (lo ++ hi) r) ∧ c' = cur) (Runs.when ?_ ?_) ?_
  · intro hf
    have hrpu := hfix hf
    refine (steps_setNodeRightChild Disk.set_page_self).then ?_
    rw [Disk.set_set]
    subst hrpu
    exact Runs.pure ⟨rfl, rfl⟩
  · intro _
    exact ⟨rfl, rfl⟩
  rintro _ _ cur ⟨rfl, rfl⟩
  refine (steps_insertFreelist (show _ = LogicalPage.first hd from ?_) (hne1 pt _ _ ht) ?_).then ?_
  · rw [Disk.set_page_of_ne (Ne.symm (hne1 p _ _ hp)), Disk.set_page_of_ne (Ne.symm (hne1 pu _ _ hu)),
      h1]
  · rw [Disk.set_page_of_ne (Ne.symm hpt), Disk.set_page_of_ne htu, ht]
    simp
  · exact steps_pure

end Pages

/-! ### Trees -/

section Trees

variable {m n : Nat} {d d' : Disk} {cur cur' : BTreeCursor}

section Pair

variable {up : BTreeCtx m (n + 2)} {f : BTreeFrame (n + 1)} {t u t' u' : BTree (n + 1)}
  {k k' : DefaultPagerKey}

/-- The children of a pair of nodes stay in place while the pair and its parent are rewritten. -/
theorem pair_kids_frame (hs : Stored d (up.plug (f.plug₂ t k u)))
    (hnd : (up.plug (f.plug₂ t k u)).ids.Nodup)
    (hsame : ∀ q, (d.page q).IsTree → q ≠ f.id → q ≠ t.id → q ≠ u.id →
      d'.page q = d.page q) :
    ∀ v ∈ Node.kids t ++ Node.kids u, Stored d' v ∧ t.id ∉ v.ids ∧ u.id ∉ v.ids := by
  obtain ⟨-, hst, hsu, -⟩ := stored_frame₂.mp (stored_plug.mp hs).2
  obtain ⟨-, -, hft, hfu, -, htu⟩ := pair_disjoint hnd
  have hnd' := ids_pair.nodup_iff.mp hnd
  have hnd' := (List.nodup_append.mp (List.nodup_cons.mp hnd').2).2.1
  obtain ⟨hndt, hndu, -⟩ := List.nodup_append.mp hnd'
  rw [Tree.ids_node] at hndt hndu
  have hkid : ∀ (w v : BTree (n + 1)) (x : BTree n), x ∈ Node.kids w → x.ids ⊆ w.ids := by
    intro w _ x hx q hq
    rw [Tree.ids_node]
    exact List.mem_cons_of_mem _ (List.mem_flatMap.mpr ⟨x, hx, hq⟩)
  intro v hv
  have hfin : Stored d v → f.id ∉ v.ids → t.id ∉ v.ids → u.id ∉ v.ids →
      Stored d' v ∧ t.id ∉ v.ids ∧ u.id ∉ v.ids := by
    intro hsv h1 h2 h3
    refine ⟨hsv.frame (fun q hq => congrArg _ (hsame q (hsv.isTree q hq) ?_ ?_ ?_)), h2, h3⟩
    · rintro rfl; exact h1 hq
    · rintro rfl; exact h2 hq
    · rintro rfl; exact h3 hq
  rcases List.mem_append.mp hv with hv | hv
  · have hsub := hkid t t v hv
    refine hfin (hst.2 v hv) (fun h => hft (hsub h)) ?_ ?_
    · exact fun h => (List.nodup_cons.mp hndt).1 (List.mem_flatMap.mpr ⟨v, hv, h⟩)
    · exact fun h => htu _ (hsub h) u.id_mem_ids
  · have hsub := hkid u u v hv
    refine hfin (hsu.2 v hv) (fun h => hfu (hsub h)) ?_ ?_
    · exact fun h => htu _ t.id_mem_ids (hsub h)
    · exact fun h => (List.nodup_cons.mp hndu).1 (List.mem_flatMap.mpr ⟨v, hv, h⟩)

end Pair

section Cut

variable {l₁ l₂ l₁' l₂' : List (DefaultPagerKey × BTree n)} {s s' : DefaultPagerKey × BTree n}
  {r : BTree n} {p q : Nat} {f : BTreeFrame (n + 1)} {up : BTreeCtx m (n + 2)}

/-- Two pages of a pair hold a line of cells cut at `s`; the same line may be cut elsewhere. -/
theorem ids_recut (heq : l₁ ++ s :: l₂ = l₁' ++ s' :: l₂') :
    (Tree.ids (n := n + 1) (⟨p, l₁', s'.2⟩ : BTreeNode n) ++
      Tree.ids (n := n + 1) (⟨q, l₂', r⟩ : BTreeNode n)).Perm
    (Tree.ids (n := n + 1) (⟨p, l₁, s.2⟩ : BTreeNode n) ++
      Tree.ids (n := n + 1) (⟨q, l₂, r⟩ : BTreeNode n)) := by
  have h : (⟨p, l₁, s.2⟩ : BTreeNode n).kids ++ (⟨q, l₂, r⟩ : BTreeNode n).kids =
      (⟨p, l₁ ++ s :: l₂, r⟩ : BTreeNode n).kids := kids_cut
  rw [heq, ← kids_cut (p := p) (q := q)] at h
  have h := congrArg (List.flatMap Tree.ids) h
  rw [List.flatMap_append, List.flatMap_append] at h
  rw [List.perm_iff_count]
  intro a
  have h := congrArg (List.count a) h
  simp only [Tree.ids_node, List.count_append, List.count_cons, Tree.id] at h ⊢
  omega

/-- The cells of both pages and the separator between them are one sorted line. -/
theorem Pair.line (h : Pair (n := n + 1) d cur up f ⟨p, l₁, s.2⟩ s.1 ⟨q, l₂, r⟩) :
    KeySorted Prod.fst (l₁ ++ s :: l₂) := by
  have ho := h.ordered
  rw [Ctx.spine_plug, ← spine_step₂, spine_cut (i := p)] at ho
  exact Node.keySorted_of_ordered (s := ⟨p, l₁ ++ s :: l₂, r⟩) (ho.sublist
    ((List.sublist_append_right _ _).trans (List.sublist_append_left _ _)))

/-- Two nodes dealt out anew: the tree is finished and spells what it did. -/
theorem Pair.recut (h : Pair (n := n + 1) d cur up f ⟨p, l₁, s.2⟩ s.1 ⟨q, l₂, r⟩)
    (l₁' : List (DefaultPagerKey × BTree n)) (s' : DefaultPagerKey × BTree n)
    (l₂' : List (DefaultPagerKey × BTree n))
    (heq : l₁ ++ s :: l₂ = l₁' ++ s' :: l₂')
    (hev : d.Evolves d'
      (up.plug (f.plug₂ (⟨p, l₁, s.2⟩ : BTreeNode n) s.1 ⟨q, l₂, r⟩)).ids)
    (hf : d'.page f.id = .node (preCells f ++ ⟨s'.1, p⟩ :: (restCells f q).1) (restCells f q).2)
    (hp : d'.page p = .node (pageCells l₁') s'.2.id) (hq : d'.page q = .node (pageCells l₂') r.id)
    (hsame : ∀ x, (d.page x).IsTree → x ≠ f.id → x ≠ p → x ≠ q → d'.page x = d.page x)
    (hkids : ∀ v ∈ (⟨p, l₁ ++ s :: l₂, r⟩ : BTreeNode n).kids,
      v.Filled cur.config.bounds)
    (h₁ : cur.config.nodeMinCells ≤ l₁'.length ∧ l₁'.length ≤ cur.config.nodeMaxCells)
    (h₂ : cur.config.nodeMinCells ≤ l₂'.length ∧ l₂'.length ≤ cur.config.nodeMaxCells) :
    Rebuilt d d' cur cur
      (up.plug (f.plug₂ (⟨p, l₁, s.2⟩ : BTreeNode n) s.1 ⟨q, l₂, r⟩)).ids
      (up.plug (f.plug₂ (⟨p, l₁, s.2⟩ : BTreeNode n) s.1 ⟨q, l₂, r⟩)).spine
      (up.plug (f.plug₂ (⟨p, l₁', s'.2⟩ : BTreeNode n) s'.1 ⟨q, l₂', r⟩)) := by
  obtain ⟨hpf, hst, hsu, -⟩ := stored_frame₂.mp (stored_plug.mp h.stored).2
  have hpp := isNode_map.mp hst.1
  have hpq := isNode_map.mp hsu.1
  have hkid := pair_kids_frame h.stored h.nodup hsame
  rw [kids_cut (i := p), heq] at hkid
  rw [heq] at hkids
  rw [← kids_cut (p := p) (q := q), List.forall_mem_append] at hkid hkids
  have hr := h.rotate (n := n + 1) (v := (⟨p, l₁', s'.2⟩ : BTreeNode n)) hev.good hf
    ⟨isNode_map.mpr hp, fun v hv => (hkid.1 v hv).1⟩ ⟨isNode_map.mpr hq, fun v hv => (hkid.2 v hv).1⟩
    (fun x hx h1 h2 h3 => ?_) (ids_recut heq) (Tree.filled_node.mpr ⟨h₁.1, h₁.2, hkids.1⟩)
    (Tree.filled_node.mpr ⟨h₂.1, h₂.2, hkids.2⟩)
  · refine (Rebuilt.after h.good hev ?_ (fun x hx => .inl hx) hr rfl).of_spine ?_
    · intro x cells a b hx
      rw [hsame x (by rw [hx]; trivial), hx]
      · rintro rfl
        rw [hpf] at hx
        cases hx
      · rintro rfl
        rw [hpp] at hx
        cases hx
      · rintro rfl
        rw [hpq] at hx
        cases hx
    · rw [Ctx.spine_plug, Ctx.spine_plug, ← spine_step₂, ← spine_step₂]
      have hs : Tree.spine (n := n + 1) ⟨p, l₁, s.2⟩ ++ .inr s.1 ::
          Tree.spine (n := n + 1) ⟨q, l₂, r⟩ =
          (Tree.spine (n := n + 1) ⟨p, l₁ ++ s :: l₂, r⟩ : Spine) := spine_cut
      rw [heq, ← spine_cut (p := p) (q := q)] at hs
      rw [hs]
  · rw [hsame x hx h1]
    · rintro rfl
      exact h2 (Tree.id_mem_ids (n := n + 1) _)
    · rintro rfl
      exact h3 (Tree.id_mem_ids (n := n + 1) _)

/-- Two nodes merged into the right one: the parent has lost a cell. -/
theorem Pair.merge_node {hd : PagerFirstPageHeader}
    (h : Pair (n := n + 1) d cur up f ⟨p, l₁, s.2⟩ s.1 ⟨q, l₂, r⟩) (h1 : d.page 1 = .first hd)
    (hd' : d' = ((d.set q (.node (pageCells (l₁ ++ s :: l₂)) r.id)).set f.id
      (.node (preCells f ++ (restCells f q).1) (restCells f q).2)).free p hd)
    (hkids : ∀ v ∈ (⟨p, l₁ ++ s :: l₂, r⟩ : BTreeNode n).kids, v.Filled cur.config.bounds)
    (hlen : cur.config.nodeMinCells ≤ (l₁ ++ s :: l₂).length ∧
      (l₁ ++ s :: l₂).length ≤ cur.config.nodeMaxCells) :
    Sagging d' cur up (f.plug (⟨q, l₁ ++ s :: l₂, r⟩ : BTreeNode n)) ∧
    (up.plug (f.plug (⟨q, l₁ ++ s :: l₂, r⟩ : BTreeNode n))).spine =
      (up.plug (f.plug₂ (⟨p, l₁, s.2⟩ : BTreeNode n) s.1 ⟨q, l₂, r⟩)).spine ∧
    d.Evolves d' (up.plug (f.plug₂ (⟨p, l₁, s.2⟩ : BTreeNode n) s.1 ⟨q, l₂, r⟩)).ids ∧
    (∀ x ∈ (up.plug (f.plug (⟨q, l₁ ++ s :: l₂, r⟩ : BTreeNode n))).ids,
      x ∈ (up.plug (f.plug₂ (⟨p, l₁, s.2⟩ : BTreeNode n) s.1 ⟨q, l₂, r⟩)).ids) ∧
    ∀ x cells a b, d.page x = .leaf cells a b → d'.page x = .leaf cells a b := by
  obtain ⟨hpf, hst, hsu, -⟩ := stored_frame₂.mp (stored_plug.mp h.stored).2
  obtain ⟨-, -, hft, hfu, -, htu⟩ := pair_disjoint h.nodup
  have hpp : d.page p = .node (pageCells l₁) s.2.id := isNode_map.mp hst.1
  have hpq : d.page q = .node (pageCells l₂) r.id := isNode_map.mp hsu.1
  have hpt : (d.page p).IsTree := by rw [hpp]; trivial
  have hqt : (d.page q).IsTree := by rw [hpq]; trivial
  have hft' : (d.page f.id).IsTree := by rw [hpf]; trivial
  have hpm : p ∈ Tree.ids (n := n + 1) (⟨p, l₁, s.2⟩ : BTreeNode n) := Tree.id_mem_ids (n := n + 1) _
  have hqm : q ∈ Tree.ids (n := n + 1) (⟨q, l₂, r⟩ : BTreeNode n) := Tree.id_mem_ids (n := n + 1) _
  have hfp : f.id ≠ p := by rintro h; exact hft (h ▸ hpm)
  have hfq : f.id ≠ q := by rintro h; exact hfu (h ▸ hqm)
  have hpq' : p ≠ q := by rintro h; exact htu p hpm (h ▸ hqm)
  have hmem := fun x => (ids_pair (c := up) (f := f) (t := (⟨p, l₁, s.2⟩ : BTreeNode n)) (k := s.1)
    (u := (⟨q, l₂, r⟩ : BTreeNode n))).mem_iff (a := x)
  have hsame : ∀ x, (d.page x).IsTree → x ≠ f.id → x ≠ p → x ≠ q → d'.page x = d.page x := by
    intro x hx h2 h3 h4
    rw [hd', Disk.free_page_of_ne (h.good.ne_one hx) h3, Disk.set_page_of_ne h2,
      Disk.set_page_of_ne h4]
  have hev : d.Evolves d' (up.plug (f.plug₂ (⟨p, l₁, s.2⟩ : BTreeNode n) s.1 ⟨q, l₂, r⟩)).ids := by
    have e1 := Disk.Evolves.set (l := .node (pageCells (l₁ ++ s :: l₂)) r.id) h.good hqt
      ((hmem q).mpr (by simp [hqm]))
    have e2 := e1.set_more (p := f.id) (l := .node (preCells f ++ (restCells f q).1)
      (restCells f q).2) h.good (by rw [Disk.set_page_of_ne hfq]; exact hft')
      ((hmem f.id).mpr (by simp))
    rw [hd']
    refine e2.trans h.good (.free e2.good ?_ ?_ ((hmem p).mpr (by simp [hpm]))) (fun _ hx => .inl hx)
    · rw [Disk.set_page_of_ne (Ne.symm (h.good.ne_one hft')),
        Disk.set_page_of_ne (Ne.symm (h.good.ne_one hqt)), h1]
    · rw [Disk.set_page_of_ne (Ne.symm hfp), Disk.set_page_of_ne hpq']
      exact hpt
  have hspine : (up.plug (f.plug (⟨q, l₁ ++ s :: l₂, r⟩ : BTreeNode n))).spine =
      (up.plug (f.plug₂ (⟨p, l₁, s.2⟩ : BTreeNode n) s.1 ⟨q, l₂, r⟩)).spine := by
    rw [Ctx.spine_plug, Ctx.spine_plug, ← spine_step₂, spine_cut (i := q), Frame.spine_plug,
      Ctx.spineL_step, Ctx.spineR_step]
    simp only [List.append_assoc]
  have hids : (p :: Tree.ids (n := n + 1) (⟨q, l₁ ++ s :: l₂, r⟩ : BTreeNode n)).Perm
      (Tree.ids (n := n + 1) (⟨p, l₁, s.2⟩ : BTreeNode n) ++
        Tree.ids (n := n + 1) (⟨q, l₂, r⟩ : BTreeNode n)) := by
    rw [Tree.ids_node, Tree.ids_node, Tree.ids_node]
    change (p :: q :: (Node.kids _).flatMap _).Perm _
    rw [← kids_cut (p := p) (q := q), List.flatMap_append, List.perm_iff_count]
    intro a
    simp only [List.count_append, List.count_cons, Tree.id]
    omega
  have hkid := pair_kids_frame h.stored h.nodup hsame
  rw [kids_cut (i := q)] at hkid
  refine ⟨h.merge (n := n + 1) hev.good ?_ ⟨isNode_map.mpr ?_, fun v hv => (hkid v hv).1⟩ ?_ hids
    (Tree.filled_node.mpr ⟨hlen.1, hlen.2, hkids⟩) (hspine ▸ h.ordered), hspine, hev, ?_, ?_⟩
  · rw [hd', Disk.free_page_of_ne (h.good.ne_one hft') hfp, Disk.set_page_self]
    rfl
  · change d'.page q = _
    rw [hd', Disk.free_page_of_ne (h.good.ne_one hqt) (Ne.symm hpq'),
      Disk.set_page_of_ne (Ne.symm hfq), Disk.set_page_self]
  · intro x hx h2 h3 h4
    rw [hsame x hx h2]
    · rintro rfl
      exact h3 hpm
    · rintro rfl
      exact h4 hqm
  · intro x hx
    exact (ids_merged (n := n + 1) (t := (⟨p, l₁, s.2⟩ : BTreeNode n)) hids).mem_iff.mp
      (List.mem_cons_of_mem _ hx)
  · intro x cells a b hx
    rw [hsame x (by rw [hx]; trivial), hx]
    · rintro rfl
      rw [hpf] at hx
      cases hx
    · rintro rfl
      rw [hpp] at hx
      cases hx
    · rintro rfl
      rw [hpq] at hx
      cases hx

end Cut

end Trees

end Cpplite
