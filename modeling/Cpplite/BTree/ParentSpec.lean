import Cpplite.BTree.SplitSpec

/-!
The climb after a split: two halves take the place of one child, and whatever node has
no room for the new separator splits in turn.
-/
namespace Cpplite

open Exec Search Linked HeightTree

/-- The tree a climb ends with: what stands on its pages, which pages it uses, and what it spells.
Leaf pages are not touched on the way. -/
structure Rebuilt (d d' : Disk) (cur cur' : BTreeCursor) (ids : List Nat) (spine : Spine) {m : Nat}
    (t : BTree m) : Prop where
  root_eq : t.id = cur'.rootPgno
  config_eq : cur'.config = cur.config
  stored : Stored d' t
  nodup : t.ids.Nodup
  ids_mem : ∀ p ∈ t.ids, p ∈ ids ∨ d.total < p
  spine_eq : t.spine = spine
  filled : t.RootFilled cur.config.bounds
  evolves : d.Evolves d' ids
  leaves : ∀ p cells a b, d.page p = .leaf cells a b → d'.page p = .leaf cells a b

theorem Rebuilt.of_spine {d d' : Disk} {cur cur' : BTreeCursor} {ids : List Nat}
    {spine spine' : Spine} {m : Nat} {t : BTree m} (h : Rebuilt d d' cur cur' ids spine t)
    (hs : spine = spine') : Rebuilt d d' cur cur' ids spine' t :=
  hs ▸ h

/-- Work on pages of its own before the climb. -/
theorem Rebuilt.after {d e d' : Disk} {cur cur₁ cur' : BTreeCursor} {ids ids₁ : List Nat}
    {spine : Spine} {m : Nat} {t : BTree m} (hg : d.Good) (hde : d.Evolves e ids)
    (hl : ∀ p cells a b, d.page p = .leaf cells a b → e.page p = .leaf cells a b)
    (hids : ∀ p ∈ ids₁, p ∈ ids ∨ d.total < p) (h : Rebuilt e d' cur₁ cur' ids₁ spine t)
    (hcfg : cur₁.config = cur.config) : Rebuilt d d' cur cur' ids spine t where
  root_eq := h.root_eq
  config_eq := h.config_eq.trans hcfg
  stored := h.stored
  nodup := h.nodup
  ids_mem p hp := by
    rcases h.ids_mem p hp with hm | hm
    · exact hids p hm
    · exact .inr (hde.total_le.trans_lt hm)
  spine_eq := h.spine_eq
  filled := hcfg ▸ h.filled
  evolves := hde.trans hg h.evolves hids
  leaves p cells a b hp := h.leaves p cells a b (hl p cells a b hp)

/-- A climb over leaves that are already linked and in order ends an update. -/
theorem Rebuilt.updated {d e d' : Disk} {cur cur₁ cur' : BTreeCursor} {ids ids₁ : List Nat}
    {spine : Spine} {m : Nat} {t : BTree m} (h : Rebuilt e d' cur₁ cur' ids₁ spine t)
    (hcfg : cur₁.config = cur.config) (hg : d.Good) (hde : d.Evolves e ids)
    (hids : ∀ p ∈ ids₁, p ∈ ids ∨ d.total < p) (ho : Ordered LeafCell.key spine)
    (hs : Segment e.links nullPage (leafIds spine) nullPage) : Updated d d' cur cur' ids t where
  planted :=
    { root_eq := h.root_eq
      stored := h.stored
      nodup := h.nodup
      linked := by
        rw [h.spine_eq]
        refine (segment_congr ?_).mpr hs
        intro q hq
        obtain ⟨l, hl⟩ := hs.of_mem hq
        obtain ⟨cells, hc⟩ := Disk.links_some hl
        rw [hl, Disk.links_eq (h.leaves q cells _ _ hc)]
      ordered := h.spine_eq ▸ ho
      filled := h.config_eq ▸ h.filled }
  config_eq := h.config_eq.trans hcfg
  ids_mem p hp := by
    rcases h.ids_mem p hp with hm | hm
    · exact hids p hm
    · exact .inr (hde.total_le.trans_lt hm)
  evolves := hde.trans hg h.evolves hids

section Cells

variable {n : Nat} {f : BTreeFrame n} {t u : BTree n} {k : DefaultPagerKey}

/-- A node's cells as its page has them. -/
def pageCells (cells : List (DefaultPagerKey × BTree n)) : List NodeCell :=
  cells.map (fun c => ⟨c.1, c.2.id⟩)

theorem keySorted_pageCells {cells : List (DefaultPagerKey × BTree n)} :
    KeySorted NodeCell.key (pageCells cells) ↔ KeySorted Prod.fst cells := by
  simp [KeySorted, pageCells, List.pairwise_map]

theorem pageCells_plug₂ : pageCells (f.plug₂ t k u).cells =
    preCells f ++ ⟨k, t.id⟩ :: (restCells f u.id).1 := by
  cases f <;> simp [pageCells, Frame.plug₂, preCells, restCells, Frame.pre]

theorem right_plug₂ : (f.plug₂ t k u).right.id = (restCells f u.id).2 := by
  cases f <;> rfl

theorem isNode_map {d : Disk} {s : Node DefaultPagerKey Nat (BTree n)} :
    d.IsNode (s.map Tree.id) ↔ d.page s.id = .node (pageCells s.cells) s.right.id := by
  simp [Disk.IsNode, Node.map, pageCells, nodeCell, Function.comp_def]

end Cells

section Assign

variable {n : Nat} {d : Disk} {cur : BTreeCursor} {f : BTreeFrame n} {x l r : Nat}
  {k : DefaultPagerKey} [Build]

/-- `assign_children_nodes` leaves the right half in the old child's place. -/
theorem assignChildrenNodes_steps
    (h : d.page f.id = .node (preCells f ++ (restCells f x).1) (restCells f x).2)
    (hs : KeySorted NodeCell.key (preCells f ++ ⟨k, l⟩ :: (restCells f x).1)) (hsz : 1 ≤ f.size) :
    Steps (assignChildrenNodes l r (f.id, f.pre.length) k) d cur ⟨k, l⟩
      (d.set f.id (.node (preCells f ++ (restCells f r).1) (restCells f r).2)) cur := by
  obtain ⟨-, hrest, hlt⟩ := List.pairwise_append.mp hs
  have hlo : ∀ a ∈ preCells f, a.key < k := fun a ha => hlt a ha ⟨k, l⟩ (by simp)
  obtain ⟨hhi, hrest⟩ := List.pairwise_cons.mp hrest
  unfold assignChildrenNodes
  refine (steps_assertPageType (by simp [h, LogicalPage.type?])).then ?_
  refine (steps_loadNode h).then ?_
  refine (steps_assert (.inr rfl)).then ?_
  cases f with
  | last p as =>
    have hpos : 0 < (preCells (.last p as)).length := by
      rw [length_preCells]
      exact hsz
    refine Runs.ite_pos (by simp [nodeManager, restCells]) ?_
    obtain ⟨old, hold⟩ : ∃ old, (preCells (.last p as))[(preCells (.last p as)).length - 1]? =
        some old := ⟨_, List.getElem?_eq_getElem (by omega)⟩
    refine (steps_index (a := old) (by simpa [nodeManager, restCells] using hold)).then ?_
    refine (steps_assert (.inr (hlo old (List.mem_of_getElem? hold)))).then ?_
    refine (steps_setNodeRightChild h).then ?_
    exact steps_pure
  | mid p as k' bs y =>
    have hkk : k < k' := hhi ⟨k', x⟩ (by simp [restCells])
    refine Runs.ite_neg (by simp [nodeManager, restCells]) ?_
    refine (steps_index (a := ⟨k', x⟩) ?_).then ?_
    · simp only [nodeManager, restCells]
      rw [List.getElem?_append_right (by simp)]
      simp
    refine (steps_assert (.inr hkk)).then ?_
    refine (steps_setCellLeftChild h (fun a ha => (hlo a ha).trans hkk)
      (List.pairwise_cons.mp hrest).1).then ?_
    exact steps_pure

end Assign

section Climb

variable {m n : Nat} {d : Disk} {cur : BTreeCursor} {k : DefaultPagerKey} [Build]

omit [Build] in
theorem Stored.frame_le {d d' : Disk} {t : BTree n} (hg : d.Good) (h : Stored d t)
    (hsame : ∀ q, q ≠ 1 → q ≤ d.total → d'.page q = d.page q) : Stored d' t := by
  refine h.frame ?_
  intro p hp
  have ht := h.isTree p hp
  rw [hsame p (hg.ne_one ht) (hg.le_total ht.inUse)]

omit [Build] in
theorem Stored.ids_le {t : BTree n} (hg : d.Good) (h : Stored d t) : ∀ p ∈ t.ids, p ≤ d.total :=
  fun p hp => hg.le_total (h.isTree p hp).inUse

omit [Build] in
theorem leaf_same {d d' : Disk} (hg : d.Good)
    (hsame : ∀ q, q ≠ 1 → q ≤ d.total → d'.page q = d.page q) :
    ∀ p cells a b, d.page p = .leaf cells a b → d'.page p = .leaf cells a b := by
  intro p cells a b hp
  have ht : (d.page p).IsTree := by rw [hp]; trivial
  rw [hsame p (hg.ne_one ht) (hg.le_total ht.inUse), hp]

/-- A root over two halves. -/
theorem growRoot_runs {check : Check} (hc : check.Passes) {t u : BTree n} (hg : d.Good) (ht : Stored d t) (hu : Stored d u)
    (hnd : (t.ids ++ u.ids).Nodup) (hb : 1 ≤ cur.config.nodeMaxCells)
    (hft : t.Filled cur.config.bounds) (hfu : u.Filled cur.config.bounds) :
    Runs (growRootWith check t.id u.id k) d cur (fun _ d' cur' =>
      Rebuilt (m := n + 1) d d' cur cur' (t.ids ++ u.ids) (t.spine ++ .inr k :: u.spine)
        ⟨d.total + 1, [(k, t)], u⟩) := by
  obtain ⟨hd, h1⟩ := hg.sound.first
  have hpos := hg.sound.pos
  have hgc := hg.create (l := .node [] nullPage) h1
  have hnew : (d.create (.node [] nullPage) hd).page (d.total + 1) = .node [] nullPage :=
    hg.sound.create_page_new
  have hsame : ∀ q, q ≠ 1 → q ≤ d.total → (d.create (.node [] nullPage) hd).page q = d.page q :=
    fun q hq hle => Disk.create_page_of_ne hq (by omega)
  have hev : d.Evolves (d.create (.node [] nullPage) hd) (t.ids ++ u.ids) := .create hg h1
  unfold growRootWith
  refine (steps_createNodePage hg.sound h1).then ?_
  generalize d.create (.node [] nullPage) hd = e at hgc hnew hsame hev
  refine (steps_loadNode hnew).then ?_
  refine (steps_insertNodeCell (show _ = LogicalPage.node ([] ++ []) _ from hnew) (by simp) (by simp)
    (by decide)).then ?_
  refine hc.steps.then ?_
  refine (steps_setCellLeftChild (x := nullPage) (by simp) (by simp)
    (by simp)).then ?_
  refine (steps_setNodeRightChild (by simp)).then ?_
  refine Runs.mono steps_setRootPgno ?_
  rintro _ d' cur' ⟨-, rfl, rfl⟩
  rw [Disk.set_set, Disk.set_set]
  have hsame' : ∀ q, q ≠ 1 → q ≤ d.total →
      (e.set (d.total + 1) (.node [⟨k, t.id⟩] u.id)).page q = d.page q := by
    intro q hq hle
    rw [Disk.set_page_of_ne (by omega), hsame q hq hle]
  refine ⟨rfl, rfl, ⟨?_, ?_⟩, ?_, ?_, ?_, ?_, ?_, leaf_same hg hsame'⟩
  · exact isNode_map.mpr (by simp [pageCells])
  · intro v hv
    simp only [Node.kids, List.map_cons, List.map_nil, List.cons_append, List.nil_append,
      List.mem_cons, List.not_mem_nil, or_false] at hv
    rcases hv with rfl | rfl
    · exact ht.frame_le hg hsame'
    · exact hu.frame_le hg hsame'
  · rw [Tree.ids_node]
    simp only [Node.kids, List.map_cons, List.map_nil, List.cons_append, List.nil_append,
      List.flatMap_cons, List.flatMap_nil, List.append_nil]
    refine List.nodup_cons.mpr ⟨?_, hnd⟩
    intro hm
    rcases List.mem_append.mp hm with hm | hm
    · exact absurd (ht.ids_le hg _ hm) (by simp [Tree.id])
    · exact absurd (hu.ids_le hg _ hm) (by simp [Tree.id])
  · intro p hp
    rw [Tree.ids_node] at hp
    simp only [Node.kids, List.map_cons, List.map_nil, List.cons_append, List.nil_append,
      List.flatMap_cons, List.flatMap_nil, List.append_nil] at hp
    rcases List.mem_cons.mp hp with rfl | hp
    · exact .inr (by simp [Tree.id])
    · exact .inl hp
  · change [] ++ [(k, t)].flatMap (fun c => c.2.spine ++ [.inr c.1]) ++ u.spine = _
    simp
  · refine ⟨le_rfl, hb, ?_⟩
    simp [Node.kids, hft, hfu]
  · refine hev.trans hg (.set hgc ?_ (by simp) : Disk.Evolves _ _ [d.total + 1]) ?_
    · rw [hnew]
      trivial
    · intro p hp
      rw [List.mem_singleton.mp hp]
      exact .inr (by omega)

/-- Two halves about to take the place of the child that was at `hole`. -/
structure Halves (d : Disk) (cur : BTreeCursor) (c : BTreeCtx m n) (hole : Nat) (t u : BTree n)
    (k : DefaultPagerKey) : Prop where
  good : d.Good
  root_eq : c.rootId hole = cur.rootPgno
  ctx : StoredCtx d c hole
  left : Stored d t
  right : Stored d u
  nodup : (c.ids ++ (t.ids ++ u.ids)).Nodup
  ordered : Ordered LeafCell.key (c.spineL ++ (t.spine ++ .inr k :: u.spine) ++ c.spineR)
  ctx_filled : c.Filled cur.config.bounds
  left_filled : t.Filled cur.config.bounds
  right_filled : u.Filled cur.config.bounds

section Step

variable {f : BTreeFrame n} {up : BTreeCtx m (n + 1)} {t u : BTree n} {hole : Nat}

omit [Build] in
/-- The pages around the frame, each once. -/
theorem Halves.nodup_step (h : Halves d cur (.step f up) hole t u k) :
    (f.id :: (f.siblings.flatMap Tree.ids ++ up.ids ++ (t.ids ++ u.ids))).Nodup := by
  have hp := (Ctx.ids_step f up).append_right (t.ids ++ u.ids)
  exact hp.nodup_iff.mp h.nodup

omit [Build] in
theorem spine_step₂ : (Ctx.step f up).spineL ++ (t.spine ++ .inr k :: u.spine) ++
    (Ctx.step f up).spineR =
      up.spineL ++ Tree.spine (n := n + 1) (f.plug₂ t k u) ++ up.spineR := by
  rw [Frame.spine_plug₂, Ctx.spineL_step, Ctx.spineR_step]
  simp only [List.append_assoc, List.cons_append, List.nil_append]

omit [Build] in
theorem Halves.keySorted (h : Halves d cur (.step f up) hole t u k) :
    KeySorted Prod.fst (f.plug₂ t k u).cells := by
  have ho := h.ordered
  rw [spine_step₂] at ho
  refine Node.keySorted_of_ordered (ho.sublist ?_)
  exact (List.sublist_append_right _ _).trans (List.sublist_append_left _ _)

omit [Build] in
/-- The parent has room: the separator goes in beside the old ones. -/
theorem Halves.hang (h : Halves d cur (.step f up) hole t u k)
    (hsz : f.size < cur.config.nodeMaxCells) {cur' : BTreeCursor} (hcur : cur' = cur) :
    Rebuilt d (d.set f.id (.node (preCells f ++ ⟨k, t.id⟩ :: (restCells f u.id).1)
        (restCells f u.id).2)) cur cur' ((Ctx.step f up).ids ++ (t.ids ++ u.ids))
      ((Ctx.step f up).spineL ++ (t.spine ++ .inr k :: u.spine) ++ (Ctx.step f up).spineR)
      (up.plug (f.plug₂ t k u)) := by
  subst hcur
  obtain ⟨hpage, hsib, hup⟩ := storedCtx_step.mp h.ctx
  have hft : (d.page f.id).IsTree := by rw [hpage]; trivial
  have hnd := h.nodup_step
  obtain ⟨hfid, hnd'⟩ := List.nodup_cons.mp hnd
  simp only [List.mem_append, List.mem_flatMap, not_or] at hfid
  -- every page but the frame's own is as it was
  have hsame : ∀ q, q ≠ f.id → ∀ l, ((d.set f.id l).page q).core = (d.page q).core :=
    fun q hq l => by rw [Disk.set_page_of_ne hq]
  have hid : Tree.id (n := n + 1) (f.plug₂ t k u) = f.id := Frame.plug₂_id
  have hids : (up.plug (f.plug₂ t k u)).ids.Perm ((Ctx.step f up).ids ++ (t.ids ++ u.ids)) := by
    refine (Ctx.ids_plug _ _).trans (List.Perm.trans ?_ ((Ctx.ids_step f up).append_right _).symm)
    rw [Tree.ids_node, hid]
    have hk := (Frame.kids_plug₂ (f := f) (t := t) (k := k) (u := u)).flatMap_right Tree.ids
    simp only [List.flatMap_cons] at hk
    refine (List.Perm.append_left _ (hk.cons _)).trans ?_
    rw [List.perm_iff_count]
    intro a
    simp only [List.count_append, List.count_cons]
    omega
  refine ⟨?_, rfl, ?_, ?_, ?_, ?_, ?_, ?_, ?_⟩
  · rw [Ctx.id_plug, hid]
    exact h.root_eq
  · rw [stored_plug, hid]
    refine ⟨hup.frame ?_, stored_frame₂.mpr ⟨by simp, ?_, ?_, ?_⟩⟩
    · intro q hq
      refine hsame q ?_ _
      rintro rfl
      exact hfid.1.2 hq
    · refine Stored.frame h.left (fun q hq => hsame q ?_ _)
      rintro rfl
      exact hfid.2.1 hq
    · refine Stored.frame h.right (fun q hq => hsame q ?_ _)
      rintro rfl
      exact hfid.2.2 hq
    · intro v hv
      refine Stored.frame (hsib v hv) (fun q hq => hsame q ?_ _)
      rintro rfl
      exact hfid.1.1 ⟨v, hv, hq⟩
  · exact hids.nodup_iff.mpr h.nodup
  · intro p hp
    exact .inl (hids.mem_iff.mp hp)
  · rw [spine_step₂, Ctx.spine_plug]
  · obtain ⟨hlow, -, hsf, hupf⟩ := h.ctx_filled
    rw [Ctx.rootFilled_plug, Ctx.holeFilled_node, Frame.forall_kids₂, Frame.length_plug₂_cells]
    exact ⟨hupf, by omega, hsz, h.left_filled, h.right_filled, hsf⟩
  · refine .set h.good hft ?_
    exact List.mem_append_left _ (Ctx.mem_ids_step.mpr (.inl rfl))
  · intro p cells a b hp
    rw [Disk.set_page_of_ne, hp]
    rintro rfl
    rw [hpage] at hp
    cases hp

section Cut

variable {l₁ l₂ : List (DefaultPagerKey × BTree n)} {s : DefaultPagerKey × BTree n}
  {r : BTree n} {p q : Nat}

omit [Build] in
/-- Cutting a node at a cell: the children and the spine of the two parts. -/
theorem kids_cut {i : Nat} : (⟨p, l₁, s.2⟩ : Node DefaultPagerKey Nat (BTree n)).kids ++
    (⟨q, l₂, r⟩ : Node DefaultPagerKey Nat (BTree n)).kids =
      (⟨i, l₁ ++ s :: l₂, r⟩ : Node DefaultPagerKey Nat (BTree n)).kids := by
  simp [Node.kids]

omit [Build] in
theorem spine_cut {i : Nat} : Tree.spine (n := n + 1) ⟨p, l₁, s.2⟩ ++
    .inr s.1 :: Tree.spine (n := n + 1) ⟨q, l₂, r⟩ =
      (Tree.spine (n := n + 1) ⟨i, l₁ ++ s :: l₂, r⟩ : Spine) := by
  have h : (⟨i, l₁ ++ (s.1, s.2) :: l₂, r⟩ : BTreeNode n).fold Tree.spine (fun k => [.inr k])
      (fun _ => []) = (⟨p, l₁, s.2⟩ : BTreeNode n).fold Tree.spine (fun k => [.inr k]) (fun _ => []) ++
        [.inr s.1] ++ (⟨q, l₂, r⟩ : BTreeNode n).fold Tree.spine (fun k => [.inr k]) (fun _ => []) :=
    Node.fold_join
  rw [List.append_assoc] at h
  exact h.symm

end Cut

omit [Build] in
/-- The parent is full: the two nodes it was dealt out to take its place one level up. -/
theorem Halves.split (h : Halves d cur (.step f up) hole t u k) (hv : cur.config.Valid)
    (hsz : f.size = cur.config.nodeMaxCells) {l₁ l₂ : List (DefaultPagerKey × BTree n)}
    {s : DefaultPagerKey × BTree n} {r : BTree n}
    (hcut : f.plug₂ t k u = ⟨f.id, l₁ ++ s :: l₂, r⟩)
    (hh : l₁.length = (l₁ ++ s :: l₂).length / 2) {e : Disk} {l : LogicalPage}
    (he : TwoMore (d.set f.id l) e (.node (pageCells l₁) s.2.id) (.node (pageCells l₂) r.id)) :
    Halves (n := n + 1) e cur up f.id ⟨d.total + 1, l₁, s.2⟩ ⟨d.total + 2, l₂, r⟩ s.1 := by
  obtain ⟨hpage, hsib, hup⟩ := storedCtx_step.mp h.ctx
  have hft : (d.page f.id).IsTree := by rw [hpage]; trivial
  obtain ⟨hfid, hnd⟩ := List.nodup_cons.mp h.nodup_step
  simp only [List.mem_append, List.mem_flatMap, not_or] at hfid
  have hkids := Frame.kids_plug₂ (f := f) (t := t) (k := k) (u := u)
  rw [hcut] at hkids
  have hlen : (l₁ ++ s :: l₂).length = f.size + 1 := by
    rw [← Frame.length_plug₂_cells (f := f) (t := t) (k := k) (u := u), hcut]
  -- below the new pages only the frame's own page has changed
  have hsame : ∀ q, q ≠ 1 → q ≤ d.total → q ≠ f.id → e.page q = d.page q := by
    intro q h1 hle hne
    rw [he.same q h1 hle, Disk.set_page_of_ne hne]
  have hframe : ∀ v : BTree n, Stored d v → f.id ∉ v.ids → Stored e v := by
    intro v hv hne
    refine hv.frame (fun q hq => ?_)
    have htree := hv.isTree q hq
    rw [hsame q (h.good.ne_one htree) (h.good.le_total htree.inUse)]
    rintro rfl
    exact hne hq
  have hkid : ∀ v ∈ (⟨f.id, l₁ ++ s :: l₂, r⟩ : Node DefaultPagerKey Nat (BTree n)).kids,
      Stored e v ∧ v.Filled cur.config.bounds := by
    intro v hv
    have hv := hkids.mem_iff.mp hv
    simp only [List.mem_cons] at hv
    rcases hv with rfl | rfl | hv
    · exact ⟨hframe v h.left hfid.2.1, h.left_filled⟩
    · exact ⟨hframe v h.right hfid.2.2, h.right_filled⟩
    · exact ⟨hframe v (hsib v hv) (fun hm => hfid.1.1 ⟨v, hv, hm⟩), h.ctx_filled.2.2.1 v hv⟩
  rw [← kids_cut (p := d.total + 1) (q := d.total + 2), List.forall_mem_append] at hkid
  have hidsle : ∀ q ∈ f.siblings.flatMap Tree.ids ++ up.ids ++ (t.ids ++ u.ids), q ≤ d.total := by
    intro q hq
    simp only [List.mem_append, List.mem_flatMap] at hq
    rcases hq with (⟨v, hv, hq⟩ | hq) | hq | hq
    · exact (hsib v hv).ids_le h.good q hq
    · exact h.good.le_total (hup.isTree q hq).inUse
    · exact h.left.ids_le h.good q hq
    · exact h.right.ids_le h.good q hq
  refine ⟨he.good, h.root_eq, ?_, ?_, ?_, ?_, ?_, h.ctx_filled.2.2.2, ?_, ?_⟩
  · refine hup.frame (fun q hq => ?_)
    have htree := hup.isTree q hq
    rw [hsame q (h.good.ne_one htree) (h.good.le_total htree.inUse)]
    rintro rfl
    exact hfid.1.2 hq
  · exact ⟨isNode_map.mpr he.left, fun v hv => (hkid.1 v hv).1⟩
  · exact ⟨isNode_map.mpr he.right, fun v hv => (hkid.2 v hv).1⟩
  · have hflat := hkids.flatMap_right Tree.ids
    rw [← kids_cut (p := d.total + 1) (q := d.total + 2)] at hflat
    simp only [List.flatMap_append, List.flatMap_cons] at hflat
    have hperm : (up.ids ++ (Tree.ids (n := n + 1) ⟨d.total + 1, l₁, s.2⟩ ++
        Tree.ids (n := n + 1) ⟨d.total + 2, l₂, r⟩)).Perm ((d.total + 1) :: (d.total + 2) ::
          (f.siblings.flatMap Tree.ids ++ up.ids ++ (t.ids ++ u.ids))) := by
      rw [Tree.ids_node, Tree.ids_node]
      rw [List.perm_iff_count] at hflat ⊢
      intro a
      have := hflat a
      simp only [List.count_append, List.count_cons, Tree.id] at this ⊢
      omega
    rw [hperm.nodup_iff]
    refine List.nodup_cons.mpr ⟨?_, List.nodup_cons.mpr ⟨?_, hnd⟩⟩
    · intro hm
      rcases List.mem_cons.mp hm with hm | hm
      · omega
      · exact absurd (hidsle _ hm) (by omega)
    · intro hm
      exact absurd (hidsle _ hm) (by omega)
  · have ho := h.ordered
    rw [spine_step₂, hcut] at ho
    rw [spine_cut (i := f.id)]
    exact ho
  · have h1 := hv.node_split
    refine Tree.filled_node.mpr ⟨?_, ?_, fun v hv => (hkid.1 v hv).2⟩
    · simp only [BTreeConfig.bounds]
      omega
    · simp only [BTreeConfig.bounds]
      omega
  · have h1 := hv.node_split
    simp only [List.length_append, List.length_cons] at hlen hh
    refine Tree.filled_node.mpr ⟨?_, ?_, fun v hv => (hkid.2 v hv).2⟩
    · simp only [BTreeConfig.bounds]
      omega
    · simp only [BTreeConfig.bounds]
      omega

omit [Build] in
theorem Halves.setCursor {c : BTreeCtx m n}
    (h : Halves d cur c hole t u k) (st : BTreeCursorStack) : Halves d { cur with cursor := st } c hole t u k :=
  ⟨h.good, h.root_eq, h.ctx, h.left, h.right, h.nodup, h.ordered, h.ctx_filled, h.left_filled,
    h.right_filled⟩

end Step

omit [Build] in
theorem exists_cut_at {α : Type} (l : List α) (i : Nat) (hi : i < l.length) :
    ∃ l₁ s l₂, l = l₁ ++ s :: l₂ ∧ l₁.length = i :=
  ⟨l.take i, l[i], l.drop (i + 1), by simp, by simp; omega⟩

/-- The climb, by induction on the context: either the parent has room, or it splits and the same
situation arises one level up. -/
theorem insertIntoParent_runs {check : Check} (hc : check.Passes) {n : Nat} (c : BTreeCtx m n) :
    ∀ (t u : BTree n) (k : DefaultPagerKey) (hole : Nat) (d : Disk) (cur : BTreeCursor),
    cur.config.Valid → Halves d cur c hole t u k →
    Runs (insertIntoParentWith check (splitCursorNodeWith check c.path) c.path t.id u.id k) d cur
      (fun _ d' cur' =>
      ∃ (m' : Nat) (t' : BTree m'), Rebuilt d d' cur cur' (c.ids ++ (t.ids ++ u.ids))
        (c.spineL ++ (t.spine ++ .inr k :: u.spine) ++ c.spineR) t') := by
  induction c with
  | top =>
    intro t u k hole d cur hv h
    have hb : 1 ≤ cur.config.nodeMaxCells := by
      have h1 := hv.node_min
      have h2 := hv.node_split
      omega
    refine (growRoot_runs hc h.good h.left h.right h.nodup hb h.left_filled h.right_filled).mono ?_
    intro _ d' cur' hr
    refine ⟨m + 1, ⟨d.total + 1, [(k, t)], u⟩, ?_⟩
    simpa [Ctx.ids, Ctx.spineL, Ctx.spineR, Ctx.foldL, Ctx.foldR] using hr
  | step f up ih =>
    intro t u k hole d cur hv h
    obtain ⟨hpage, hsib, hup⟩ := storedCtx_step.mp h.ctx
    have hks := h.keySorted
    have hcells := keySorted_pageCells.mpr hks
    rw [pageCells_plug₂] at hcells
    have hks' : KeySorted NodeCell.key (preCells f ++ ⟨k, t.id⟩ :: (restCells f hole).1) := by
      have := hcells
      cases f <;> simpa [KeySorted, List.pairwise_append, restCells] using this
    have hsz : 1 ≤ f.size := by
      have hl := h.ctx_filled.1
      have hn := hv.node_min
      cases up <;> simp only [Ctx.lower, BTreeConfig.bounds] at hl <;> omega
    have hset : ∀ l, (d.set f.id l).page f.id = l := fun l => Disk.set_page_self
    rw [Ctx.path, insertIntoParentWith]
    refine (steps_assertPageType (by simp [hpage, LogicalPage.type?])).then ?_
    refine (assignChildrenNodes_steps hpage hks' hsz).then ?_
    refine (steps_loadNode (hset _)).then ?_
    refine steps_getSelf.then ?_
    by_cases hfull : f.size = cur.config.nodeMaxCells
    · refine Runs.ite_pos (by simpa [nodeManager] using length_cells.trans hfull) ?_
      refine steps_setCursor.then ?_
      obtain ⟨l₁, s, l₂, hcut, hh⟩ := exists_cut_at (f.plug₂ t k u).cells
        ((f.plug₂ t k u).cells.length / 2) (by rw [Frame.length_plug₂_cells]; omega)
      have hN : f.plug₂ t k u = ⟨f.id, l₁ ++ s :: l₂, (f.plug₂ t k u).right⟩ := by
        rw [← hcut, ← Frame.plug₂_id (f := f) (t := t) (k := k) (u := u)]
      rw [hcut] at hks hh
      have hgood : (d.set f.id (.node (preCells f ++ (restCells f u.id).1)
          (restCells f u.id).2)).Good := h.good.set (by rw [hpage]; trivial)
      refine splitCursorNode_runs hc (s := ⟨s.1, s.2.id⟩) (pageCells l₁) (pageCells l₂)
        hgood (hset _) (length_cells.trans hfull) hv.node_max ?_ ?_ ?_ ?_
      · have hpc : pageCells (f.plug₂ t k u).cells =
            pageCells l₁ ++ ⟨s.1, s.2.id⟩ :: pageCells l₂ := by
          rw [hcut]
          simp [pageCells]
        rw [← hpc, pageCells_plug₂]
        exact (List.perm_append_singleton _ _).trans List.perm_middle.symm
      · have := keySorted_pageCells.mpr hks
        simpa [pageCells] using this
      · simpa [pageCells] using hh
      · intro e he
        have he' := he
        rw [← right_plug₂ (t := t) (k := k)] at he'
        have hhalves := (h.split hv hfull hN hh he').setCursor
          ((f.id, f.pre.length) :: up.path)
        have hrun := ih _ _ _ _ _ { cur with cursor := (f.id, f.pre.length) :: up.path } hv hhalves
        rw [show Tree.id (n := _ + 1) ⟨d.total + 1, l₁, s.2⟩ = d.total + 1 from rfl,
          show Tree.id (n := _ + 1) ⟨d.total + 2, l₂, (f.plug₂ t k u).right⟩ = d.total + 2
            from rfl] at hrun
        rw [Disk.set_total]
        refine hrun.mono ?_
        rintro _ d' cur' ⟨m', t', hr⟩
        rw [spine_cut (i := f.id), ← hN, ← spine_step₂] at hr
        refine ⟨m', t', Rebuilt.after h.good ?_ ?_ ?_ hr ?_⟩
        · refine (Disk.Evolves.set h.good (by rw [hpage]; trivial) ?_).trans h.good
            (he.evolves hgood : Disk.Evolves _ _ []) (by simp)
          exact List.mem_append_left _ (Ctx.mem_ids_step.mpr (.inl rfl))
        · intro q cells a b hq
          refine leaf_same hgood he.same q cells a b ?_
          rw [Disk.set_page_of_ne, hq]
          rintro rfl
          rw [hpage] at hq
          cases hq
        · intro q hq
          have hflat := (Frame.kids_plug₂ (f := f) (t := t) (k := k) (u := u)).flatMap_right Tree.ids
          rw [hN, ← kids_cut (p := d.total + 1) (q := d.total + 2)] at hflat
          simp only [List.flatMap_append, List.flatMap_cons] at hflat
          have hmem := hflat.mem_iff (a := q)
          simp only [List.mem_append, List.mem_flatMap] at hmem
          simp only [Tree.ids_node, List.mem_append, List.mem_cons, Tree.id, List.mem_flatMap] at hq
          simp only [List.mem_append, Ctx.mem_ids_step]
          rcases hq with hq | (rfl | hq) | (rfl | hq)
          · exact .inl (.inl (.inr (.inr hq)))
          · exact .inr (by omega)
          · rcases hmem.mp (.inl hq) with hq | hq | hq
            · exact .inl (.inr (.inl hq))
            · exact .inl (.inr (.inr hq))
            · exact .inl (.inl (.inr (.inl hq)))
          · exact .inr (by omega)
          · rcases hmem.mp (.inr hq) with hq | hq | hq
            · exact .inl (.inr (.inl hq))
            · exact .inl (.inr (.inr hq))
            · exact .inl (.inl (.inr (.inl hq)))
        · rfl
    · refine Runs.ite_neg (by simpa [nodeManager] using fun hc => hfull (length_cells.symm.trans hc)) ?_
      have hle := h.ctx_filled.2.1
      have hlt : f.size < cur.config.nodeMaxCells := lt_of_le_of_ne hle hfull
      obtain ⟨-, hrest, hlo⟩ := List.pairwise_append.mp hcells
      have hlo : ∀ a ∈ preCells f, a.key < k := fun a ha => hlo a ha ⟨k, t.id⟩ (by simp)
      have hhi := (List.pairwise_cons.mp hrest).1
      have hroom : (preCells f ++ (restCells f u.id).1).length < nodeMaxCells := by
        rw [length_cells]
        exact hlt.trans_le hv.node_max
      refine (steps_insertNodeCell (hset _) hlo hhi hroom).then ?_
      refine hc.steps.then ?_
      refine (steps_setCellLeftChild (x := nullPage) (by simp) hlo hhi).then ?_
      refine Runs.pure ⟨m, up.plug (f.plug₂ t k u), ?_⟩
      rw [Disk.set_set, Disk.set_set]
      exact h.hang hlt rfl

end Climb

end Cpplite
