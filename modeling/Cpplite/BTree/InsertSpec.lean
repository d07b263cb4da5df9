import Cpplite.BTree.ParentSpec
import Cpplite.BTree.LinkSpec
import Cpplite.BTree.SearchSpec

/-!
`insert`: the new cell goes into the leaf where the search ended, or that leaf splits.
-/
namespace Cpplite

open Exec Search Linked HeightTree

section Around

variable {m : Nat} {d : Disk} {cur : BTreeCursor} {c : BTreeCtx m 0} {p : Nat}
  {cells : List LeafCell}

theorem leafIds_plug : leafIds (c.plug ⟨p, cells⟩).spine =
    leafIds c.spineL ++ p :: leafIds c.spineR := by
  rw [Ctx.spine_plug_leaf]
  simp

/-- The page of the leaf in the hole, with its neighbours. -/
theorem Planted.leaf_page (h : Planted d cur (c.plug ⟨p, cells⟩)) : d.page p =
    .leaf cells ((leafIds c.spineL).getLastD nullPage) ((leafIds c.spineR).headD nullPage) := by
  obtain ⟨prev, next, hp⟩ : d.IsLeaf ⟨p, cells⟩ := (stored_plug.mp h.stored).2
  have hs := h.linked
  rw [leafIds_plug] at hs
  have hl := (segment_append.mp hs).2.1
  rw [Disk.links_eq hp] at hl
  cases hl
  exact hp

theorem Planted.neighbour_page {q : Nat} {n : Nat} {t : BTree n} (h : Planted d cur t)
    (hq : q = nullPage ∨ q ∈ leafIds t.spine) :
    q = nullPage ∨ ∃ cells a b, d.page q = .leaf cells a b := by
  refine hq.imp_right ?_
  intro hq
  obtain ⟨e, he⟩ := h.linked.of_mem hq
  obtain ⟨cells, hc⟩ := Disk.links_some he
  exact ⟨cells, e.1, e.2, hc⟩

theorem Planted.leafIds_nodup {n : Nat} {t : BTree n} (h : Planted d cur t) :
    (leafIds t.spine).Nodup :=
  h.nodup.sublist t.leafIds_sublist

theorem Planted.mem_ids {n : Nat} {t : BTree n} {q : Nat} (hq : q ∈ leafIds t.spine) : q ∈ t.ids :=
  t.leafIds_sublist.subset hq

theorem Planted.frame {d' : Disk} {n : Nat} {t : BTree n} (h : Planted d cur t)
    (hsame : ∀ q ∈ t.ids, d'.page q = d.page q) : Planted d' cur t where
  root_eq := h.root_eq
  stored := h.stored.frame (fun q hq => by rw [hsame q hq])
  nodup := h.nodup
  linked := (segment_congr (fun q hq =>
    Disk.links_congr (hsame q (Planted.mem_ids hq)))).mpr h.linked
  ordered := h.ordered
  filled := h.filled

/-- Other cells in the leaf in the hole, its links as they are. -/
theorem Planted.hung {cells' : List LeafCell} (h : Planted d cur (c.plug ⟨p, cells⟩)) (hg : d.Good)
    (ho : Ordered LeafCell.key (c.spineL ++ .inl ⟨p, cells'⟩ :: c.spineR)) :
    Hung (d.set p (.leaf cells' ((leafIds c.spineL).getLastD nullPage)
      ((leafIds c.spineR).headD nullPage))) cur c (⟨p, cells'⟩ : BTreeLeaf) := by
  have hperm := Ctx.ids_plug c (⟨p, cells⟩ : BTreeLeaf)
  have hperm' := Ctx.ids_plug c (⟨p, cells'⟩ : BTreeLeaf)
  have hnd := hperm.nodup_iff.mp h.nodup
  obtain ⟨hsc, -⟩ := stored_plug.mp h.stored
  refine ⟨hg.set (by rw [h.leaf_page]; trivial), ?_, stored_plug.mpr ⟨hsc.frame ?_, ?_⟩, ?_, ?_, ?_⟩
  · rw [← h.root_eq, Ctx.id_plug, Ctx.id_plug]
    rfl
  · intro q hq
    rw [Disk.set_page_of_ne]
    rintro rfl
    exact (List.nodup_append.mp hnd).2.2 q hq q (Tree.id_mem_ids (n := 0) _) rfl
  · exact ⟨_, _, Disk.set_page_self⟩
  · rw [hperm'.nodup_iff]
    exact hnd
  · rw [Ctx.spine_plug_leaf]
    exact ho
  · exact ((Ctx.rootFilled_plug c _).mp h.filled).1

theorem Planted.linked_set {l : List LeafCell} (h : Planted d cur (c.plug ⟨p, cells⟩)) :
    Segment (d.set p (.leaf l ((leafIds c.spineL).getLastD nullPage)
      ((leafIds c.spineR).headD nullPage))).links nullPage (leafIds (c.plug ⟨p, l⟩).spine)
      nullPage := by
  have hpage := h.leaf_page
  have hs := h.linked
  rw [leafIds_plug] at hs ⊢
  refine (segment_congr ?_).mpr hs
  intro q _
  by_cases hq : q = p
  · subst hq
    rw [Disk.links_eq Disk.set_page_self, Disk.links_eq hpage]
  · exact Disk.links_congr (Disk.set_page_of_ne hq)

end Around

section SplitLeaf

variable {check : Check} {m : Nat} {d : Disk} {cur : BTreeCursor} {c : BTreeCtx m 0} {p i : Nat}
  {lo hi l₁ l₂ : List LeafCell} {v s : LeafCell} [Build]

/-- `split_cursor_leaf` up to the point where the halves are hung under the parent. -/
theorem splitCursorLeaf_fill (hc : check.Passes) {Q : Unit → Disk → BTreeCursor → Prop}
    {st : BTreeCursorStack} {prev next : Nat} (hg : d.Good) (hcur : cur.cursor = (p, i) :: st)
    (h : d.page p = .leaf (lo ++ hi) prev next)
    (hprev : prev = nullPage ∨ ∃ cells a b, d.page prev = .leaf cells a b)
    (hnext : next = nullPage ∨ ∃ cells a b, d.page next = .leaf cells a b)
    (hfull : (lo ++ hi).length = cur.config.leafMaxCells)
    (hmax : cur.config.leafMaxCells ≤ leafMaxCells)
    (hcut : lo ++ v :: hi = l₁ ++ s :: l₂) (hs : KeySorted LeafCell.key (l₁ ++ s :: l₂))
    (hh : l₁.length = ((l₁ ++ s :: l₂).length + 1) / 2) (hne : l₁ ≠ [])
    (hcont : ∀ e, TwoMore d e (.leaf l₁ nullPage nullPage) (.leaf (s :: l₂) nullPage nullPage) →
      Runs (insertIntoParentWith check (splitCursorNodeWith check st) st (d.total + 1) (d.total + 2)
        s.key) (e.linkHalves prev next (d.total + 1) (d.total + 2)) cur Q) :
    Runs (splitCursorLeafWith check v) d cur Q := by
  have hp : ((lo ++ hi) ++ [v]).Perm (l₁ ++ s :: l₂) := by
    rw [← hcut]
    exact (List.perm_append_singleton _ _).trans List.perm_middle.symm
  have hlen := congrArg List.length hcut
  simp only [List.length_append, List.length_cons] at hlen hfull
  have hpos : 0 < l₁.length := List.length_pos_iff.mpr hne
  have hmap := cellMapOf_perm (fun c => (.inr c : NodeCell ⊕ LeafCell)) hp hs
  have hkeys := splitKeys_cut (h := fun n => (n + 1) / 2)
    (m := cellMapOf LeafCell.key .inr ((lo ++ hi) ++ [v])) hp hs hh
  generalize hr : splitKeys (((lo ++ hi) ++ [v]).map LeafCell.key) (fun n => (n + 1) / 2)
    (cellMapOf LeafCell.key .inr ((lo ++ hi) ++ [v])) = res at hkeys
  have hcm : ∀ c ∈ l₁ ++ s :: l₂, res.cellMap c.key = some (.inr c) := by
    rw [hkeys]
    exact hmap
  have hleft : res.leftKeys = l₁.map LeafCell.key := by rw [hkeys]
  have hright : res.rightKeys = (s :: l₂).map LeafCell.key := by rw [hkeys]
  obtain ⟨hs1, hs2, -⟩ := List.pairwise_append.mp hs
  obtain ⟨hd, hd', h1, h1', htwo⟩ := hg.createTwo (.leaf [] nullPage nullPage)
  unfold splitCursorLeafWith
  refine steps_getSelf.then ?_
  rw [hcur]
  refine (steps_assert (.inr (by simp))).then ?_
  refine steps_topOf.then ?_
  refine (steps_assertPageType (by simp [h, LogicalPage.type?])).then ?_
  refine (steps_loadLeaf h).then ?_
  refine (steps_assert (.inr ⟨rfl, by simpa [leafManager] using hfull⟩)).then ?_
  refine Steps.then (show Steps _ d cur res d cur from ?_) ?_
  · refine (steps_loadLeaf h).then ?_
    rw [← hr]
    exact steps_pure
  rw [hright, hleft]
  refine (steps_assert (.inr (by simp))).then ?_
  refine (steps_index (a := s.key) (by simp)).then ?_
  refine (steps_createLeafPage hg.sound h1).then ?_
  refine (steps_createLeafPage (hg.create h1).sound h1').then ?_
  generalize (d.create (.leaf [] nullPage nullPage) hd).create (.leaf [] nullPage nullPage) hd' = e
    at htwo
  rw [Disk.create_total]
  refine (steps_loadLeaf htwo.left).then ?_
  refine (steps_loadLeaf htwo.right).then ?_
  refine (fillLeaf_steps hc l₁ [] e htwo.left hs1 (fun c hc => hcm c (by simp [hc]))
    (by simp only [List.nil_append]; omega)).then ?_
  rw [List.nil_append]
  have htwo := htwo.setLeft (m := .leaf l₁ nullPage nullPage) trivial
  generalize e.set (d.total + 1) (.leaf l₁ nullPage nullPage) = e at htwo
  refine (fillLeaf_steps hc (s :: l₂) [] e htwo.right hs2
    (fun c hc => hcm c (List.mem_append_right _ hc))
    (by simp only [List.nil_append, List.length_cons]; omega)).then ?_
  rw [List.nil_append]
  have htwo := htwo.setRight (m := .leaf (s :: l₂) nullPage nullPage) trivial
  generalize e.set (d.total + 2) (.leaf (s :: l₂) nullPage nullPage) = e at htwo
  have hle : ∀ q, (q = nullPage ∨ ∃ cells a b, d.page q = .leaf cells a b) → q ≤ d.total := by
    rintro q (rfl | ⟨cells, a, b, hq⟩)
    · exact Nat.zero_le _
    · exact hg.le_total (LogicalPage.IsTree.inUse (by rw [hq]; trivial))
  have hprev_le := hle prev hprev
  have hnext_le := hle next hnext
  have hlift : ∀ q, (q = nullPage ∨ ∃ cells a b, d.page q = .leaf cells a b) →
      q = nullPage ∨ ∃ cells a b, e.page q = .leaf cells a b := by
    rintro q hq
    refine hq.imp_right ?_
    rintro ⟨cells, a, b, hq⟩
    exact ⟨cells, a, b, leaf_same hg htwo.same q cells a b hq⟩
  have hfin := hcont e htwo
  rw [show (leafManager p (lo ++ hi) prev next).prevPage = prev from rfl,
    show (leafManager p (lo ++ hi) prev next).nextPage = next from rfl]
  -- the links, one after the other
  refine Runs.bind (P := fun _ d' c' => d' = e.setNext prev (d.total + 1) ∧ c' = cur)
    (relinkNext_runs htwo.good (hlift prev hprev) ?_ ⟨rfl, rfl⟩) ?_
  · intro cells a b hq
    refine (steps_loadLeaf hq).then ?_
    exact (steps_setNextPage hq).then steps_pure
  rintro _ _ cur ⟨rfl, rfl⟩
  rw [Disk.linkHalves] at hfin
  have hg1 := htwo.good.setNext (q := prev) (x := d.total + 1)
  have hnext1 := leaf_of_core (Disk.setNext_core (q := prev) (x := d.total + 1)) (hlift next hnext)
  have hl1 : (e.setNext prev (d.total + 1)).page (d.total + 1) = .leaf l₁ nullPage nullPage := by
    rw [Disk.setNext_page_of_ne (by omega), htwo.left]
  have hr1 : (e.setNext prev (d.total + 1)).page (d.total + 2) =
      .leaf (s :: l₂) nullPage nullPage := by
    rw [Disk.setNext_page_of_ne (by omega), htwo.right]
  generalize e.setNext prev (d.total + 1) = e₁ at hfin hg1 hnext1 hl1 hr1
  refine (steps_setNextPage hl1).then ?_
  rw [← Disk.setNext_eq hl1]
  have hg2 := hg1.setNext (q := d.total + 1) (x := d.total + 2)
  have hnext2 := leaf_of_core (Disk.setNext_core (q := d.total + 1) (x := d.total + 2)) hnext1
  have hl2 : (e₁.setNext (d.total + 1) (d.total + 2)).page (d.total + 1) =
      .leaf l₁ nullPage (d.total + 2) := by
    rw [Disk.setNext_eq hl1, Disk.set_page_self]
  have hr2 : (e₁.setNext (d.total + 1) (d.total + 2)).page (d.total + 2) =
      .leaf (s :: l₂) nullPage nullPage := by
    rw [Disk.setNext_page_of_ne (by omega), hr1]
  generalize e₁.setNext (d.total + 1) (d.total + 2) = e₂ at hfin hg2 hnext2 hl2 hr2
  refine (steps_setNextPage hr2).then ?_
  rw [← Disk.setNext_eq hr2]
  have hg3 := hg2.setNext (q := d.total + 2) (x := next)
  have hnext3 := leaf_of_core (Disk.setNext_core (q := d.total + 2) (x := next)) hnext2
  have hl3 : (e₂.setNext (d.total + 2) next).page (d.total + 1) =
      .leaf l₁ nullPage (d.total + 2) := by
    rw [Disk.setNext_page_of_ne (by omega), hl2]
  have hr3 : (e₂.setNext (d.total + 2) next).page (d.total + 2) =
      .leaf (s :: l₂) nullPage next := by
    rw [Disk.setNext_eq hr2, Disk.set_page_self]
  generalize e₂.setNext (d.total + 2) next = e₃ at hfin hg3 hnext3 hl3 hr3
  refine Runs.bind (P := fun _ d' c' => d' = e₃.setPrev next (d.total + 2) ∧ c' = cur)
    (relinkPrev_runs hg3 hnext3 ?_ ⟨rfl, rfl⟩) ?_
  · intro cells a b hq
    refine (steps_loadLeaf hq).then ?_
    exact (steps_setPrevPage hq).then steps_pure
  rintro _ _ cur ⟨rfl, rfl⟩
  have hl4 : (e₃.setPrev next (d.total + 2)).page (d.total + 1) =
      .leaf l₁ nullPage (d.total + 2) := by
    rw [Disk.setPrev_page_of_ne (by omega), hl3]
  have hr4 : (e₃.setPrev next (d.total + 2)).page (d.total + 2) =
      .leaf (s :: l₂) nullPage next := by
    rw [Disk.setPrev_page_of_ne (by omega), hr3]
  generalize e₃.setPrev next (d.total + 2) = e₄ at hfin hl4 hr4
  refine (steps_setPrevPage hr4).then ?_
  rw [← Disk.setPrev_eq hr4]
  have hl5 : (e₄.setPrev (d.total + 2) (d.total + 1)).page (d.total + 1) =
      .leaf l₁ nullPage (d.total + 2) := by
    rw [Disk.setPrev_page_of_ne (by omega), hl4]
  refine (steps_setPrevPage hl5).then ?_
  rw [← Disk.setPrev_eq hl5]
  exact hfin

omit [Build] in
/-- The halves of a leaf, linked in and ready to be hung. -/
theorem Planted.halves (hg : d.Good) (hv : cur.config.Valid)
    (hT : Planted d cur (c.plug ⟨p, lo ++ hi⟩)) (hk : Locates c v.key)
    (hlo : ∀ a ∈ lo, a.key < v.key) (hhi : ∀ b ∈ hi, v.key < b.key)
    (hfull : (lo ++ hi).length = cur.config.leafMaxCells)
    (hcut : lo ++ v :: hi = l₁ ++ s :: l₂) (hh : l₁.length = ((l₁ ++ s :: l₂).length + 1) / 2)
    {e : Disk} (he : TwoMore d e (.leaf l₁ nullPage nullPage) (.leaf (s :: l₂) nullPage nullPage)) :
    Halves (n := 0) (e.linkHalves ((leafIds c.spineL).getLastD nullPage)
      ((leafIds c.spineR).headD nullPage) (d.total + 1) (d.total + 2)) cur c p
      ⟨d.total + 1, l₁⟩ ⟨d.total + 2, s :: l₂⟩ s.key := by
  obtain ⟨hsc, -⟩ := stored_plug.mp hT.stored
  have hlen := congrArg List.length hcut
  simp only [List.length_append, List.length_cons] at hlen hfull hh
  have hmin := hv.leaf_min
  have hspl := hv.leaf_split
  have hidle : ∀ q ∈ c.ids, q ≤ d.total := fun q hq => hg.le_total (hsc.isTree q hq).inUse
  have hcore : ∀ {q x y : Nat}, ((e.linkHalves x y (d.total + 1) (d.total + 2)).page q).core =
      (e.page q).core := Disk.linkHalves_core
  have hnd := (Ctx.ids_plug c (⟨p, lo ++ hi⟩ : BTreeLeaf)).nodup_iff.mp hT.nodup
  obtain ⟨hfc, -⟩ := (Ctx.rootFilled_plug c _).mp hT.filled
  refine ⟨he.good.linkHalves, ?_, ?_, ?_, ?_, ?_, ?_, hfc, ?_, ?_⟩
  · rw [← hT.root_eq, Ctx.id_plug]
    rfl
  · refine hsc.frame (fun q hq => ?_)
    have ht := hsc.isTree q hq
    rw [hcore, he.same q (hg.ne_one ht) (hidle q hq)]
  · exact Disk.IsLeaf.frame (d := e) (l := ⟨d.total + 1, l₁⟩) ⟨_, _, he.left⟩ hcore
  · exact Disk.IsLeaf.frame (d := e) (l := ⟨d.total + 2, s :: l₂⟩) ⟨_, _, he.right⟩ hcore
  · refine List.nodup_append.mpr ⟨(List.nodup_append.mp hnd).1, ?_, ?_⟩
    · change [d.total + 1, d.total + 2].Nodup
      simp
    · intro a ha b hb
      have hle := hidle a ha
      change b ∈ [d.total + 1, d.total + 2] at hb
      simp only [List.mem_cons, List.not_mem_nil, or_false] at hb
      omega
  · have ho := hT.ordered
    rw [Ctx.spine_plug_leaf] at ho
    have ho := ho.insert (q := p) hk.left hk.right hlo hhi
    rw [hcut] at ho
    obtain ⟨a, l, rfl⟩ : ∃ a l, l₁ = a :: l := by
      cases l₁ with
      | nil =>
        rw [List.length_nil] at hh
        omega
      | cons a l => exact ⟨a, l, rfl⟩
    have ho := ho.cut (q := d.total + 1) (i := d.total + 2)
    change Ordered LeafCell.key (c.spineL ++ ([.inl ⟨d.total + 1, a :: l⟩] ++
      .inr s.key :: [.inl ⟨d.total + 2, s :: l₂⟩]) ++ c.spineR)
    simpa using ho
  · change cur.config.leafMinCells ≤ l₁.length ∧ l₁.length ≤ cur.config.leafMaxCells
    omega
  · change cur.config.leafMinCells ≤ (s :: l₂).length ∧ (s :: l₂).length ≤ cur.config.leafMaxCells
    rw [List.length_cons]
    omega

/-- A full leaf splits in two new ones, and its own page is left as it was. -/
theorem splitCursorLeaf_runs (hc : check.Passes) (hg : d.Good) (hv : cur.config.Valid)
    (hT : Planted d cur (c.plug ⟨p, lo ++ hi⟩)) (hcur : cur.cursor = (p, i) :: c.path)
    (hk : Locates c v.key) (hlo : ∀ a ∈ lo, a.key < v.key) (hhi : ∀ b ∈ hi, v.key < b.key)
    (hfull : (lo ++ hi).length = cur.config.leafMaxCells) :
    Runs (splitCursorLeafWith check v) d cur (fun _ d' cur' => ∃ (m' : Nat) (t' : BTree m'),
      Updated d d' cur cur' c.ids t' ∧
      entries t'.spine = entries c.spineL ++ (lo ++ v :: hi) ++ entries c.spineR) := by
  have hmin := hv.leaf_min
  have hspl := hv.leaf_split
  have hlenS : (lo ++ v :: hi).length = cur.config.leafMaxCells + 1 := by
    rw [← hfull]
    simp
    omega
  obtain ⟨l₁, s, l₂, hcut, hh⟩ := exists_cut_at (lo ++ v :: hi) (((lo ++ v :: hi).length + 1) / 2)
    (by omega)
  rw [hcut] at hh
  have hne : l₁ ≠ [] := by
    rintro rfl
    simp only [List.nil_append, List.length_nil, List.length_cons] at hh
    omega
  have hsorted : KeySorted LeafCell.key (l₁ ++ s :: l₂) := by
    have ho := hT.ordered
    rw [Ctx.spine_plug_leaf] at ho
    have ho := (ho.insert (q := p) hk.left hk.right hlo hhi).keySorted_entries
    rw [hcut, entries_append, entries_leaf] at ho
    exact ho.sublist ((List.sublist_append_left _ _).trans (List.sublist_append_right _ _))
  have hprevmem := getLastD_mem_or (leafIds c.spineL) nullPage
  have hnextmem := headD_mem_or (leafIds c.spineR) nullPage
  have hleaf : leafIds (c.plug ⟨p, lo ++ hi⟩).spine = leafIds c.spineL ++ p :: leafIds c.spineR :=
    leafIds_plug
  have hinL : ∀ q ∈ leafIds c.spineL, q ∈ leafIds (c.plug ⟨p, lo ++ hi⟩).spine := by
    intro q hq
    rw [hleaf]
    exact List.mem_append_left _ hq
  have hinR : ∀ q ∈ leafIds c.spineR, q ∈ leafIds (c.plug ⟨p, lo ++ hi⟩).spine := by
    intro q hq
    rw [hleaf]
    exact List.mem_append_right _ (List.mem_cons_of_mem _ hq)
  have hctx : ∀ q ∈ leafIds c.spineL ++ leafIds c.spineR, q ∈ c.ids := by
    intro q hq
    have hmem : q ∈ (c.plug (⟨p, lo ++ hi⟩ : BTreeLeaf)).ids :=
      Planted.mem_ids ((List.mem_append.mp hq).elim (hinL q) (hinR q))
    rw [(Ctx.ids_plug c _).mem_iff, List.mem_append] at hmem
    refine hmem.resolve_right ?_
    intro hp
    obtain rfl := List.mem_singleton.mp hp
    have hnd := hT.leafIds_nodup
    rw [hleaf, List.perm_middle.nodup_iff] at hnd
    exact (List.nodup_cons.mp hnd).1 hq
  refine splitCursorLeaf_fill hc hg hcur hT.leaf_page
    (hT.neighbour_page (hprevmem.imp_right (hinL _))) (hT.neighbour_page (hnextmem.imp_right (hinR _)))
    hfull hv.leaf_max hcut hsorted hh hne ?_
  intro e he
  have hhalves := hT.halves hg hv hk hlo hhi hfull hcut hh he
  refine (insertIntoParent_runs hc c _ _ _ _ _ _ hv hhalves).mono ?_
  rintro _ d' cur' ⟨m', t', hr⟩
  refine ⟨m', t', hr.updated rfl hg ?_ ?_ hhalves.ordered ?_, ?_⟩
  · -- the pages written are the two new ones and the neighbours
    refine (he.evolves hg).trans hg (Disk.Evolves.linkHalves (s := (d.total + 1) :: (d.total + 2) ::
      (leafIds c.spineL ++ leafIds c.spineR)) he.good (hprevmem.imp_right ?_)
      (hnextmem.imp_right ?_) (by simp) (by simp)) ?_
    · exact fun h => List.mem_cons_of_mem _ (List.mem_cons_of_mem _ (List.mem_append_left _ h))
    · exact fun h => List.mem_cons_of_mem _ (List.mem_cons_of_mem _ (List.mem_append_right _ h))
    · intro q hq
      simp only [List.mem_cons] at hq
      rcases hq with rfl | rfl | hq
      · exact .inr (by omega)
      · exact .inr (by omega)
      · exact .inl (hctx q hq)
  · intro q hq
    rcases List.mem_append.mp hq with hq | hq
    · exact .inl hq
    · change q ∈ [d.total + 1, d.total + 2] at hq
      simp only [List.mem_cons, List.not_mem_nil, or_false] at hq
      exact .inr (by omega)
  · have hseg := hT.linked
    have hnd := hT.leafIds_nodup
    have htree : ∀ q ∈ leafIds (c.plug ⟨p, lo ++ hi⟩).spine, (d.page q).IsTree :=
      fun q hq => hT.stored.isTree q (Planted.mem_ids hq)
    rw [hleaf] at hseg hnd htree
    have hle : ∀ q ∈ leafIds c.spineL ++ p :: leafIds c.spineR, q ≤ d.total :=
      fun q hq => hg.le_total (htree q hq).inUse
    have hres := segment_linkHalves (e := e) hseg hnd
      (fun h0 => hg.ne_zero (htree _ h0).inUse.1 rfl) (fun h => absurd (hle _ h) (by omega))
      (fun h => absurd (hle _ h) (by omega)) (by simp [nullPage]) (by simp [nullPage]) (by omega)
      (fun q hq => Disk.links_congr (he.same q (hg.ne_one (htree q hq)) (hle q hq)))
      (Disk.links_eq he.left) (Disk.links_eq he.right)
    change Segment _ _ (leafIds (c.spineL ++ ([.inl ⟨d.total + 1, l₁⟩] ++
      .inr s.key :: [.inl ⟨d.total + 2, s :: l₂⟩]) ++ c.spineR)) _
    simpa using hres
  · rw [hr.spine_eq, hcut]
    change entries (c.spineL ++ ([.inl ⟨d.total + 1, l₁⟩] ++
      .inr s.key :: [.inl ⟨d.total + 2, s :: l₂⟩]) ++ c.spineR) = _
    simp

end SplitLeaf

section Insert

variable {n : Nat} {d : Disk} {cur : BTreeCursor} {t : BTree n} {k : DefaultPagerKey}
  {value : List Byte} {chunks : List (List Byte)} [Build]

/-- What a successful `insert` leaves: one cell more, whose chain carries the value's chunks on
pages that were not in use. -/
structure Inserted (d d' : Disk) (cur cur' : BTreeCursor) {n m : Nat} (t : BTree n) (t' : BTree m)
    (k : DefaultPagerKey) (value : List Byte) (chunks : List (List Byte)) (v : LeafCell)
    (pages : List Nat) : Prop where
  updated : Updated d d' cur cur' t.ids t'
  placed : Placed cur' t'
  entries_eq : ∃ A B, entries t.spine = A ++ B ∧ entries t'.spine = A ++ v :: B
  key_eq : v.key = k
  size_eq : v.payloadSize = value.length % 2 ^ 32
  chain : d'.OverflowChain v.recordPage pages chunks.flatten
  fresh : ∀ p ∈ pages, ¬ (d.page p).InUse

omit [Build] in
theorem Updated.standing {d' : Disk} {cur' : BTreeCursor} {ids : List Nat} {m : Nat} {t' : BTree m}
    (h : Updated d d' cur cur' ids t') (hv : cur.config.Valid) (hp : Placed cur' t') :
    Standing d' cur' t' :=
  ⟨h.evolves.good, by rw [h.config_eq]; exact hv, h.planted, hp⟩

omit [Build] in
theorem Inserted.standing {d' : Disk} {cur' : BTreeCursor} {m : Nat} {t' : BTree m} {v : LeafCell}
    {pages : List Nat} (h : Inserted d d' cur cur' t t' k value chunks v pages)
    (hs : Standing d cur t) : Standing d' cur' t' :=
  h.updated.standing hs.valid h.placed

omit [Build] in
theorem takenPages_not_inUse {fl : List Nat} {N : Nat} (hg : d.Good) (hf : d.FreeList fl) :
    ∀ p ∈ takenPages fl d.total N, ¬ (d.page p).InUse := by
  intro p hp hu
  exact notMem_takenPages hg.sound hf hu.1 hu.2 hp

omit [Build] in
theorem ChainWritten.tree_same {d' : Disk} {fl : List Nat} {rp : Nat} (hg : d.Good)
    (hf : d.FreeList fl) (hw : ChainWritten d d' chunks rp fl) (hs : Stored d t) :
    ∀ p ∈ t.ids, d'.page p = d.page p := by
  intro p hp
  have ht := hs.isTree p hp
  exact hw.same p (hg.ne_one ht) (notMem_takenPages hg.sound hf ht.inUse.1 ht.inUse.2)

omit [Build] in
/-- The tree after a cell went into a leaf with room. -/
theorem Planted.insert_leaf {m p rp : Nat} {c : BTreeCtx m 0} {lo hi : List LeafCell}
    {fl : List Nat} {e : Disk} (hg : d.Good) (hT : Planted d cur (c.plug ⟨p, lo ++ hi⟩))
    (hk : Locates c k) (hlo : ∀ a ∈ lo, a.key < k) (hhi : ∀ b ∈ hi, k < b.key)
    (hroom : (lo ++ hi).length < cur.config.leafMaxCells)
    (hf : d.FreeList fl) (hw : ChainWritten d e chunks rp fl) {cur' : BTreeCursor}
    (hcur : cur' = { cur with cursor := (p, lo.length) :: c.path }) :
    Inserted d (e.set p (.leaf (lo ++ ⟨value.length % 2 ^ 32, k, rp⟩ :: hi)
        ((leafIds c.spineL).getLastD nullPage) ((leafIds c.spineR).headD nullPage))) cur cur'
      (c.plug ⟨p, lo ++ hi⟩) (c.plug ⟨p, lo ++ ⟨value.length % 2 ^ 32, k, rp⟩ :: hi⟩) k value
      chunks ⟨value.length % 2 ^ 32, k, rp⟩ (takenPages fl d.total chunks.length) := by
  have hsame := hw.tree_same hg hf hT.stored
  have hTe := hT.frame hsame
  have hpt := hTe.leaf_page
  have ho := hT.ordered
  rw [Ctx.spine_plug_leaf] at ho
  have ho' := ho.insert (v := (⟨value.length % 2 ^ 32, k, rp⟩ : LeafCell)) (q := p) hk.left hk.right
    hlo hhi
  have hlen : (lo ++ (⟨value.length % 2 ^ 32, k, rp⟩ : LeafCell) :: hi).length =
      (lo ++ hi).length + 1 := by
    simp
    omega
  have hfill : c.HoleFilled cur.config.bounds
      (⟨p, lo ++ ⟨value.length % 2 ^ 32, k, rp⟩ :: hi⟩ : BTreeLeaf) := by
    have hold := ((Ctx.rootFilled_plug c _).mp hT.filled).2
    cases c with
    | top =>
      change (lo ++ (⟨value.length % 2 ^ 32, k, rp⟩ : LeafCell) :: hi).length ≤ _
      rw [hlen]
      exact hroom
    | step f up =>
      change _ ≤ (lo ++ hi).length ∧ _ at hold
      change _ ≤ (lo ++ (⟨value.length % 2 ^ 32, k, rp⟩ : LeafCell) :: hi).length ∧ _ ≤ _
      rw [hlen]
      exact ⟨hold.1.trans (Nat.le_succ _), hroom⟩
  have hev : d.Evolves _ (c.plug ⟨p, lo ++ hi⟩).ids := .of_chainWritten hg hf hw
  have hpl := (hTe.hung hev.good ho').planted hTe.linked_set hfill
  have hmem : p ∈ (c.plug (⟨p, lo ++ hi⟩ : BTreeLeaf)).ids :=
    (Ctx.ids_plug c _).mem_iff.mpr (List.mem_append_right _ (Tree.id_mem_ids (n := 0) _))
  subst hcur
  refine ⟨⟨hpl.setCursor _, rfl, ?_, ?_⟩, .inr ⟨c, _, lo.length, rfl, rfl⟩, ?_, rfl,
    rfl, ?_, takenPages_not_inUse hg hf⟩
  · intro q hq
    rw [(Ctx.ids_plug c _).mem_iff] at hq ⊢
    exact .inl hq
  · exact hev.trans hg (.set hev.good (by rw [hpt]; trivial) hmem) (fun q hq => .inl hq)
  · refine ⟨entries c.spineL ++ lo, hi ++ entries c.spineR, ?_, ?_⟩ <;>
      simp [Ctx.spine_plug_leaf]
  · refine hw.chain.frame ?_
    intro q hq
    refine Disk.set_page_of_ne ?_
    rintro rfl
    have hu : (d.page q).InUse := (hT.stored.isTree q hmem).inUse
    exact takenPages_not_inUse hg hf q hq hu

/-- The leaf that `k` belongs to takes the new cell as it is, with its value's chain below it. -/
def RoomTaken (d d' : Disk) (cur cur' : BTreeCursor) (t : BTree n) (k : DefaultPagerKey)
    (value : List Byte) (chunks : List (List Byte)) (fl : List Nat) : Prop :=
  ∃ (c : BTreeCtx n 0) (p : Nat) (lo hi : List LeafCell) (e : Disk) (rp : Nat),
    c.plug ⟨p, lo ++ hi⟩ = t ∧ ChainWritten d e chunks rp fl ∧
    d' = e.set p (.leaf (lo ++ ⟨value.length % 2 ^ 32, k, rp⟩ :: hi)
      ((leafIds c.spineL).getLastD nullPage) ((leafIds c.spineR).headD nullPage)) ∧
    Inserted d d' cur cur' t (c.plug ⟨p, lo ++ ⟨value.length % 2 ^ 32, k, rp⟩ :: hi⟩) k value chunks
      ⟨value.length % 2 ^ 32, k, rp⟩ (takenPages fl d.total chunks.length)

/-- `insert` of a new key: into the leaf where there is room, by a split where the leaf is full. -/
theorem insertWith_exact {check : Check} (hc : check.Passes) {fl : List Nat} (hg : d.Good)
    (hv : cur.config.Valid) (hT : Planted d cur t) (hf : d.FreeList fl)
    (hk : ∀ v ∈ entries t.spine, v.key ≠ k) (hch : payloadChunks value = some chunks) :
    Runs (insertWith check k value) d cur (fun _ d' cur' =>
      (RoomTaken d d' cur cur' t k value chunks fl ∨
        ∃ (c : BTreeCtx n 0) (l : BTreeLeaf), c.plug l = t ∧ Locates c k ∧
          l.cells.length = cur.config.leafMaxCells ∧
        ∃ (m : Nat) (t' : BTree m) (v : LeafCell) (pages : List Nat),
          Inserted d d' cur cur' t t' k value chunks v pages ∧ Updated d d' cur cur' c.ids t') ∧
      Steps (moveToKey k) d' cur' true d' cur') := by
  unfold insertWith
  refine (moveToKey_runs hg hT).bind ?_
  rintro found d cur' ⟨rfl, c, ⟨p, cells⟩, i, harr⟩
  obtain ⟨rfl, hloc, hfind, rfl⟩ := harr
  have hsorted : KeySorted LeafCell.key cells := hT.keySorted_leaf
  have hnot : ∀ v ∈ cells, v.key ≠ k := by
    intro v hv heq
    obtain ⟨w, hw, hwk⟩ := (hloc.entries_iff (l := ⟨p, cells⟩)).mpr ⟨v, hv, heq⟩
    exact hk w hw hwk
  rcases findKey_cases hsorted k with ⟨lo, w, hi, rfl, hwk, -⟩ | ⟨lo, hi, rfl, hlo, hhi, hfk⟩
  · exact absurd hwk (hnot w (by simp))
  rw [hfind] at hfk
  cases hfk
  have hpage := hT.leaf_page
  have hT' := hT.setCursor ((p, lo.length) :: c.path)
  refine Runs.ite_neg (by decide) ?_
  refine steps_getSelf.then ?_
  refine (steps_assert (.inr (by simp))).then ?_
  refine steps_topOf.then ?_
  refine (steps_assertPageType (by simp [hpage, LogicalPage.type?])).then ?_
  refine (steps_loadLeaf hpage).then ?_
  refine (steps_assert (.inr rfl)).then ?_
  by_cases hroom : (lo ++ hi).length < cur.config.leafMaxCells
  · refine Runs.ite_pos hroom ?_
    have hm : (lo ++ hi).length < leafMaxCells := hroom.trans_le hv.leaf_max
    refine (runs_lift (R := fun res d' => res.1 = true ∧ ∃ e rp, ChainWritten d e chunks rp fl ∧
      d' = e.set p (.leaf (lo ++ ⟨value.length % 2 ^ 32, k, rp⟩ :: hi)
        ((leafIds c.spineL).getLastD nullPage) ((leafIds c.spineR).headD nullPage))) ?_).bind ?_
    · rintro s rfl
      exact insertCell_spec hg.sound hf hch hpage hlo hhi hm
    rintro ⟨ok, lpm⟩ d' cur' ⟨⟨hok, e, rp, hw, rfl⟩, rfl⟩
    obtain rfl : ok = true := hok
    have hins : Inserted d _ cur _ (c.plug ⟨p, lo ++ hi⟩) _ k value chunks _ _ :=
      hT.insert_leaf hg hloc hlo hhi hroom hf hw rfl
    refine hc.steps.mono ?_
    rintro _ d' cur' ⟨-, rfl, rfl⟩
    refine ⟨.inl ⟨c, p, lo, hi, e, rp, rfl, hw, rfl, hins⟩, ?_⟩
    have hfk : findKey LeafCell.key k (lo ++ ⟨value.length % 2 ^ 32, k, rp⟩ :: hi) =
        (true, lo.length) := findKey_found (c := (⟨value.length % 2 ^ 32, k, rp⟩ : LeafCell)) hlo hhi
    exact moveToKey_stays hins.updated.evolves.good hins.updated.planted ⟨rfl, hloc, hfk, rfl⟩
  · have hfull : (lo ++ hi).length = cur.config.leafMaxCells := by
      have hold := ((Ctx.rootFilled_plug c _).mp hT.filled).2
      refine le_antisymm ?_ (not_lt.mp hroom)
      cases c with
      | top => exact hold
      | step f up => exact hold.2
    refine Runs.ite_neg hroom ?_
    refine (steps_assert (.inr hfull)).then ?_
    refine (runs_lift (R := fun rp d' => ChainWritten d d' chunks rp fl) ?_).bind ?_
    · rintro s rfl
      exact createOverflowPage_spec hg.sound hf hch
    rintro rp e cur' ⟨hw, rfl⟩
    have hge : d.Evolves e c.ids := .of_chainWritten hg hf hw
    have hTe := hT'.frame (hw.tree_same hg hf hT.stored)
    have hv' : ({ cur with cursor := (p, lo.length) :: c.path } : BTreeCursor).config.Valid := hv
    refine (splitCursorLeaf_runs hc (v := ⟨value.length % 2 ^ 32, k, rp⟩) hge.good hv' hTe rfl hloc hlo hhi
      hfull).bind ?_
    rintro _ d' cur₁ ⟨m, t', hup, hent⟩
    refine (moveToKey_runs (k := k) hup.evolves.good hup.planted).bind ?_
    rintro found d' cur' ⟨rfl, c', l', i', harr⟩
    have hfound : found = true := by
      rw [harr.found_iff hup.planted, hent]
      exact ⟨⟨value.length % 2 ^ 32, k, rp⟩, by simp, rfl⟩
    refine (steps_assert (.inr hfound)).mono ?_
    rintro _ d' cur' ⟨-, rfl, rfl⟩
    have hafter : Updated d d' cur cur₁ c.ids t' := hup.after hg hge (by rfl)
    have hup' := hafter.setCursor ((l'.id, i') :: c'.path)
    have hctx : ∀ q ∈ c.ids, q ∈ (c.plug (⟨p, lo ++ hi⟩ : BTreeLeaf)).ids :=
      fun q hq => (Ctx.ids_plug c _).mem_iff.mpr (List.mem_append_left _ hq)
    rw [← harr.cursor] at hup'
    have hstay : Steps (moveToKey k) d' cur' true d' cur' := by
      rw [hfound] at harr
      exact moveToKey_stays hup'.evolves.good hup'.planted harr.again
    refine ⟨.inr ⟨c, ⟨p, lo ++ hi⟩, rfl, hloc, hfull, m, t', ⟨value.length % 2 ^ 32, k, rp⟩,
      takenPages fl d.total chunks.length, ⟨hup'.mono hctx, harr.placed,
      ⟨entries c.spineL ++ lo, hi ++ entries c.spineR, ?_, ?_⟩, rfl, rfl, ?_,
      takenPages_not_inUse hg hf⟩, hup'⟩, hstay⟩
    · simp [Ctx.spine_plug_leaf]
    · rw [hent]
      simp
    · refine hw.chain.frame ?_
      intro q hq
      obtain ⟨-, hq1, -, q', c', hq'⟩ := overflow_bounds hw.sound hw.chain q hq
      refine hup.evolves.same q hq1 ?_ (by rw [hq']; simp [LogicalPage.InUse])
      intro hm
      exact takenPages_not_inUse hg hf q hq (hT.stored.isTree q (hctx q hm)).inUse

theorem insert_exact {fl : List Nat} (hg : d.Good) (hv : cur.config.Valid) (hT : Planted d cur t)
    (hf : d.FreeList fl) (hk : ∀ v ∈ entries t.spine, v.key ≠ k)
    (hch : payloadChunks value = some chunks) :
    Runs (insert k value) d cur (fun _ d' cur' => RoomTaken d d' cur cur' t k value chunks fl ∨
      ∃ (c : BTreeCtx n 0) (l : BTreeLeaf), c.plug l = t ∧ Locates c k ∧
        l.cells.length = cur.config.leafMaxCells ∧
      ∃ (m : Nat) (t' : BTree m) (v : LeafCell) (pages : List Nat),
        Inserted d d' cur cur' t t' k value chunks v pages ∧ Updated d d' cur cur' c.ids t') := by
  have h := insertWith_exact Check.ignore_passes hg hv hT hf hk hch
  rw [insertWith_ignore] at h
  exact h.mono (fun _ _ _ h => h.1)

/-- An `insert` that stops where a cell is dropped never has to, and its cursor is where a search
for the new key would leave it. -/
theorem insertWith_runs {check : Check} (hc : check.Passes) (hg : d.Good) (hv : cur.config.Valid)
    (hT : Planted d cur t) (hk : ∀ v ∈ entries t.spine, v.key ≠ k)
    (hch : payloadChunks value = some chunks) :
    Runs (insertWith check k value) d cur (fun _ d' cur' =>
      (∃ (m : Nat) (t' : BTree m) (v : LeafCell) (pages : List Nat),
        Inserted d d' cur cur' t t' k value chunks v pages) ∧
      Steps (moveToKey k) d' cur' true d' cur') := by
  obtain ⟨fl, hf⟩ := hg.free
  refine (insertWith_exact hc hg hv hT hf hk hch).mono ?_
  rintro _ d' cur' ⟨⟨c, p, lo, hi, e, rp, -, -, -, hi'⟩ |
    ⟨c, l, -, -, -, m, t', v, pages, hi', -⟩, hstay⟩
  · exact ⟨⟨_, _, _, _, hi'⟩, hstay⟩
  · exact ⟨⟨m, t', v, pages, hi'⟩, hstay⟩

theorem insert_runs (hg : d.Good) (hv : cur.config.Valid) (hT : Planted d cur t)
    (hk : ∀ v ∈ entries t.spine, v.key ≠ k) (hch : payloadChunks value = some chunks) :
    Runs (insert k value) d cur (fun _ d' cur' => ∃ (m : Nat) (t' : BTree m) (v : LeafCell)
      (pages : List Nat), Inserted d d' cur cur' t t' k value chunks v pages) := by
  have h := insertWith_runs Check.ignore_passes hg hv hT hk hch
  rw [insertWith_ignore] at h
  exact h.mono (fun _ _ _ h => h.1)

/-- An `insert` that raises has moved the cursor and done nothing else: the key was there, or the
value's chunking loop never ends. -/
theorem insert_fails (hs : Standing d cur t)
    (h : (∃ v ∈ entries t.spine, v.key = k) ∨ payloadChunks value = none) :
    Fails (insert k value) d cur (fun e d' cur' =>
      (e = .runtimeError "[btree:insert]: Duplicate key" ∨ e = .diverges) ∧ d' = d ∧
        Standing d cur' t ∧ cur'.config = cur.config) := by
  have hT := hs.planted
  unfold insert
  refine Fails.bind (moveToKey_runs (k := k) hs.good hT) ?_
  rintro found d cur' ⟨rfl, c, ⟨p, cells⟩, i, harr⟩
  have hfound := harr.found_iff hT
  have hcfg : cur'.config = cur.config := by rw [harr.cursor]
  by_cases hk : ∃ v ∈ entries t.spine, v.key = k
  · exact Fails.ite_pos (hfound.mpr hk) (fails_throw ⟨.inl rfl, rfl, harr.standing hs, hcfg⟩)
  have hch := h.resolve_left hk
  refine Fails.ite_neg (fun hf => hk (hfound.mp hf)) ?_
  have hst := harr.standing hs
  obtain ⟨rfl, hloc, hfind, rfl⟩ := harr
  have hpage : d.page p = .leaf cells _ _ := hT.leaf_page
  refine steps_getSelf.then_fails ?_
  refine (steps_assert (.inr (by simp))).then_fails ?_
  refine steps_topOf.then_fails ?_
  refine (steps_assertPageType (by simp [hpage, LogicalPage.type?])).then_fails ?_
  refine (steps_loadLeaf hpage).then_fails ?_
  refine (steps_assert (.inr rfl)).then_fails ?_
  by_cases hroom : cells.length < cur.config.leafMaxCells
  · refine Fails.ite_pos hroom ?_
    have hnf : found = false := by
      rw [← Bool.not_eq_true, hfound]
      exact hk
    subst hnf
    refine (fails_lift ?_ ⟨.inr rfl, rfl, hst, rfl⟩).bind_left
    exact fun s _ => insertCell_diverges hfind (hroom.trans_le hs.valid.leaf_max) hch
  · refine Fails.ite_neg hroom ?_
    have hfull : cells.length = cur.config.leafMaxCells := by
      have hold := (Ctx.holeFilled_leaf.mp ((Ctx.rootFilled_plug c _).mp hT.filled).2).2
      exact le_antisymm hold (not_lt.mp hroom)
    refine (steps_assert (.inr hfull)).then_fails ?_
    refine (fails_lift ?_ ⟨.inr rfl, rfl, hst, rfl⟩).bind_left
    exact fun s _ => createOverflowPage_diverges hch

end Insert

end Cpplite
