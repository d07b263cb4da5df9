import Cpplite.BTree.Checked
import Cpplite.BTree.SearchSpec

/-!
Splits. A full page and one more cell are dealt out to two new pages; the separator
between them goes into the parent, which may split in turn, up to a new root.
-/
namespace Cpplite

open Exec Search Linked HeightTree

/-! ### Dealing out the cells -/

section Deal

variable {α : Type} {key : α → DefaultPagerKey} {inj : α → NodeCell ⊕ LeafCell}
  {cells sorted : List α}

theorem insertionSort_keys (hp : cells.Perm sorted) (hs : KeySorted key sorted) :
    (cells.map key).insertionSort (· ≤ ·) = sorted.map key := by
  have hle : (sorted.map key).Pairwise (· ≤ ·) := by
    rw [List.pairwise_map]
    exact hs.imp (fun h => h.le)
  refine List.Perm.eq_of_pairwise' (List.pairwise_insertionSort _ _) hle ?_
  exact (List.perm_insertionSort _ _).trans (hp.map key)

theorem foldl_update_of_notMem (k : DefaultPagerKey) (hk : k ∉ cells.map key)
    (m : DefaultPagerKey → Option (NodeCell ⊕ LeafCell)) :
    cells.foldl (fun m c => Function.update m (key c) (some (inj c))) m k = m k := by
  induction cells generalizing m with
  | nil => rfl
  | cons c cs ih =>
    simp only [List.map_cons, List.mem_cons, not_or] at hk
    rw [List.foldl_cons, ih hk.2, Function.update_of_ne hk.1]

theorem cellMapOf_eq (hnd : (cells.map key).Nodup) {c : α} (hc : c ∈ cells) :
    cellMapOf key inj cells (key c) = some (inj c) := by
  unfold cellMapOf
  generalize (fun _ => none : DefaultPagerKey → Option (NodeCell ⊕ LeafCell)) = m
  induction cells generalizing m with
  | nil => cases hc
  | cons a as ih =>
    rw [List.map_cons, List.nodup_cons] at hnd
    rw [List.foldl_cons]
    rcases List.mem_cons.mp hc with rfl | hc
    · rw [foldl_update_of_notMem _ hnd.1, Function.update_self]
    · exact ih hnd.2 hc _

theorem nodup_keys (hp : cells.Perm sorted) (hs : KeySorted key sorted) :
    (cells.map key).Nodup := by
  rw [(hp.map key).nodup_iff, List.Nodup, List.pairwise_map]
  exact hs.imp (fun h => h.ne)

/-- Every cell of the sorted list is found again under its key. -/
theorem cellMapOf_perm (inj : α → NodeCell ⊕ LeafCell) (hp : cells.Perm sorted) (hs : KeySorted key sorted) :
    ∀ c ∈ sorted, cellMapOf key inj cells (key c) = some (inj c) :=
  fun _ hc => cellMapOf_eq (nodup_keys hp hs) (hp.mem_iff.mpr hc)

end Deal

section Fill

variable {check : Check} {cur : BTreeCursor} {p x prev next : Nat} {r : SplitCellRes} [Build]

theorem fillNode_steps (hc : check.Passes) : ∀ (rest done : List NodeCell) (d : Disk), d.page p = .node done x →
    KeySorted NodeCell.key (done ++ rest) → (∀ c ∈ rest, r.cellMap c.key = some (.inl c)) →
    (done ++ rest).length ≤ nodeMaxCells →
    Steps (fillNodeWith check r (nodeManager p done x) (rest.map NodeCell.key)) d cur
      (nodeManager p (done ++ rest) x) (d.set p (.node (done ++ rest) x)) cur
  | [], done, d, h, _, _, _ => by
    rw [List.append_nil, Disk.set_self h]
    exact steps_pure
  | c :: rest, done, d, h, hs, hr, hl => by
    have hlt : ∀ a ∈ done, a.key < c.key :=
      fun a ha => (List.pairwise_append.mp hs).2.2 a ha c (by simp)
    have hlen : (done ++ []).length < nodeMaxCells := by
      simp only [List.length_append, List.length_cons, List.length_nil] at hl ⊢
      omega
    have hget : Steps (r.nodeAt c.key) (d.set p (.node (done ++ [⟨c.key, nullPage⟩]) x)) cur c
        (d.set p (.node (done ++ [⟨c.key, nullPage⟩]) x)) cur := by
      simp only [SplitCellRes.nodeAt, hr c (by simp)]
      exact steps_pure
    have happ : done ++ c :: rest = (done ++ [c]) ++ rest := by simp
    have hstep : Steps (do
        let res ← (nodeManager p done x).insertNodeCell c.key
        check res.1
        let cell ← r.nodeAt c.key
        res.2.setCellLeftChild c.key cell.leftChild : BTreeM NodePageManager) d cur
        (nodeManager p (done ++ [c]) x) (d.set p (.node (done ++ [c]) x)) cur := by
      have hins := steps_insertNodeCell (c := cur) (by simpa using h) hlt (by simp) hlen
      rw [List.append_nil] at hins
      refine hins.then (hc.steps.then (hget.then ?_))
      have hpage : (d.set p (.node (done ++ [⟨c.key, nullPage⟩]) x)).page p =
          .node (done ++ ⟨c.key, nullPage⟩ :: []) x := by simp
      have hset := steps_setCellLeftChild (c := cur) (y := c.leftChild) hpage hlt (by simp)
      rw [Disk.set_set] at hset
      exact hset
    rw [happ, List.map_cons, fillNodeWith, List.foldlM_cons]
    refine hstep.then ?_
    have hrest := fillNode_steps hc rest (done ++ [c]) (d.set p (.node (done ++ [c]) x)) (by simp)
      (by rwa [happ] at hs) (fun a ha => hr a (by simp [ha])) (by rwa [happ] at hl)
    rw [Disk.set_set] at hrest
    exact hrest

theorem fillLeaf_steps (hc : check.Passes) : ∀ (rest done : List LeafCell) (d : Disk),
    d.page p = .leaf done prev next →
    KeySorted LeafCell.key (done ++ rest) → (∀ c ∈ rest, r.cellMap c.key = some (.inr c)) →
    (done ++ rest).length ≤ leafMaxCells →
    Steps (fillLeafWith check r (leafManager p done prev next) (rest.map LeafCell.key)) d cur
      (leafManager p (done ++ rest) prev next) (d.set p (.leaf (done ++ rest) prev next)) cur
  | [], done, d, h, _, _, _ => by
    rw [List.append_nil, Disk.set_self h]
    exact steps_pure
  | c :: rest, done, d, h, hs, hr, hl => by
    have hlt : ∀ a ∈ done, a.key < c.key :=
      fun a ha => (List.pairwise_append.mp hs).2.2 a ha c (by simp)
    have hlen : (done ++ []).length < leafMaxCells := by
      simp only [List.length_append, List.length_cons, List.length_nil] at hl ⊢
      omega
    have happ : done ++ c :: rest = (done ++ [c]) ++ rest := by simp
    have hget : Steps (r.leafAt c.key) d cur c d cur := by
      simp only [SplitCellRes.leafAt, hr c (by simp)]
      exact steps_pure
    have hstep : Steps (do
        let cell ← r.leafAt c.key
        let res ← (leafManager p done prev next).writeCell cell
        check res.1
        pure res.2 : BTreeM LeafPageManager) d cur
        (leafManager p (done ++ [c]) prev next) (d.set p (.leaf (done ++ [c]) prev next)) cur := by
      have hins := steps_writeCell (c := cur) (by simpa using h) hlt (by simp) hlen
      rw [List.append_nil] at hins
      refine hget.then (hins.then (hc.steps.then ?_))
      exact steps_pure
    rw [happ, List.map_cons, fillLeafWith, List.foldlM_cons]
    refine hstep.then ?_
    have hrest := fillLeaf_steps hc rest (done ++ [c]) (d.set p (.leaf (done ++ [c]) prev next))
      (by simp) (by rwa [happ] at hs) (fun a ha => hr a (by simp [ha])) (by rwa [happ] at hl)
    rw [Disk.set_set] at hrest
    exact hrest

end Fill

/-! ### Two new pages -/

/-- Two pages more at the end of the file, everything before them as it was. -/
structure TwoMore (d d' : Disk) (l l' : LogicalPage) : Prop where
  good : d'.Good
  total : d'.total = d.total + 2
  nextOid_eq : d'.nextOid = d.nextOid
  left : d'.page (d.total + 1) = l
  right : d'.page (d.total + 2) = l'
  same : ∀ q, q ≠ 1 → q ≤ d.total → d'.page q = d.page q

section TwoMore

variable {d d' : Disk} {l l' m : LogicalPage}

theorem Disk.Good.createTwo (hg : d.Good) (l : LogicalPage) : ∃ hd hd', d.page 1 = .first hd ∧
    (d.create l hd).page 1 = .first hd' ∧ TwoMore d ((d.create l hd).create l hd') l l := by
  obtain ⟨hd, h1⟩ := hg.sound.first
  have hpos := hg.sound.pos
  have hg' := hg.create (l := l) h1
  refine ⟨hd, _, h1, Disk.create_page_one, hg'.create Disk.create_page_one, rfl, ?_, ?_, ?_, ?_⟩
  · simp [Disk.nextOid, h1]
  · rw [Disk.create_page_of_ne (by omega) (by simp)]
    exact hg.sound.create_page_new
  · exact hg'.sound.create_page_new
  · intro q hq hle
    rw [Disk.create_page_of_ne hq (by simp; omega), Disk.create_page_of_ne hq (by omega)]

theorem TwoMore.setLeft (h : TwoMore d d' l l') (hl : l.IsTree) :
    TwoMore d (d'.set (d.total + 1) m) m l' := by
  have ht : (d'.page (d.total + 1)).IsTree := by rw [h.left]; exact hl
  have h1 := h.good.ne_one ht
  refine ⟨h.good.set ht, h.total, ?_, by simp, ?_, ?_⟩
  · rw [Disk.nextOid, Disk.set_page_of_ne (Ne.symm h1)]
    exact h.nextOid_eq
  · rw [Disk.set_page_of_ne (by omega), h.right]
  · intro q hq hle
    rw [Disk.set_page_of_ne (by omega), h.same q hq hle]

theorem TwoMore.setRight (h : TwoMore d d' l l') (hl : l'.IsTree) :
    TwoMore d (d'.set (d.total + 2) m) l m := by
  have ht : (d'.page (d.total + 2)).IsTree := by rw [h.right]; exact hl
  have h1 := h.good.ne_one ht
  refine ⟨h.good.set ht, h.total, ?_, ?_, by simp, ?_⟩
  · rw [Disk.nextOid, Disk.set_page_of_ne (Ne.symm h1)]
    exact h.nextOid_eq
  · rw [Disk.set_page_of_ne (by omega), h.left]
  · intro q hq hle
    rw [Disk.set_page_of_ne (by omega), h.same q hq hle]

theorem TwoMore.evolves {ids : List Nat} (hg : d.Good) (h : TwoMore d d' l l') :
    d.Evolves d' ids :=
  ⟨h.good, by rw [h.total]; omega, h.nextOid_eq, fun q h1 _ hu => h.same q h1 (hg.le_total hu)⟩

end TwoMore

section SplitNode

variable {check : Check} {d : Disk} {cur : BTreeCursor} {p r i : Nat} {cells l₁ l₂ : List NodeCell}
  {s newCell : NodeCell} {rest : BTreeCursorStack} [Build]

omit [Build] in
/-- The keys before a cut, at it and after it. -/
theorem splitKeys_cut {α : Type} {key : α → DefaultPagerKey} {cells l₁ l₂ : List α}
    {h : Nat → Nat} {m : DefaultPagerKey → Option (NodeCell ⊕ LeafCell)}
    (hp : cells.Perm (l₁ ++ l₂)) (hs : KeySorted key (l₁ ++ l₂))
    (hh : l₁.length = h (l₁ ++ l₂).length) :
    splitKeys (cells.map key) h m = ⟨l₁.map key, l₂.map key, m⟩ := by
  unfold splitKeys
  rw [insertionSort_keys hp hs]
  have hlen : (l₁.map key).length = h ((l₁ ++ l₂).map key).length := by
    rw [List.length_map, List.length_map, hh]
  rw [List.map_append] at hlen ⊢
  dsimp only
  rw [List.take_left' hlen, List.drop_left' hlen]

/-- `split_cursor_node` up to the point where the halves are hung under the parent. -/
theorem splitCursorNode_runs (hc : check.Passes) (l₁ l₂ : List NodeCell)
    {Q : Unit → Disk → BTreeCursor → Prop} (hg : d.Good)
    (h : d.page p = .node cells r) (hfull : cells.length = cur.config.nodeMaxCells)
    (hmax : cur.config.nodeMaxCells ≤ nodeMaxCells)
    (hp : (cells ++ [newCell]).Perm (l₁ ++ s :: l₂)) (hs : KeySorted NodeCell.key (l₁ ++ s :: l₂))
    (hh : l₁.length = (l₁ ++ s :: l₂).length / 2)
    (hcont : ∀ d', TwoMore d d' (.node l₁ s.leftChild) (.node l₂ r) →
      Runs (insertIntoParentWith check (splitCursorNodeWith check rest) rest (d.total + 1)
        (d.total + 2) s.key) d' cur Q) :
    Runs (splitCursorNodeWith check ((p, i) :: rest) newCell) d cur Q := by
  have hlen := hp.length_eq
  simp only [List.length_append, List.length_cons, List.length_nil] at hlen
  have hmap := cellMapOf_perm (fun c => (.inl c : NodeCell ⊕ LeafCell)) hp hs
  have hkeys := splitKeys_cut (h := fun n => n / 2)
    (m := cellMapOf NodeCell.key .inl (cells ++ [newCell])) hp hs hh
  generalize hr : splitKeys ((cells ++ [newCell]).map NodeCell.key) (fun n => n / 2)
    (cellMapOf NodeCell.key .inl (cells ++ [newCell])) = res at hkeys
  have hcm : ∀ c ∈ l₁ ++ s :: l₂, res.cellMap c.key = some (.inl c) := by
    rw [hkeys]
    exact hmap
  have hleft : res.leftKeys = l₁.map NodeCell.key := by rw [hkeys]
  have hright : res.rightKeys = (s :: l₂).map NodeCell.key := by rw [hkeys]
  obtain ⟨hs1, hs2, -⟩ := List.pairwise_append.mp hs
  have hs2 := (List.pairwise_cons.mp hs2).2
  obtain ⟨hd, hd', h1, h1', htwo⟩ := hg.createTwo (.node [] nullPage)
  rw [splitCursorNodeWith]
  refine (steps_assertPageType (by simp [h, LogicalPage.type?])).then ?_
  refine (steps_loadNode h).then ?_
  refine steps_getSelf.then ?_
  refine (steps_assert (.inr ⟨rfl, hfull⟩)).then ?_
  refine Steps.then (show Steps _ d cur res d cur from ?_) ?_
  · refine (steps_loadNode h).then ?_
    rw [← hr]
    exact steps_pure
  rw [hright, hleft]
  refine (steps_assert (.inr (by simp))).then ?_
  refine (steps_index (a := s.key) (by simp)).then ?_
  refine (steps_createNodePage hg.sound h1).then ?_
  refine (steps_createNodePage (hg.create h1).sound h1').then ?_
  generalize (d.create (.node [] nullPage) hd).create (.node [] nullPage) hd' = e at htwo
  rw [Disk.create_total]
  refine (steps_loadNode htwo.left).then ?_
  refine (steps_loadNode htwo.right).then ?_
  -- the left page
  refine (fillNode_steps hc l₁ [] e htwo.left hs1 (fun c hc => hcm c (by simp [hc]))
    (by simp only [List.nil_append]; omega)).then ?_
  rw [List.nil_append]
  have htwo := htwo.setLeft (m := .node l₁ nullPage) trivial
  generalize e.set (d.total + 1) (.node l₁ nullPage) = e at htwo
  refine Steps.then (show Steps _ e cur s e cur from ?_) ?_
  · simp only [SplitCellRes.nodeAt, hcm s (by simp)]
    exact steps_pure
  refine (steps_setNodeRightChild htwo.left).then ?_
  have htwo := htwo.setLeft (m := .node l₁ s.leftChild) trivial
  generalize e.set (d.total + 1) (.node l₁ s.leftChild) = e at htwo
  -- the right page
  rw [List.map_cons, List.tail_cons]
  refine (fillNode_steps hc l₂ [] e htwo.right hs2 (fun c hc => hcm c (by simp [hc]))
    (by simp only [List.nil_append]; omega)).then ?_
  rw [List.nil_append]
  have htwo := htwo.setRight (m := .node l₂ nullPage) trivial
  generalize e.set (d.total + 2) (.node l₂ nullPage) = e at htwo
  refine (steps_setNodeRightChild htwo.right).then ?_
  exact hcont _ (htwo.setRight trivial)

end SplitNode

end Cpplite
