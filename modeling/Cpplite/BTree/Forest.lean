import Cpplite.BTree.WellFormed

/-!
Several B+trees on one pager. Their pages, their overflow chains and the free list never
meet, whatever is inserted and removed in whatever order, so no operation on one tree
shows in another.
-/
namespace Cpplite

open Exec Search Linked HeightTree

/-! ### What is reached from a root -/

/-- `q` is a child of the node page `p`. -/
def Disk.Child (d : Disk) (p q : Nat) : Prop :=
  ∃ cells right, d.page p = .node cells right ∧ (q = right ∨ ∃ c ∈ cells, q = c.leftChild)

/-- `p` is in the tree at `root`. -/
def Disk.Reaches (d : Disk) (root p : Nat) : Prop := Relation.ReflTransGen d.Child root p

/-- `v` is cell `i` of the leaf page `p` in the tree at `root`. -/
def Disk.LiveCell (d : Disk) (root p i : Nat) (v : LeafCell) : Prop :=
  ∃ cells prev next, d.Reaches root p ∧ d.page p = .leaf cells prev next ∧ cells[i]? = some v

section Reach

variable {n : Nat} {d d' : Disk} {p q : Nat} {cur : BTreeCursor}

theorem Stored.child_iff {t : BTree (n + 1)} (h : Stored d t) :
    d.Child t.id q ↔ ∃ u ∈ Node.kids t, q = Tree.id u := by
  have hpage : d.page t.id = .node (t.cells.map (fun c => nodeCell (c.1, c.2.id))) t.right.id := by
    have hnode := h.1
    simp only [Disk.IsNode, Node.map, List.map_map, Function.comp_def] at hnode
    exact hnode
  constructor
  · rintro ⟨cells, right, hp, hq⟩
    rw [hpage] at hp
    cases hp
    rcases hq with rfl | ⟨c, hc, rfl⟩
    · exact ⟨t.right, by simp [Node.kids], rfl⟩
    · obtain ⟨e, he, rfl⟩ := List.mem_map.mp hc
      exact ⟨e.2, by simp only [Node.kids, List.mem_append, List.mem_map]; exact .inl ⟨e, he, rfl⟩, rfl⟩
  · rintro ⟨u, hu, rfl⟩
    refine ⟨_, _, hpage, ?_⟩
    rcases List.mem_append.mp hu with hu | hu
    · obtain ⟨e, he, rfl⟩ := List.mem_map.mp hu
      exact .inr ⟨_, List.mem_map_of_mem he, rfl⟩
    · rw [List.mem_singleton.mp hu]
      exact .inl rfl

theorem Stored.kid {t : BTree (n + 1)} (h : Stored d t) {u : BTree n} (hu : u ∈ Node.kids t) :
    Stored d u :=
  h.2 u hu

/-- The pages reached from a root are those of the tree stored there. -/
theorem Stored.reaches_iff : ∀ {n : Nat} {t : BTree n}, Stored d t →
    (d.Reaches t.id p ↔ p ∈ t.ids)
  | 0, t, ⟨prev, next, hpage⟩ => by
    have hnone : ∀ q, ¬ d.Child t.id q := by
      rintro q ⟨cells, right, hp, -⟩
      rw [show d.page t.id = _ from hpage] at hp
      cases hp
    constructor
    · intro h
      rcases Relation.ReflTransGen.cases_head h with rfl | ⟨q, hq, -⟩
      · exact t.id_mem_ids
      · exact absurd hq (hnone q)
    · intro h
      rw [List.mem_singleton.mp h]
      exact .refl
  | n + 1, t, hs => by
    rw [Tree.ids_node, List.mem_cons, List.mem_flatMap]
    constructor
    · intro h
      rcases Relation.ReflTransGen.cases_head h with rfl | ⟨q, hq, hrest⟩
      · exact .inl rfl
      · obtain ⟨u, hu, rfl⟩ := hs.child_iff.mp hq
        exact .inr ⟨u, hu, (hs.kid hu).reaches_iff.mp hrest⟩
    · rintro (rfl | ⟨u, hu, hp⟩)
      · exact .refl
      · exact .head (hs.child_iff.mpr ⟨u, hu, rfl⟩) ((hs.kid hu).reaches_iff.mpr hp)

/-- A leaf page of the tree stands in its spine. -/
theorem Stored.leaf_mem_spine {cells : List LeafCell} {prev next : Nat}
    (hp : d.page p = .leaf cells prev next) : ∀ {n : Nat} {t : BTree n}, Stored d t → p ∈ t.ids →
    Sum.inl ⟨p, cells⟩ ∈ t.spine
  | 0, t, ⟨prev', next', hpage⟩, hm => by
    obtain rfl := List.mem_singleton.mp hm
    rw [hpage] at hp
    cases hp
    exact List.mem_singleton.mpr rfl
  | n + 1, t, hs, hm => by
    rw [Tree.ids_node, List.mem_cons, List.mem_flatMap] at hm
    rcases hm with rfl | ⟨u, hu, hm⟩
    · have hnode := hs.1
      rw [Disk.IsNode, show (Node.map Tree.id t).id = Tree.id t from rfl, hp] at hnode
      cases hnode
    · exact (Node.spine_kid_sublist hu).subset ((hs.kid hu).leaf_mem_spine hp hm)

/-- A leaf of the spine stands on a page of the tree. -/
theorem Stored.leaf_of_mem_spine {l : BTreeLeaf} : ∀ {n : Nat} {t : BTree n}, Stored d t →
    Sum.inl l ∈ t.spine → l.id ∈ t.ids ∧ d.IsLeaf l
  | 0, t, hs, hm => by
    have heq : Sum.inl l = (Sum.inl t : BTreeLeaf ⊕ DefaultPagerKey) := List.mem_singleton.mp hm
    cases heq
    exact ⟨List.mem_singleton.mpr rfl, hs⟩
  | n + 1, t, hs, hm => by
    obtain ⟨u, hu, hmu⟩ := Node.exists_kid_spine hm
    obtain ⟨hid, hleaf⟩ := (hs.kid hu).leaf_of_mem_spine hmu
    rw [Tree.ids_node, List.mem_cons, List.mem_flatMap]
    exact ⟨.inr ⟨u, hu, hid⟩, hleaf⟩

/-- The cells of two pieces of a spine have no key in common. -/
def KeysApart (a b : BTreeLeaf ⊕ DefaultPagerKey) : Prop :=
  ∀ v ∈ Sum.elim Leaf.cells (fun _ => []) a, ∀ w ∈ Sum.elim Leaf.cells (fun _ => []) b,
    v.key ≠ w.key

instance : Std.Symm KeysApart := ⟨fun _ _ h v hv w hw => (h w hw v hv).symm⟩

/-- Two cells of one tree that have the same key are the same cell. -/
theorem Planted.liveCell_unique {t : BTree n} (h : Planted d cur t) {i j : Nat} {v w : LeafCell}
    (hv : d.LiveCell t.id p i v) (hw : d.LiveCell t.id q j w) (hk : v.key = w.key) :
    p = q ∧ i = j := by
  obtain ⟨cells, prev, next, hr, hp, hi⟩ := hv
  obtain ⟨cells', prev', next', hr', hq, hj⟩ := hw
  have hl := h.stored.leaf_mem_spine hp (h.stored.reaches_iff.mp hr)
  have hl' := h.stored.leaf_mem_spine hq (h.stored.reaches_iff.mp hr')
  have hs := List.pairwise_flatMap.mp h.ordered.keySorted_entries
  by_cases hpq : p = q
  · subst hpq
    rw [hp] at hq
    cases hq
    have hsorted : KeySorted LeafCell.key cells := hs.1 _ hl
    have hnd : (cells.map LeafCell.key).Nodup := by
      rw [List.Nodup, List.pairwise_map]
      exact hsorted.imp (fun hab => hab.ne)
    have hlt : i < (cells.map LeafCell.key).length := by
      simpa using (List.getElem?_eq_some_iff.mp hi).1
    exact ⟨rfl, (List.getElem?_inj hlt hnd).mp (by simp [hi, hj, hk])⟩
  · exfalso
    have hapart : t.spine.Pairwise (KeysApart) := hs.2.imp (fun hab x hx y hy => (hab x hx y hy).ne)
    refine hapart.forall hl hl' ?_ v (List.mem_of_getElem? hi) w (List.mem_of_getElem? hj) hk
    rintro h
    cases h
    exact hpq rfl

end Reach

/-- Chains from the two pages have no page in common. -/
def Disk.ChainsApart (d : Disk) (p q : Nat) : Prop :=
  ∀ pages pages' payload payload', d.OverflowChain p pages payload →
    d.OverflowChain q pages' payload' → pages.Disjoint pages'

section Frames

variable {n : Nat} {d d' : Disk} {cur : BTreeCursor} {t : BTree n} {m : Contents} {p : Nat}
  {ids pages pages' : List Nat} {payload payload' : List Byte} {v : LeafCell}

theorem overflowChain_unique (h : d.OverflowChain p pages payload)
    (h' : d.OverflowChain p pages' payload') : pages = pages' := by
  refine Chain.unique ?_ h.1 h'.1
  rintro a q q' ⟨c, hc⟩ ⟨c', hc'⟩
  rw [hc] at hc'
  cases hc'
  rfl

theorem freeList_unique {fl fl' : List Nat} (h : d.FreeList fl) (h' : d.FreeList fl') :
    fl = fl' := by
  obtain ⟨hd, h1, hc⟩ := h
  obtain ⟨hd', h1', hc'⟩ := h'
  rw [h1] at h1'
  cases h1'
  refine Chain.unique ?_ hc hc'
  intro a q q' hq hq'
  rw [Disk.FreeNext, hq] at hq'
  cases hq'
  rfl

/-- The file keeps under `k` a cell of this size, with these bytes on its chain. -/
def Disk.Row (d : Disk) (root : Nat) (k : DefaultPagerKey) (size : Nat) (bytes : List Byte) : Prop :=
  ∃ p i v pages, d.LiveCell root p i v ∧ v.key = k ∧ v.payloadSize = size ∧
    d.OverflowChain v.recordPage pages bytes

/-- Work on other trees' pages and on pages nobody owned does not touch this tree. -/
theorem Holds.frame (h : Holds d cur t m) (hev : d.Evolves d' ids)
    (hids : ∀ p ∈ ids, (d.page p).IsTree) (hdis : t.ids.Disjoint ids) : Holds d' cur t m := by
  refine ⟨⟨hev.good, h.valid, h.planted.frame ?_, h.placed⟩, h.spells.evolves h.good hev hids⟩
  intro p hp
  have ht := h.planted.stored.isTree p hp
  exact hev.same p (h.good.ne_one ht) (fun hm => hdis hp hm) ht.inUse

/-- The chain of a cell after such work is the one it had, on pages in use. -/
theorem Holds.chain_before (h : Holds d cur t m) (hev : d.Evolves d' ids)
    (hids : ∀ p ∈ ids, (d.page p).IsTree) (hv : v ∈ entries t.spine)
    (hc : d'.OverflowChain v.recordPage pages payload) :
    (∃ payload', d.OverflowChain v.recordPage pages payload') ∧ ∀ p ∈ pages, (d.page p).InUse := by
  obtain ⟨value, pages', -, -, hold⟩ := h.spells.value v hv
  obtain rfl := overflowChain_unique hc (chain_evolves hold h.good hev hids)
  refine ⟨⟨value, hold⟩, ?_⟩
  intro p hp
  obtain ⟨-, -, -, q, c, hq⟩ := overflow_bounds h.good.sound hold p hp
  rw [hq]
  simp [LogicalPage.InUse]

end Frames

/-! ### Trees on one pager -/

structure Forest where
  pager : Pager
  cursors : List BTreeCursor

abbrev ForestM := EStateM Error Forest

namespace Forest

/-- A new pager, with no tree yet. -/
def fresh : Forest := ⟨Pager.fresh, []⟩

inductive Op where
  | createTree (config : BTreeConfig)
  | on (i : Nat) (op : TreeOp)

/-- `v` is cell `j` of the leaf page `p` of tree `i`. -/
def LiveCell (f : Forest) (i p j : Nat) (v : LeafCell) : Prop :=
  ∃ cur, f.cursors[i]? = some cur ∧ f.pager.disk.LiveCell cur.rootPgno p j v

/-- `p` is a node or leaf page of tree `i`. -/
def TreePage (f : Forest) (i p : Nat) : Prop :=
  ∃ cur, f.cursors[i]? = some cur ∧ f.pager.disk.Reaches cur.rootPgno p

/-- `p` carries part of the value of the cell `v`. -/
def ChainPage (f : Forest) (v : LeafCell) (p : Nat) : Prop :=
  ∃ pages payload, f.pager.disk.OverflowChain v.recordPage pages payload ∧ p ∈ pages

/-- `p` is on the free list. -/
def FreePage (f : Forest) (p : Nat) : Prop := ∃ fl, f.pager.disk.FreeList fl ∧ p ∈ fl

section Runs

variable [Build]

def onPager {α : Type} (x : PagerM α) : ForestM α :=
  zoom (·.pager) (fun p f => { f with pager := p }) x

/-- Call a method of cursor `i`. -/
def onCursor (i : Nat) (x : BTreeM Unit) : ForestM Unit := do
  let f ← get
  match f.cursors[i]? with
  | none => pure ()
  | some cur =>
    zoom (fun f => ⟨f.pager, cur⟩) (fun s f => ⟨s.pager, f.cursors.set i s.self⟩) x

def Op.run : Op → ForestM Unit
  | .createTree config => do
    let root ← onPager (createPage .leafPage)
    let cur ← onPager (BTreeCursor.new root config)
    modify (fun f => { f with cursors := f.cursors ++ [cur] })
  | .on i op => onCursor i op.run

/-- Calls that the trees' own conditions allow: a usable configuration, and `remove` on a cell. -/
def Op.Admissible (f : Forest) : Op → Prop
  | .createTree config => config.Valid
  | .on i op => ∀ cur, f.cursors[i]? = some cur → op.Admissible ⟨f.pager, cur⟩

/-- The values that the pager can chunk for certain. -/
def Op.Short : Op → Prop
  | .on _ (.insert _ value) => value.length ≤ 2 ^ 32 - 4096
  | _ => True

/-- The states between calls, from a new pager on. -/
inductive Reached : Forest → Prop where
  | fresh : Reached fresh
  | step {f : Forest} {op : Op} (h : Reached f) (hop : op.Admissible f) (hs : op.Short) :
      Reached (after op.run f)

end Runs

/-! ### The invariant -/

/-- A tree of the forest and the map it stands for. -/
structure Plot where
  height : Nat
  tree : BTree height
  contents : Contents

def Plot.cells (x : Plot) : List LeafCell := entries x.tree.spine

/-- An empty tree. -/
def Plot.seed (root : Nat) : Plot := ⟨0, (⟨root, []⟩ : BTreeLeaf), fun _ => none⟩

/-- Every cursor is over a tree, no two trees share a page, no two cells a chain. -/
structure Grown (f : Forest) (xs : List Plot) : Prop where
  good : f.pager.disk.Good
  length_eq : xs.length = f.cursors.length
  holds : ∀ (i : Nat) (cur : BTreeCursor) (x : Plot), f.cursors[i]? = some cur →
    xs[i]? = some x → Holds f.pager.disk cur x.tree x.contents
  trees : ∀ (i j : Nat) (x y : Plot), xs[i]? = some x → xs[j]? = some y → i ≠ j →
    x.tree.ids.Disjoint y.tree.ids
  chains : ∀ (i j : Nat) (x y : Plot) (v w : LeafCell), xs[i]? = some x → xs[j]? = some y →
    v ∈ x.cells → w ∈ y.cells → i ≠ j ∨ v.key ≠ w.key →
    f.pager.disk.ChainsApart v.recordPage w.recordPage

section Steps

variable {f : Forest} {xs : List Plot} {i : Nat} {cur cur' : BTreeCursor} {x x' : Plot} {d' : Disk}
  {v : LeafCell}

/-- The cell was there before, or its chain stands on pages that were not in use. -/
def Sprouts (d d' : Disk) (x : Plot) (v : LeafCell) : Prop :=
  v ∈ x.cells ∨ ∃ pages payload, d'.OverflowChain v.recordPage pages payload ∧
    ∀ p ∈ pages, ¬ (d.page p).InUse

theorem Grown.plot (h : Grown f xs) (hi : f.cursors[i]? = some cur) :
    ∃ x, xs[i]? = some x ∧ Holds f.pager.disk cur x.tree x.contents := by
  have hlt : i < xs.length := by
    rw [h.length_eq]
    exact (List.getElem?_eq_some_iff.mp hi).1
  exact ⟨xs[i], List.getElem?_eq_getElem hlt, h.holds i cur _ hi (List.getElem?_eq_getElem hlt)⟩

theorem Grown.cursor (h : Grown f xs) (hx : xs[i]? = some x) :
    ∃ cur, f.cursors[i]? = some cur := by
  have hlt : i < f.cursors.length := by
    rw [← h.length_eq]
    exact (List.getElem?_eq_some_iff.mp hx).1
  exact ⟨_, List.getElem?_eq_getElem hlt⟩

theorem getElem?_set_cases {α : Type} {l : List α} {j : Nat} {a b : α}
    (h : (l.set i a)[j]? = some b) : j = i ∧ b = a ∨ j ≠ i ∧ l[j]? = some b := by
  by_cases hji : j = i
  · subst hji
    have hlt : j < l.length := by
      have := (List.getElem?_eq_some_iff.mp h).1
      simpa using this
    rw [List.getElem?_set_self hlt] at h
    cases h
    exact .inl ⟨rfl, rfl⟩
  · rw [List.getElem?_set_ne (Ne.symm hji)] at h
    exact .inr ⟨hji, h⟩

theorem getElem?_concat_cases {α : Type} {l : List α} {j : Nat} {a b : α}
    (h : (l ++ [a])[j]? = some b) : l[j]? = some b ∨ j = l.length ∧ b = a := by
  rcases lt_or_ge j l.length with hlt | hge
  · rw [List.getElem?_append_left hlt] at h
    exact .inl h
  · rw [List.getElem?_append_right hge] at h
    have hj : j - l.length = 0 := by
      have := (List.getElem?_eq_some_iff.mp h).1
      simpa using this
    rw [hj] at h
    cases h
    exact .inr ⟨by omega, rfl⟩

/-- Work on one tree leaves the chain of every cell of the forest where it was. -/
theorem Grown.chain_before (h : Grown f xs) {ids pages : List Nat} {j : Nat} {z : Plot}
    {payload : List Byte} (hev : f.pager.disk.Evolves d' ids)
    (hids : ∀ p ∈ ids, (f.pager.disk.page p).IsTree) (hz : xs[j]? = some z) (hv : v ∈ z.cells)
    (hc : d'.OverflowChain v.recordPage pages payload) :
    (∃ payload', f.pager.disk.OverflowChain v.recordPage pages payload') ∧
      ∀ p ∈ pages, (f.pager.disk.page p).InUse := by
  obtain ⟨curz, hcurz⟩ := h.cursor hz
  exact (h.holds j curz z hcurz hz).chain_before hev hids hv hc

/-- A tree that was worked on takes its old place in the forest. -/
theorem Grown.replant (h : Grown f xs) (hi : f.cursors[i]? = some cur) (hx : xs[i]? = some x)
    (hev : f.pager.disk.Evolves d' x.tree.ids) (hh : Holds d' cur' x'.tree x'.contents)
    (hids : ∀ p ∈ x'.tree.ids, p ∈ x.tree.ids ∨ f.pager.disk.total < p)
    (hnew : ∀ v ∈ x'.cells, Sprouts f.pager.disk d' x v)
    (hone : ∀ v ∈ x'.cells, ∀ w ∈ x'.cells, v.key ≠ w.key → v ∈ x.cells ∨ w ∈ x.cells)
    {s : Pager} (hs : s.disk = d') : Grown ⟨s, f.cursors.set i cur'⟩ (xs.set i x') := by
  have hx₀ := h.holds i cur x hi hx
  have htree := hx₀.planted.stored.isTree
  have hilt : i < f.cursors.length := (List.getElem?_eq_some_iff.mp hi).1
  have hplot : ∀ j y, (xs.set i x')[j]? = some y → j = i ∧ y = x' ∨ j ≠ i ∧ xs[j]? = some y :=
    fun _ _ => getElem?_set_cases
  -- every cell either was there or is new in tree `i`
  have hcell : ∀ j y v, (xs.set i x')[j]? = some y → v ∈ y.cells →
      (∃ z, xs[j]? = some z ∧ v ∈ z.cells) ∨ j = i ∧ v ∉ x.cells ∧ v ∈ x'.cells := by
    intro j y v hy hv
    rcases hplot j y hy with ⟨rfl, rfl⟩ | ⟨-, hy⟩
    · by_cases hvx : v ∈ x.cells
      · exact .inl ⟨x, hx, hvx⟩
      · exact .inr ⟨rfl, hvx, hv⟩
    · exact .inl ⟨y, hy, hv⟩
  subst hs
  refine ⟨hev.good, by simpa using h.length_eq, ?_, ?_, ?_⟩
  · intro j curj y hcurj hy
    rcases hplot j y hy with ⟨rfl, rfl⟩ | ⟨hji, hy⟩
    · change (f.cursors.set j cur')[j]? = _ at hcurj
      rw [List.getElem?_set_self hilt] at hcurj
      cases hcurj
      exact hh
    · change (f.cursors.set i cur')[j]? = _ at hcurj
      rw [List.getElem?_set_ne (Ne.symm hji)] at hcurj
      exact (h.holds j curj y hcurj hy).frame hev htree (h.trees j i y x hy hx hji)
  · intro j k y z hy hz hjk
    have hside : ∀ j y, j ≠ i → xs[j]? = some y → y.tree.ids.Disjoint x'.tree.ids := by
      intro j y hji hy p hp hp'
      rcases hids p hp' with hp' | hp'
      · exact h.trees j i y x hy hx hji hp hp'
      · obtain ⟨curj, hcurj⟩ := h.cursor hy
        have hu := ((h.holds j curj y hcurj hy).planted.stored.isTree p hp).inUse
        exact absurd (h.good.le_total hu) (not_le.mpr hp')
    rcases hplot j y hy with ⟨rfl, rfl⟩ | ⟨hji, hyj⟩
    · rcases hplot k z hz with ⟨rfl, rfl⟩ | ⟨hki, hzk⟩
      · exact absurd rfl hjk
      · exact (hside k z hki hzk).symm
    · rcases hplot k z hz with ⟨rfl, rfl⟩ | ⟨hki, hzk⟩
      · exact hside j y hji hyj
      · exact h.trees j k y z hyj hzk hjk
  · intro j k y z v w hy hz hv hw hne pages pages' payload payload' hc hc' p hp hp'
    have hfresh : ∀ u, u ∉ x.cells → u ∈ x'.cells → ∀ pages payload,
        s.disk.OverflowChain u.recordPage pages payload →
        ∀ p ∈ pages, ¬ (f.pager.disk.page p).InUse := by
      intro u hux hux' pages payload hcu
      obtain ⟨pages₀, payload₀, hc₀, hfree⟩ := (hnew u hux').resolve_left hux
      rw [overflowChain_unique hcu hc₀]
      exact hfree
    rcases hcell j y v hy hv with ⟨y₀, hy₀, hv₀⟩ | ⟨rfl, hvx, hvx'⟩
    · obtain ⟨⟨pl, hold⟩, huse⟩ := h.chain_before hev htree hy₀ hv₀ hc
      rcases hcell k z w hz hw with ⟨z₀, hz₀, hw₀⟩ | ⟨rfl, hwx, hwx'⟩
      · obtain ⟨⟨pl', hold'⟩, -⟩ := h.chain_before hev htree hz₀ hw₀ hc'
        exact h.chains j k y₀ z₀ v w hy₀ hz₀ hv₀ hw₀ hne pages pages' pl pl' hold hold' hp hp'
      · exact hfresh w hwx hwx' pages' payload' hc' p hp' (huse p hp)
    · rcases hcell k z w hz hw with ⟨z₀, hz₀, hw₀⟩ | ⟨rfl, hwx, hwx'⟩
      · obtain ⟨-, huse⟩ := h.chain_before hev htree hz₀ hw₀ hc'
        exact hfresh v hvx hvx' pages payload hc p hp (huse p hp')
      · -- one operation brings in one cell
        rcases hne with hne | hne
        · exact hne rfl
        · rcases hone v hvx' w hwx' hne with hm | hm
          · exact hvx hm
          · exact hwx hm

/-- A call that leaves the file alone. -/
theorem Grown.moved (h : Grown f xs) (hi : f.cursors[i]? = some cur) (hx : xs[i]? = some x)
    (hh : Holds f.pager.disk cur' x.tree x.contents) {s : Pager} (hs : s.disk = f.pager.disk) :
    Grown ⟨s, f.cursors.set i cur'⟩ (xs.set i x) :=
  h.replant hi hx (.refl h.good) hh (fun _ hp => .inl hp) (fun _ hv => .inl hv)
    (fun _ hv _ _ _ => .inl hv) hs

/-- A new tree on a page past the end of the file. -/
theorem Grown.plant (h : Grown f xs) {root : Nat} (hroot : f.pager.disk.total < root)
    (hev : f.pager.disk.Evolves d' []) (hpage : d'.page root = .leaf [] nullPage nullPage)
    {config : BTreeConfig} (hv : config.Valid) {s : Pager} (hs : s.disk = d') :
    Grown ⟨s, f.cursors ++ [⟨[], root, config⟩]⟩
      (xs ++ [.seed root]) := by
  subst hs
  have hnil : ∀ p ∈ ([] : List Nat), (f.pager.disk.page p).IsTree := by simp
  have hcells : ∀ v, v ∉ (Plot.seed root).cells := by
    rintro v ⟨⟩
  have hside : ∀ (j : Nat) (y : Plot), xs[j]? = some y →
      y.tree.ids.Disjoint (Plot.seed root).tree.ids := by
    intro j y hy p hp hp'
    obtain rfl := List.mem_singleton.mp hp'
    obtain ⟨curj, hcurj⟩ := h.cursor hy
    have hu := ((h.holds j curj y hcurj hy).planted.stored.isTree _ hp).inUse
    exact absurd (h.good.le_total hu) (not_le.mpr hroot)
  refine ⟨hev.good, by simp [h.length_eq], ?_, ?_, ?_⟩
  · intro j curj y hcurj hy
    rcases getElem?_concat_cases hy with hy | ⟨rfl, rfl⟩
    · rcases getElem?_concat_cases hcurj with hcurj | ⟨rfl, rfl⟩
      · exact (h.holds j curj y hcurj hy).frame hev hnil (List.disjoint_nil_right _)
      · rw [← h.length_eq, List.getElem?_eq_none le_rfl] at hy
        cases hy
    · rcases getElem?_concat_cases hcurj with hcurj | ⟨-, rfl⟩
      · rw [h.length_eq, List.getElem?_eq_none le_rfl] at hcurj
        cases hcurj
      · exact Cpplite.holds_empty hev.good hv rfl hpage
  · intro j k y z hy hz hjk
    rcases getElem?_concat_cases hy with hy | ⟨rfl, rfl⟩
    · rcases getElem?_concat_cases hz with hz | ⟨rfl, rfl⟩
      · exact h.trees j k y z hy hz hjk
      · exact hside j y hy
    · rcases getElem?_concat_cases hz with hz | ⟨rfl, rfl⟩
      · exact (hside k z hz).symm
      · exact absurd rfl hjk
  · intro j k y z v w hy hz hv hw hne pages pages' payload payload' hc hc'
    rcases getElem?_concat_cases hy with hy | ⟨rfl, rfl⟩
    · rcases getElem?_concat_cases hz with hz | ⟨rfl, rfl⟩
      · obtain ⟨⟨pl, hold⟩, -⟩ := h.chain_before hev hnil hy hv hc
        obtain ⟨⟨pl', hold'⟩, -⟩ := h.chain_before hev hnil hz hw hc'
        exact h.chains j k y z v w hy hz hv hw hne pages pages' pl pl' hold hold'
      · exact absurd hw (hcells w)
    · exact absurd hv (hcells v)

theorem onCursor_eq (hi : f.cursors[i]? = some cur) (y : BTreeM Unit) :
    onCursor i y f = zoom (fun f => ⟨f.pager, cur⟩)
      (fun s f => ⟨s.pager, f.cursors.set i s.self⟩) y f := by
  rw [onCursor, bind_ok get_ok]
  simp only [hi]

theorem after_onCursor (hi : f.cursors[i]? = some cur) (y : BTreeM Unit) :
    after (onCursor i y) f = ⟨(after y ⟨f.pager, cur⟩).pager,
      f.cursors.set i (after y ⟨f.pager, cur⟩).self⟩ := by
  rw [after, onCursor_eq hi, zoom, after]
  cases y ⟨f.pager, cur⟩ <;> rfl

theorem after_onCursor_none (hi : f.cursors[i]? = none) (y : BTreeM Unit) :
    after (onCursor i y) f = f := by
  rw [after, onCursor, bind_ok get_ok]
  simp only [hi]
  rfl

variable [Build]

/-- What one call on tree `i` makes of its plot. -/
theorem Grown.on (hb : Build.ndebug = true) (h : Grown f xs) {op : TreeOp}
    (hop : (Op.on i op).Admissible f) (hs : (Op.on i op).Short) (hi : f.cursors[i]? = some cur) :
    ∃ x', Grown (after (Op.on i op).run f) (xs.set i x') := by
  obtain ⟨x, hx, hh⟩ := h.plot hi
  rw [Op.run, after_onCursor hi]
  cases op with
  | insert k value =>
    cases hk : x.contents k with
    | some u =>
      have hmem : ∃ v ∈ x.cells, v.key = k := hh.spells.isSome_iff.mp (by rw [hk]; rfl)
      have hfail : Fails (insert k value) _ _ _ := insert_fails hh.toStanding (.inl hmem)
      obtain ⟨-, -, hd, hst, -⟩ := (hfail ⟨f.pager, cur⟩ rfl rfl).after
      exact ⟨x, h.moved hi hx ⟨hst, hh.spells⟩ hd⟩
    | none =>
      obtain ⟨-, n', t', chunks, v, pages, hins, hh'⟩ :=
        (hh.insert hk (le_chainLimit hs) ⟨f.pager, cur⟩ rfl rfl).after
      obtain ⟨A, B, hA, hB⟩ := hins.entries_eq
      have hcells : ∀ w ∈ entries t'.spine, w ∈ x.cells ∨ w = v := by
        intro w hw
        rw [hB] at hw
        rw [Plot.cells, hA]
        simp only [List.mem_append, List.mem_cons] at hw ⊢
        tauto
      refine ⟨⟨n', t', _⟩, h.replant hi hx hins.updated.evolves hh' hins.updated.ids_mem ?_ ?_ rfl⟩
      · intro w hw
        rcases hcells w hw with hw | rfl
        · exact .inl hw
        · exact .inr ⟨pages, _, hins.chain, hins.fresh⟩
      · intro w hw w' hw' hne
        rcases hcells w hw with hw | rfl
        · exact .inl hw
        · rcases hcells w' hw' with hw' | rfl
          · exact .inr hw'
          · exact absurd rfl hne
  | moveToKey k =>
    have hrun : Runs (TreeOp.moveToKey k).run f.pager.disk cur
        (fun _ d' cur' => d' = f.pager.disk ∧ Holds d' cur' x.tree x.contents) := by
      refine (hh.moveToKey k).bind ?_
      rintro found d' cur' ⟨rfl, -, hh', -⟩
      exact Runs.pure ⟨rfl, hh'⟩
    obtain ⟨-, hd, hh'⟩ := (hrun ⟨f.pager, cur⟩ rfl rfl).after
    exact ⟨x, h.moved hi hx (hd ▸ hh') hd⟩
  | remove =>
    obtain ⟨c, p, lo, v, hi', hplug, hcur⟩ := hh.toStanding.on_cell (s := ⟨f.pager, cur⟩) (hop cur hi)
    have hon : StandsOn cur x.tree v.key := ⟨c, p, lo, v, hi', hplug, hcur, rfl⟩
    obtain ⟨-, n', t', hup, hsub, hh'⟩ := (hh.remove hon hb ⟨f.pager, cur⟩ rfl rfl).after
    refine ⟨⟨n', t', _⟩, h.replant hi hx hup.evolves hh' hup.ids_mem ?_ ?_ rfl⟩
    · exact fun w hw => .inl (hsub.subset hw)
    · exact fun w hw _ _ _ => .inl (hsub.subset hw)

/-- `create_page` and the constructor of the cursor over the new root. -/
theorem after_createTree (config : BTreeConfig) {t : Pager} {root : Nat}
    (hrun : createPage .leafPage f.pager = .ok root t)
    (hpage : t.disk.page root = .leaf [] nullPage nullPage) :
    after (Op.createTree config).run f = ⟨t, f.cursors ++ [⟨[], root, config⟩]⟩ := by
  have hnew : BTreeCursor.new root config t = .ok ⟨[], root, config⟩ t := by
    rw [BTreeCursor.new, bind_ok (getPageType_ok (show (t.disk.page _).type? = some .leafPage by
      rw [hpage]; rfl)), bind_ok (assert_ok (.inr (.inr rfl)))]
    rfl
  have hall : (Op.createTree config).run f =
      .ok () ⟨t, f.cursors ++ [⟨[], root, config⟩]⟩ := by
    rw [Op.run, bind_ok (show onPager _ f = .ok _ ⟨t, f.cursors⟩ from zoom_ok hrun),
      bind_ok (show onPager _ (⟨t, f.cursors⟩ : Forest) = .ok _ ⟨t, f.cursors⟩ from zoom_ok hnew)]
    rfl
  rw [after, hall]

theorem Grown.create (h : Grown f xs) {config : BTreeConfig} (hv : config.Valid) :
    ∃ root, Grown (after (Op.createTree config).run f) (xs ++ [.seed root]) ∧
      (after (Op.createTree config).run f).cursors = f.cursors ++ [⟨[], root, config⟩] := by
  obtain ⟨root, t, hrun, rfl, hpage, -, hev⟩ := createRoot_returns h.good
  refine ⟨f.pager.disk.total + 1, ?_⟩
  rw [after_createTree config hrun hpage]
  exact ⟨h.plant (Nat.lt_succ_self _) hev hpage hv rfl, rfl⟩

omit [Build] in
theorem grown_fresh : Grown fresh [] := by
  refine ⟨fresh_good, rfl, ?_, ?_, ?_⟩
  · intro i cur x hcur
    cases hcur
  · intro i j x y hx
    cases hx
  · intro i j x y v w hx
    cases hx

/-- One call keeps the forest, and every tree but the one it is on. -/
theorem Grown.step (hb : Build.ndebug = true) (h : Grown f xs) {op : Op} (hop : op.Admissible f)
    (hs : op.Short) : ∃ xs', Grown (after op.run f) xs' ∧
      ∀ j, (∀ o, op ≠ .on j o) → j < xs.length →
        xs'[j]? = xs[j]? ∧ (after op.run f).cursors[j]? = f.cursors[j]? := by
  cases op with
  | createTree config =>
    obtain ⟨root, h', hcur⟩ := h.create hop
    refine ⟨_, h', fun j _ hj => ⟨List.getElem?_append_left hj, ?_⟩⟩
    rw [hcur]
    exact List.getElem?_append_left (h.length_eq ▸ hj)
  | on i op =>
    cases hi : f.cursors[i]? with
    | none =>
      rw [Op.run, after_onCursor_none hi]
      exact ⟨xs, h, fun _ _ _ => ⟨rfl, rfl⟩⟩
    | some cur =>
      obtain ⟨x', h'⟩ := h.on hb hop hs hi
      refine ⟨_, h', fun j hj _ => ?_⟩
      have hne : i ≠ j := by
        rintro rfl
        exact hj op rfl
      rw [Op.run, after_onCursor hi]
      exact ⟨List.getElem?_set_ne hne, List.getElem?_set_ne hne⟩

theorem Reached.grown (hb : Build.ndebug = true) (h : Reached f) : ∃ xs, Grown f xs := by
  induction h with
  | fresh => exact ⟨[], grown_fresh⟩
  | step _ hop hs ih =>
    obtain ⟨xs, hxs⟩ := ih
    obtain ⟨xs', hxs', -⟩ := hxs.step hb hop hs
    exact ⟨xs', hxs'⟩

end Steps

/-! ### Every reached forest -/

/-- No page has two uses. -/
structure Apart (f : Forest) : Prop where
  trees : ∀ i j q, i ≠ j → f.TreePage i q → ¬ f.TreePage j q
  chain : ∀ i p j v, f.LiveCell i p j v →
    ∃ pages payload, f.pager.disk.OverflowChain v.recordPage pages payload ∧ pages.Nodup
  chains : ∀ i p j v i' p' j' w q, f.LiveCell i p j v → f.LiveCell i' p' j' w →
    (p, j) ≠ (p', j') → f.ChainPage v q → ¬ f.ChainPage w q
  free : ∃ fl, f.pager.disk.FreeList fl ∧ fl.Nodup
  tree_chain : ∀ i i' p j v q, f.TreePage i q → f.LiveCell i' p j v → ¬ f.ChainPage v q
  tree_free : ∀ i q, f.TreePage i q → ¬ f.FreePage q
  chain_free : ∀ i p j v q, f.LiveCell i p j v → f.ChainPage v q → ¬ f.FreePage q
  bounds : ∀ q, (∃ i, f.TreePage i q) ∨ (∃ i p j v, f.LiveCell i p j v ∧ f.ChainPage v q) ∨
    f.FreePage q → 2 ≤ q ∧ q ≤ f.pager.totalNumPages

section Apart

variable {f : Forest} {xs : List Plot} {i p j q : Nat} {v : LeafCell}

theorem Grown.treePage_iff (h : Grown f xs) :
    f.TreePage i q ↔ ∃ x, xs[i]? = some x ∧ q ∈ x.tree.ids := by
  constructor
  · rintro ⟨cur, hcur, hr⟩
    obtain ⟨x, hx, hh⟩ := h.plot hcur
    refine ⟨x, hx, ?_⟩
    rw [← hh.planted.stored.reaches_iff, hh.planted.root_eq]
    exact hr
  · rintro ⟨x, hx, hq⟩
    obtain ⟨cur, hcur⟩ := h.cursor hx
    have hpl := (h.holds i cur x hcur hx).planted
    refine ⟨cur, hcur, ?_⟩
    rw [← hpl.root_eq]
    exact hpl.stored.reaches_iff.mpr hq

theorem Grown.isTree (h : Grown f xs) (hq : f.TreePage i q) : (f.pager.disk.page q).IsTree := by
  obtain ⟨x, hx, hq⟩ := h.treePage_iff.mp hq
  obtain ⟨cur, hcur⟩ := h.cursor hx
  exact (h.holds i cur x hcur hx).planted.stored.isTree q hq

theorem Grown.liveCell (h : Grown f xs) (hv : f.LiveCell i p j v) :
    ∃ x, xs[i]? = some x ∧ v ∈ x.cells := by
  obtain ⟨cur, hcur, cells, prev, next, hr, hpage, hj⟩ := hv
  obtain ⟨x, hx, hh⟩ := h.plot hcur
  rw [← hh.planted.root_eq, hh.planted.stored.reaches_iff] at hr
  have hspine := hh.planted.stored.leaf_mem_spine hpage hr
  exact ⟨x, hx, List.mem_flatMap.mpr ⟨_, hspine, List.mem_of_getElem? hj⟩⟩

theorem Grown.isOverflow (h : Grown f xs) (hq : f.ChainPage v q) :
    ∃ r c, f.pager.disk.page q = .overflow r c ∧ 2 ≤ q ∧ q ≤ f.pager.disk.total := by
  obtain ⟨pages, payload, hc, hm⟩ := hq
  obtain ⟨h0, h1, hle, r, c, hpage⟩ := overflow_bounds h.good.sound hc q hm
  exact ⟨r, c, hpage, by omega, hle⟩

theorem Grown.isFree (h : Grown f xs) (hq : f.FreePage q) :
    ∃ r, f.pager.disk.page q = .free r ∧ 2 ≤ q ∧ q ≤ f.pager.disk.total := by
  obtain ⟨fl, hfl, hm⟩ := hq
  obtain ⟨h0, h1, hle, r, hpage⟩ := free_bounds h.good.sound hfl q hm
  exact ⟨r, hpage, by omega, hle⟩

theorem Grown.apart (h : Grown f xs) : f.Apart := by
  constructor
  · intro i j q hij hi hj
    obtain ⟨x, hx, hq⟩ := h.treePage_iff.mp hi
    obtain ⟨y, hy, hq'⟩ := h.treePage_iff.mp hj
    exact h.trees i j x y hx hy hij hq hq'
  · intro i p j v hv
    obtain ⟨x, hx, hm⟩ := h.liveCell hv
    obtain ⟨cur, hcur⟩ := h.cursor hx
    obtain ⟨value, pages, -, -, hc⟩ := (h.holds i cur x hcur hx).spells.value v hm
    exact ⟨pages, value, hc, overflow_nodup hc⟩
  · rintro i p j v i' p' j' w q hv hw hne ⟨pages, payload, hc, hq⟩ ⟨pages', payload', hc', hq'⟩
    obtain ⟨x, hx, hm⟩ := h.liveCell hv
    obtain ⟨y, hy, hm'⟩ := h.liveCell hw
    refine h.chains i i' x y v w hx hy hm hm' ?_ pages pages' payload payload' hc hc' hq hq'
    by_cases hi : i = i'
    · subst hi
      obtain ⟨cur, hcur, hv⟩ := hv
      obtain ⟨cur', hcur', hw⟩ := hw
      rw [hcur] at hcur'
      cases hcur'
      have hpl := (h.holds i cur x hcur hx).planted
      rw [← hpl.root_eq] at hv hw
      refine .inr (fun hk => hne ?_)
      obtain ⟨rfl, rfl⟩ := hpl.liveCell_unique hv hw hk
      rfl
    · exact .inl hi
  · obtain ⟨fl, hfl⟩ := h.good.free
    exact ⟨fl, hfl, free_nodup hfl⟩
  · intro i i' p j v q hi _ hq
    have ht := h.isTree hi
    obtain ⟨r, c, hpage, -⟩ := h.isOverflow hq
    rw [hpage] at ht
    exact ht
  · intro i q hi hq
    have ht := h.isTree hi
    obtain ⟨r, hpage, -⟩ := h.isFree hq
    rw [hpage] at ht
    exact ht
  · intro i p j v q _ hq hf
    obtain ⟨r, c, hpage, -⟩ := h.isOverflow hq
    obtain ⟨r', hpage', -⟩ := h.isFree hf
    rw [hpage] at hpage'
    cases hpage'
  · rintro q (⟨i, hi⟩ | ⟨i, p, j, v, -, hq⟩ | hq)
    · have ht := h.isTree hi
      have h0 := h.good.ne_zero ht.inUse.1
      have h1 := h.good.ne_one ht
      exact ⟨by omega, h.good.le_total ht.inUse⟩
    · obtain ⟨-, -, -, hb⟩ := h.isOverflow hq
      exact hb
    · obtain ⟨-, -, hb⟩ := h.isFree hq
      exact hb

variable [Build]

/-- In every reached forest no page has two uses, and a call on one tree leaves every other cursor
where it is and the answers to its lookups what they are. -/
theorem reached_apart (hb : Build.ndebug = true) (h : Reached f) : f.Apart ∧
    ∀ op : Op, op.Admissible f → op.Short → ∀ j cur, (∀ o, op ≠ .on j o) →
      f.cursors[j]? = some cur → (after op.run f).cursors[j]? = some cur ∧
      ∃ m, Represents ⟨f.pager, cur⟩ m ∧ Represents ⟨(after op.run f).pager, cur⟩ m := by
  obtain ⟨xs, hxs⟩ := h.grown hb
  refine ⟨hxs.apart, ?_⟩
  intro op hop hs j cur hne hcur
  obtain ⟨xs', hxs', hsame⟩ := hxs.step hb hop hs
  obtain ⟨x, hx, hh⟩ := hxs.plot hcur
  obtain ⟨hx', hcur'⟩ := hsame j hne (List.getElem?_eq_some_iff.mp hx).1
  rw [hx] at hx'
  rw [hcur] at hcur'
  exact ⟨hcur', x.contents, hh.represents, (hxs'.holds j cur x hcur' hx').represents⟩

end Apart

theorem reached_apart_two :
    letI : Build := ⟨true⟩
    Apart (after (Op.on 1 (.insert 5 [1, 2])).run
      (after (Op.createTree {}).run (after (Op.createTree {}).run fresh))) := by
  let _ : Build := ⟨true⟩
  have h : Reached (after (Op.on 1 (.insert 5 [1, 2])).run
      (after (Op.createTree {}).run (after (Op.createTree {}).run fresh))) := by
    refine .step (.step (.step .fresh default_valid trivial) default_valid trivial) ?_ ?_
    · exact fun _ _ => trivial
    · change 2 ≤ 2 ^ 32 - 4096
      decide
  exact (reached_apart rfl h).1

end Forest

end Cpplite
