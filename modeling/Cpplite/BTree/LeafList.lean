import Cpplite.BTree.Forest

/-!
The doubly linked list of the leaves. It is a second order on them, kept by splits and
merges on its own, and it is the order of the tree.
-/
namespace Cpplite

open Exec Search Linked HeightTree

/-- `q` is the `next_page` of the leaf page `p`. -/
def Disk.Next (d : Disk) (p q : Nat) : Prop := ∃ cells prev, d.page p = .leaf cells prev q

/-- `q` is the `prev_page` of the leaf page `p`. -/
def Disk.Prev (d : Disk) (p q : Nat) : Prop := ∃ cells next, d.page p = .leaf cells q next

/-- First children lead from `p` down to the leaf page `q`. -/
inductive Disk.Leftmost (d : Disk) : Nat → Nat → Prop where
  | leaf {p prev next : Nat} {cells : List LeafCell} (h : d.page p = .leaf cells prev next) :
      d.Leftmost p p
  | node {p q right : Nat} {c : NodeCell} {cells : List NodeCell}
      (h : d.page p = .node (c :: cells) right) (hq : d.Leftmost c.leftChild q) : d.Leftmost p q

/-- The keys on the leaf page `p` come before those on the leaf page `q`. -/
def Disk.Before (d : Disk) (p q : Nat) : Prop :=
  ∀ cells prev next cells' prev' next', d.page p = .leaf cells prev next →
    d.page q = .leaf cells' prev' next' → ∀ v ∈ cells, ∀ w ∈ cells', v.key < w.key

/-- The leaf pages of the tree at `root` in key order, as the list links them. A page without cells
is the only one. -/
structure LeafList (d : Disk) (root : Nat) (ids : List Nat) : Prop where
  mem_iff : ∀ p, p ∈ ids ↔ d.Reaches root p ∧ ∃ cells prev next, d.page p = .leaf cells prev next
  nodup : ids.Nodup
  ordered : ids.Pairwise d.Before
  occupied : ∀ p ∈ ids, (∃ prev next, d.page p = .leaf [] prev next) → ids = [p]
  walk : ∃ p, d.Leftmost root p ∧ Chain d.Next nullPage p ids
  inverse : ∀ p ∈ ids, ∀ q ∈ ids, d.Next p q ↔ d.Prev q p
  first : ∀ p, ids.head? = some p → d.Prev p nullPage
  last : ∀ p, ids.getLast? = some p → d.Next p nullPage

section

variable {n : Nat} {d : Disk} {cur : BTreeCursor} {t : BTree n} {p q : Nat}

theorem Disk.next_iff : d.Next p q ↔ ∃ e, d.links p = some (e, q) := by
  constructor
  · rintro ⟨cells, prev, h⟩
    exact ⟨prev, Disk.links_eq h⟩
  · rintro ⟨e, h⟩
    obtain ⟨cells, hp⟩ := Disk.links_some h
    exact ⟨cells, e, hp⟩

theorem Disk.prev_iff : d.Prev p q ↔ ∃ e, d.links p = some (q, e) := by
  constructor
  · rintro ⟨cells, next, h⟩
    exact ⟨next, Disk.links_eq h⟩
  · rintro ⟨e, h⟩
    obtain ⟨cells, hp⟩ := Disk.links_some h
    exact ⟨cells, e, hp⟩

theorem leafIds_ne_nil : ∀ {n : Nat} (t : BTree n), leafIds t.spine ≠ []
  | 0, t => List.cons_ne_nil _ _
  | n + 1, t => by
    have h := leafIds_ne_nil (Node.right t)
    rw [Tree.spine_node, leafIds_append]
    exact List.append_ne_nil_of_right_ne_nil _ h

theorem mem_leafIds {s : Spine} : p ∈ leafIds s ↔ ∃ l : BTreeLeaf, .inl l ∈ s ∧ l.id = p := by
  rw [leafIds, List.mem_flatMap]
  constructor
  · rintro ⟨l | k, hl, hp⟩
    · exact ⟨l, hl, (List.mem_singleton.mp hp).symm⟩
    · cases hp
  · rintro ⟨l, hl, rfl⟩
    exact ⟨.inl l, hl, List.mem_singleton.mpr rfl⟩

/-- The first leaf of the spine is where first children lead. -/
theorem Stored.leftmost {b : Bounds} (hb : 1 ≤ b.nodeMin) : ∀ {n : Nat} {t : BTree n}, Stored d t →
    t.RootFilled b → d.Leftmost t.id ((leafIds t.spine).headD nullPage)
  | 0, t, ⟨prev, next, hp⟩, _ => .leaf hp
  | n + 1, t, hs, ⟨hne, _, hkids⟩ => by
    obtain ⟨p, cells, right⟩ := t
    cases cells with
    | nil => exact absurd hne (Nat.not_succ_le_zero 0)
    | cons c cells =>
      have hc : c.2 ∈ Node.kids (⟨p, c :: cells, right⟩ : BTreeNode n) := by simp [Node.kids]
      have ih := (hs.kid hc).leftmost hb ((hkids c.2 hc).rootFilled hb)
      have hhead : (leafIds (Tree.spine (n := n + 1) ⟨p, c :: cells, right⟩)).headD nullPage =
          (leafIds c.2.spine).headD nullPage := by
        have hne := leafIds_ne_nil c.2
        rw [Tree.spine_node]
        simp only [spineOf, List.flatMap_cons, List.append_assoc, leafIds_append]
        cases hl : leafIds c.2.spine with
        | nil => exact absurd hl hne
        | cons a l => rfl
      rw [hhead]
      have hpage : d.page p = .node (nodeCell (c.1, c.2.id) ::
          cells.map (fun e => nodeCell (e.1, e.2.id))) right.id := by
        have hnode := hs.1
        simp only [Disk.IsNode, Node.map, List.map_cons, List.map_map, Function.comp_def] at hnode
        exact hnode
      exact .node hpage ih

/-- A leaf below a node has cells. -/
theorem Planted.leaf_occupied {l : BTreeLeaf} (hT : Planted d cur t) (hv : cur.config.Valid)
    (hl : .inl l ∈ t.spine) (hnil : l.cells = []) : leafIds t.spine = [l.id] := by
  have hfill := hT.filled
  cases n with
  | zero =>
    have heq : Sum.inl l = (Sum.inl t : BTreeLeaf ⊕ DefaultPagerKey) := List.mem_singleton.mp hl
    cases heq
    rfl
  | succ n =>
    obtain ⟨-, -, hkids⟩ := hfill
    obtain ⟨u, hu, hlu⟩ := Node.exists_kid_spine hl
    have hlen := (Tree.All.leaf_of_spine (hkids u hu) hlu).1
    have hmin : 1 ≤ cur.config.bounds.leafMin := hv.leaf_min
    rw [hnil] at hlen
    exact absurd (hmin.trans hlen) (Nat.not_succ_le_zero 0)

theorem Planted.leaf_eq {l : BTreeLeaf} {cells : List LeafCell} {prev next : Nat}
    (hT : Planted d cur t) (hl : .inl l ∈ t.spine) (hp : d.page l.id = .leaf cells prev next) :
    l.cells = cells := by
  obtain ⟨-, prev', next', hp'⟩ := hT.stored.leaf_of_mem_spine hl
  rw [hp] at hp'
  cases hp'
  rfl

theorem Planted.leafIds_ordered (hT : Planted d cur t) : (leafIds t.spine).Pairwise d.Before := by
  have hs := (List.pairwise_flatMap.mp hT.ordered.keySorted_entries).2
  rw [leafIds, List.pairwise_flatMap]
  constructor
  · rintro (l | k) -
    · exact List.pairwise_singleton _ _
    · exact .nil
  · refine hs.imp_of_mem ?_
    rintro (l | k) (l' | k') hl hl' h p hp q hq
    · rw [List.mem_singleton.mp hp, List.mem_singleton.mp hq]
      intro cells prev next cells' prev' next' hc hc'
      rw [← hT.leaf_eq hl hc, ← hT.leaf_eq hl' hc']
      exact h
    all_goals simp at hp hq

theorem Planted.leafList (hT : Planted d cur t) (hg : d.Good) (hv : cur.config.Valid) :
    LeafList d cur.rootPgno (leafIds t.spine) := by
  have hnull : nullPage ∉ leafIds t.spine := by
    intro h0
    exact hg.ne_zero (hT.stored.isTree _ (Planted.mem_ids h0)).inUse.1 rfl
  constructor
  · intro p
    rw [mem_leafIds, ← hT.root_eq, hT.stored.reaches_iff]
    constructor
    · rintro ⟨l, hl, rfl⟩
      obtain ⟨hid, prev, next, hp⟩ := hT.stored.leaf_of_mem_spine hl
      exact ⟨hid, l.cells, prev, next, hp⟩
    · rintro ⟨hid, cells, prev, next, hp⟩
      exact ⟨_, hT.stored.leaf_mem_spine hp hid, rfl⟩
  · exact hT.leafIds_nodup
  · exact hT.leafIds_ordered
  · rintro p hp ⟨prev, next, hpage⟩
    obtain ⟨l, hl, rfl⟩ := mem_leafIds.mp hp
    exact hT.leaf_occupied hv hl (hT.leaf_eq hl hpage)
  · refine ⟨_, hT.root_eq ▸ hT.stored.leftmost hv.node_min hT.filled, ?_⟩
    exact (hT.linked.chain hnull).congr (fun a _ q hq => Disk.next_iff.mpr hq)
  · intro p hp q hq
    rw [Disk.next_iff, Disk.prev_iff]
    exact hT.linked.next_iff_prev hnull hnull hp hq
  · intro p hp
    obtain ⟨l, hl⟩ := List.head?_eq_some_iff.mp hp
    have hs := hT.linked
    rw [hl] at hs
    exact Disk.prev_iff.mpr ⟨_, hs.1⟩
  · intro p hp
    obtain ⟨l, hl⟩ := List.getLast?_eq_some_iff.mp hp
    have hs := hT.linked
    rw [hl] at hs
    exact Disk.next_iff.mpr ⟨_, hs.links_eq⟩

end

section Reached

variable [Build] {s : BTreeState} {cfg : BTreeConfig}

/-- Whatever was inserted and removed, the list of the leaves is the tree read from left to
right. -/
theorem reached_leafList (hb : Build.ndebug = true) (hv : cfg.Valid) (h : Reached cfg s) :
    ∃ ids, LeafList s.pager.disk s.self.rootPgno ids := by
  obtain ⟨n, t, hs⟩ := h.standing hb hv
  exact ⟨leafIds t.spine, hs.planted.leafList hs.good hs.valid⟩

end Reached

theorem reached_leafList_insert :
    letI : Build := ⟨true⟩
    ∃ s : BTreeState, Reached {} (after (TreeOp.insert 1 [9]).run s) ∧ ∃ ids,
      LeafList (after (TreeOp.insert 1 [9]).run s).pager.disk
        (after (TreeOp.insert 1 [9]).run s).self.rootPgno ids := by
  let _ : Build := ⟨true⟩
  obtain ⟨root, t, -, -, hpage, -, hev⟩ := createRoot_returns fresh_good
  have h : Reached {} (after (TreeOp.insert 1 [9]).run ⟨t, [], root, {}⟩) :=
    .step (.empty hev.good rfl rfl hpage) trivial
  exact ⟨_, h, reached_leafList rfl default_valid h⟩

end Cpplite
