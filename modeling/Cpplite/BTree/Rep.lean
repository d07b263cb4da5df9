import Cpplite.BTree.Runs
import Cpplite.Lib.TreeOrder
import Cpplite.Pager.Good

/-!
A B+tree in the file.

`Stored` says that a tree stands on the pages its addresses name; the chain of leaf
links is kept apart from it, because relinking touches leaves all over the tree.
-/
namespace Cpplite

open Exec Search Linked HeightTree

abbrev BTree := Tree DefaultPagerKey Nat LeafCell

abbrev BTreeLeaf := Leaf Nat LeafCell

abbrev BTreeCtx := Ctx DefaultPagerKey Nat LeafCell

abbrev BTreeFrame (n : Nat) := Frame DefaultPagerKey Nat (BTree n)

abbrev BTreeNode (n : Nat) := Node DefaultPagerKey Nat (BTree n)

/-- A node with its children reduced to their page numbers. -/
abbrev NodeShape := Node DefaultPagerKey Nat Nat

abbrev Spine := List (BTreeLeaf ⊕ DefaultPagerKey)

/-! ### Trees on pages -/

/-- A page up to the links of a leaf. -/
def LogicalPage.core : LogicalPage → LogicalPage
  | .leaf cells _ _ => .leaf cells nullPage nullPage
  | l => l

theorem LogicalPage.eq_of_core {l l' : LogicalPage} (h : l'.core = l.core)
    (hl : ∀ cells a b, l ≠ .leaf cells a b) : l' = l := by
  cases l with
  | leaf cells a b => exact absurd rfl (hl cells a b)
  | _ =>
    cases l' <;> cases h
    rfl

def nodeCell (c : DefaultPagerKey × Nat) : NodeCell := ⟨c.1, c.2⟩

def Disk.IsNode (d : Disk) (s : NodeShape) : Prop :=
  d.page s.id = .node (s.cells.map nodeCell) s.right

def Disk.IsLeaf (d : Disk) (l : BTreeLeaf) : Prop :=
  ∃ prev next, d.page l.id = .leaf l.cells prev next

/-- The tree stands on its pages. -/
def Stored (d : Disk) {n : Nat} (t : BTree n) : Prop := t.All d.IsLeaf d.IsNode

/-- The context stands on its pages, pointing to `hole`. -/
def StoredCtx (d : Disk) {m n : Nat} (c : BTreeCtx m n) (hole : Nat) : Prop :=
  c.All d.IsLeaf d.IsNode hole

section Stored

variable {d d' : Disk} {m n : Nat} {t u : BTree n} {c : BTreeCtx m n} {f : BTreeFrame n}
  {hole : Nat} {k : DefaultPagerKey}

theorem Disk.IsNode.frame {s : NodeShape} (h : d.IsNode s)
    (hp : (d'.page s.id).core = (d.page s.id).core) : d'.IsNode s :=
  (LogicalPage.eq_of_core hp (by simp [show d.page s.id = _ from h])).trans h

theorem Disk.IsLeaf.frame {l : BTreeLeaf} (h : d.IsLeaf l)
    (hp : (d'.page l.id).core = (d.page l.id).core) : d'.IsLeaf l := by
  obtain ⟨prev, next, h⟩ := h
  rw [h] at hp
  cases hl : d'.page l.id with
  | leaf cells prev' next' =>
    rw [hl] at hp
    cases hp
    exact ⟨prev', next', hl⟩
  | _ => rw [hl] at hp; cases hp

theorem Stored.frame (h : Stored d t) (hf : ∀ p ∈ t.ids, (d'.page p).core = (d.page p).core) :
    Stored d' t :=
  Tree.All.imp h (fun _ hi hl => hl.frame (hf _ hi)) (fun _ hi hs => hs.frame (hf _ hi))

theorem StoredCtx.frame (h : StoredCtx d c hole)
    (hf : ∀ p ∈ c.ids, (d'.page p).core = (d.page p).core) : StoredCtx d' c hole :=
  Ctx.All.imp h (fun _ hi hl => hl.frame (hf _ hi)) (fun _ hi hs => hs.frame (hf _ hi))

theorem Disk.IsLeaf.isTree {l : BTreeLeaf} (h : d.IsLeaf l) : (d.page l.id).IsTree := by
  obtain ⟨prev, next, h⟩ := h
  rw [h]
  trivial

theorem Disk.IsNode.isTree {s : NodeShape} (h : d.IsNode s) : (d.page s.id).IsTree := by
  rw [h]
  trivial

theorem Stored.isTree (h : Stored d t) : ∀ p ∈ t.ids, (d.page p).IsTree :=
  Tree.All.forall_ids (q := fun p => (d.page p).IsTree) (fun _ => Disk.IsLeaf.isTree)
    (fun _ => Disk.IsNode.isTree) h

theorem StoredCtx.isTree (h : StoredCtx d c hole) : ∀ p ∈ c.ids, (d.page p).IsTree :=
  Ctx.All.forall_ids (q := fun p => (d.page p).IsTree) (fun _ => Disk.IsLeaf.isTree)
    (fun _ => Disk.IsNode.isTree) h

theorem stored_plug : Stored d (c.plug t) ↔ StoredCtx d c t.id ∧ Stored d t :=
  Ctx.all_plug c t

/-- The cells left of a frame's hole as the page has them. -/
def preCells (f : BTreeFrame n) : List NodeCell := f.pre.map (fun c => ⟨c.1, c.2.id⟩)

/-- The other cells and the right child as the page has them, with `x` in the hole. -/
def restCells : BTreeFrame n → Nat → List NodeCell × Nat
  | .last _ _, x => ([], x)
  | .mid _ _ k bs r, x => (⟨k, x⟩ :: bs.map (fun c => ⟨c.1, c.2.id⟩), r.id)

/-- The manager of a frame's page with `x` in the hole. -/
def frameManager (f : BTreeFrame n) (x : Nat) : NodePageManager :=
  nodeManager f.id (preCells f ++ (restCells f x).1) (restCells f x).2

@[simp] theorem length_preCells : (preCells f).length = f.pre.length := by simp [preCells]

theorem length_cells {x : Nat} : (preCells f ++ (restCells f x).1).length = f.size := by
  cases f <;> simp [preCells, restCells, Frame.size, Frame.pre]
  omega

theorem isNode_plug {x : Nat} : d.IsNode ((f.map Tree.id).plug x) ↔
    d.page f.id = .node (preCells f ++ (restCells f x).1) (restCells f x).2 := by
  have hid : ((f.map Tree.id).plug x).id = f.id := by simp
  rw [Disk.IsNode, hid]
  cases f <;> simp [Frame.map, Frame.plug, preCells, restCells, Frame.pre, nodeCell,
    Function.comp_def]

theorem isNode_plug₂ {x y : Nat} : d.IsNode ((f.map Tree.id).plug₂ x k y) ↔
    d.page f.id = .node (preCells f ++ ⟨k, x⟩ :: (restCells f y).1) (restCells f y).2 := by
  have hid : ((f.map Tree.id).plug₂ x k y).id = f.id := by simp
  rw [Disk.IsNode, hid]
  cases f <;> simp [Frame.map, Frame.plug₂, preCells, restCells, Frame.pre, nodeCell,
    Function.comp_def]

theorem storedCtx_step {up : BTreeCtx m (n + 1)} : StoredCtx d (.step f up) hole ↔
    d.page f.id = .node (preCells f ++ (restCells f hole).1) (restCells f hole).2 ∧
      (∀ u ∈ f.siblings, Stored d u) ∧ StoredCtx d up f.id := by
  rw [← isNode_plug]
  rfl

theorem stored_frame : Stored d (n := n + 1) (f.plug t) ↔
    d.page f.id = .node (preCells f ++ (restCells f t.id).1) (restCells f t.id).2 ∧
      Stored d t ∧ ∀ v ∈ f.siblings, Stored d v := by
  rw [← isNode_plug]
  exact Tree.all_plug

theorem stored_frame₂ : Stored d (n := n + 1) (f.plug₂ t k u) ↔
    d.page f.id = .node (preCells f ++ ⟨k, t.id⟩ :: (restCells f u.id).1) (restCells f u.id).2 ∧
      Stored d t ∧ Stored d u ∧ ∀ v ∈ f.siblings, Stored d v := by
  rw [← isNode_plug₂]
  exact Tree.all_plug₂

theorem preCells_lt (h : ∀ a ∈ f.pre, a.1 < k) : ∀ a ∈ preCells f, a.key < k := by
  intro a ha
  obtain ⟨b, hb, rfl⟩ := List.mem_map.mp ha
  exact h b hb

theorem lt_restCells {x : Nat} (h : ∀ b ∈ (f.rest t).1, k < b.1) :
    ∀ b ∈ (restCells f x).1, k < b.key := by
  intro b hb
  cases f with
  | last p as => cases hb
  | mid p as k' bs r =>
    rcases List.mem_cons.mp hb with rfl | hb
    · exact h (k', t) (by simp [Frame.rest])
    · obtain ⟨e, he, rfl⟩ := List.mem_map.mp hb
      exact h e (by simp [Frame.rest, he])

end Stored

/-! ### Cursors on trees -/

/-- The links of a leaf page. -/
def Disk.links (d : Disk) (p : Nat) : Option (Nat × Nat) :=
  match d.page p with
  | .leaf _ prev next => some (prev, next)
  | _ => none

theorem Disk.links_eq {d : Disk} {p prev next : Nat} {cells : List LeafCell}
    (h : d.page p = .leaf cells prev next) : d.links p = some (prev, next) := by
  simp [Disk.links, h]

theorem Disk.links_congr {d d' : Disk} {p : Nat} (h : d'.page p = d.page p) :
    d'.links p = d.links p := by
  simp [Disk.links, h]

theorem Disk.links_some {d : Disk} {p : Nat} {e : Nat × Nat} (h : d.links p = some e) :
    ∃ cells, d.page p = .leaf cells e.1 e.2 := by
  unfold Disk.links at h
  split at h
  · rename_i cells prev next hp
    cases h
    exact ⟨cells, hp⟩
  · cases h

def BTreeConfig.bounds (cfg : BTreeConfig) : Bounds where
  leafMin := cfg.leafMinCells
  leafMax := cfg.leafMaxCells
  nodeMin := cfg.nodeMinCells
  nodeMax := cfg.nodeMaxCells

/-- Occupancy bounds that splits and merges can keep. -/
structure BTreeConfig.Valid (cfg : BTreeConfig) : Prop where
  leaf_min : 1 ≤ cfg.leafMinCells
  leaf_split : 2 * cfg.leafMinCells ≤ cfg.leafMaxCells + 1
  leaf_max : cfg.leafMaxCells ≤ Cpplite.leafMaxCells
  node_min : 1 ≤ cfg.nodeMinCells
  node_split : 2 * cfg.nodeMinCells ≤ cfg.nodeMaxCells
  node_max : cfg.nodeMaxCells ≤ Cpplite.nodeMaxCells

/-- The tree `t` is what the cursor's root page holds, and it is a B+tree. -/
structure Planted (d : Disk) (c : BTreeCursor) {n : Nat} (t : BTree n) : Prop where
  root_eq : t.id = c.rootPgno
  stored : Stored d t
  nodup : t.ids.Nodup
  linked : Segment d.links nullPage (leafIds t.spine) nullPage
  ordered : Ordered LeafCell.key t.spine
  filled : t.RootFilled c.config.bounds

/-- A tree on its pages and in order, with no bounds asked of what stands in the hole. -/
structure Hung (d : Disk) (cur : BTreeCursor) {m n : Nat} (c : BTreeCtx m n) (t : BTree n) : Prop where
  good : d.Good
  root_eq : (c.plug t).id = cur.rootPgno
  stored : Stored d (c.plug t)
  nodup : (c.plug t).ids.Nodup
  ordered : Ordered LeafCell.key (c.plug t).spine
  ctx_filled : c.Filled cur.config.bounds

/-- What an update leaves: a tree again, on old pages of its own and on fresh ones. -/
structure Updated (d d' : Disk) (cur cur' : BTreeCursor) (ids : List Nat) {n : Nat} (t : BTree n) :
    Prop where
  planted : Planted d' cur' t
  config_eq : cur'.config = cur.config
  ids_mem : ∀ p ∈ t.ids, p ∈ ids ∨ d.total < p
  evolves : d.Evolves d' ids

theorem Planted.setCursor {d : Disk} {c : BTreeCursor} {n : Nat} {t : BTree n}
    (h : Planted d c t) (st : BTreeCursorStack) : Planted d { c with cursor := st } t :=
  ⟨h.root_eq, h.stored, h.nodup, h.linked, h.ordered, h.filled⟩

theorem Hung.setCursor {d : Disk} {cur : BTreeCursor} {m n : Nat} {c : BTreeCtx m n} {t : BTree n} (h : Hung d cur c t)
    (st : BTreeCursorStack) : Hung d { cur with cursor := st } c t :=
  ⟨h.good, h.root_eq, h.stored, h.nodup, h.ordered, h.ctx_filled⟩

/-- Only what stands at the top of the path is the root. -/
theorem Hung.root_iff {d : Disk} {cur : BTreeCursor} {m n : Nat} {c : BTreeCtx m n} {t : BTree n}
    (h : Hung d cur c t) : t.id = cur.rootPgno ↔ c.path = [] := by
  rw [← h.root_eq, Ctx.id_plug]
  cases c with
  | top => simp [Ctx.rootId, Ctx.path]
  | step f up =>
    simp only [Ctx.path, List.cons_ne_nil, iff_false]
    intro heq
    have hnd := (Ctx.ids_plug (.step f up) t).nodup_iff.mp h.nodup
    refine (List.nodup_append.mp hnd).2.2 t.id ?_ t.id t.id_mem_ids rfl
    rw [heq]
    exact Ctx.rootId_mem_ids

/-- The chain in place and the bounds met: a B+tree. -/
theorem Hung.planted {d : Disk} {cur : BTreeCursor} {m n : Nat} {c : BTreeCtx m n} {t : BTree n}
    (h : Hung d cur c t) (hl : Segment d.links nullPage (leafIds (c.plug t).spine) nullPage)
    (hf : c.HoleFilled cur.config.bounds t) : Planted d cur (c.plug t) :=
  ⟨h.root_eq, h.stored, h.nodup, hl, h.ordered, (Ctx.rootFilled_plug c t).mpr ⟨h.ctx_filled, hf⟩⟩

theorem Updated.setCursor {d d' : Disk} {cur cur' : BTreeCursor} {ids : List Nat} {n : Nat}
    {t : BTree n} (h : Updated d d' cur cur' ids t) (st : BTreeCursorStack) :
    Updated d d' cur { cur' with cursor := st } ids t :=
  ⟨h.planted.setCursor st, h.config_eq, h.ids_mem, h.evolves⟩

theorem entries_single (l : BTreeLeaf) :
    entries (Tree.spine (K := DefaultPagerKey) (n := 0) l) = l.cells := by
  simp [Tree.spine, Tree.fold]

theorem Updated.mono {d d' : Disk} {cur cur' : BTreeCursor} {ids ids' : List Nat} {n : Nat}
    {t : BTree n} (h : Updated d d' cur cur' ids t) (hs : ∀ p ∈ ids, p ∈ ids') :
    Updated d d' cur cur' ids' t :=
  ⟨h.planted, h.config_eq, fun p hp => (h.ids_mem p hp).imp_left (hs p), h.evolves.mono hs⟩

/-- Work before the update on pages the tree does not own. -/
theorem Updated.after {d e d' : Disk} {cur cur₁ cur' : BTreeCursor} {ids : List Nat} {n : Nat}
    {t : BTree n} (hg : d.Good) (hde : d.Evolves e ids) (hcfg : cur₁.config = cur.config)
    (h : Updated e d' cur₁ cur' ids t) : Updated d d' cur cur' ids t :=
  ⟨h.planted, h.config_eq.trans hcfg,
    fun p hp => (h.ids_mem p hp).imp_right hde.total_le.trans_lt,
    hde.trans hg h.evolves (fun _ hp => .inl hp)⟩

end Cpplite
