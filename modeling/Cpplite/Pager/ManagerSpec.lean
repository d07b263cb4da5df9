import Cpplite.Pager.Disk

/-!
What each manager method does to the logical file, for a manager that agrees with it.

The searches are described by the cut they find: the cells below the key and the
cells above it.
-/
namespace Cpplite

open Exec Search

variable {s : Pager} {p : Nat}

section Node

variable {cells lo hi : List NodeCell} {r c c' : Nat} {k k' : DefaultPagerKey}

/-- The manager a node page loads as. -/
def nodeManager (p : Nat) (cells : List NodeCell) (r : Nat) : NodePageManager :=
  ⟨p, cells, cells.length, nodeFree cells.length, r⟩

theorem nodeFree_mod (n : Nat) : nodeFree n % 2 ^ 16 = nodeFree n := by
  have : nodeFree n ≤ 4064 := by simp [nodeFree, pageSize, sizeofNodePageHeader]
  omega

/-- How a logical node page stands in the file. -/
theorem page_node (h : s.disk.page p = .node cells r) :
    ∃ area, s.file.read p = .node ⟨cells.length, nodeFree cells.length, r⟩ area ∧
      area.takeD cells.length default = cells ∧ cells.length ≤ nodeMaxCells ∧
      p ≠ 0 ∧ p ≤ s.file.numPages := by
  have hne : s.disk.page p ≠ .none := by simp [h]
  have hl := read_logical hne
  rw [h] at hl
  cases hr : s.file.read p with
  | node hd area =>
    rw [hr] at hl
    simp only [Page.logical] at hl
    split at hl
    · rename_i hok
      obtain ⟨rfl, rfl⟩ := (LogicalPage.node.injEq ..).mp hl
      refine ⟨area, ?_, by simp, by simpa using hok.1, disk_page_ne_zero hne, disk_page_le hne⟩
      simp [← hok.2]
    · cases hl
  | leaf hd area =>
    rw [hr] at hl
    simp only [Page.logical] at hl
    split at hl <;> cases hl
  | _ => rw [hr] at hl; cases hl

theorem logical_node {n f r : Nat} {area : List NodeCell} (ht : area.takeD n default = cells)
    (hn : n = cells.length) (hf : f = nodeFree cells.length) (hm : cells.length ≤ nodeMaxCells) :
    (Page.node ⟨n, f, r⟩ area).logical = .node cells r := by
  subst hn hf
  simp [Page.logical, hm, ht]

private theorem writeCells_ok {npm : NodePageManager} {h : PagerNodePageHeader}
    {area cs : List NodeCell} {i : Nat} (hr : s.file.read npm.pgno = .node h area)
    (h0 : npm.pgno ≠ 0) (msg : String) :
    npm.writeCells i cs msg s = .ok () (s.write npm.pgno (.node h (overwrite area i cs))) := by
  rw [NodePageManager.writeCells, bind_ok (readPage_ok h0 _), hr]
  exact writePage_ok h0 _

private theorem writeHeader_ok {npm : NodePageManager} {h : PagerNodePageHeader}
    {area : List NodeCell} (hr : s.file.read npm.pgno = .node h area) (h0 : npm.pgno ≠ 0)
    (msg : String) :
    npm.writeHeader msg s = .ok ()
      (s.write npm.pgno (.node ⟨npm.numCells, npm.totalBytesFree, npm.rightChild⟩ area)) := by
  rw [NodePageManager.writeHeader, bind_ok (readPage_ok h0 _), hr]
  exact writePage_ok h0 _

theorem nodeFree_succ {n : Nat} (h : n + 1 ≤ nodeMaxCells) :
    sizeofNodeCell ≤ nodeFree n ∧ nodeFree n - sizeofNodeCell = nodeFree (n + 1) ∧
      (nodeFree (n + 1) + sizeofNodeCell) % 2 ^ 16 = nodeFree n ∧
      sizeofNodePageHeader + (n + 1) * sizeofNodeCell + nodeFree (n + 1) = pageSize := by
  simp only [nodeFree, nodeMaxCells, pageSize, sizeofNodePageHeader, sizeofNodeCell] at *
  omega

theorem findNodeCellIdx_eq (hlo : ∀ a ∈ lo, a.key < k) (hhi : ∀ b ∈ hi, k < b.key) :
    (nodeManager p (lo ++ ⟨k, c⟩ :: hi) r).findNodeCellIdx k = some lo.length := by
  have : findKey NodeCell.key k (lo ++ ⟨k, c⟩ :: hi) = (true, lo.length) :=
    findKey_found (c := (⟨k, c⟩ : NodeCell)) hlo hhi
  simp [NodePageManager.findNodeCellIdx, nodeManager, this]

variable [Build]

theorem NodePageManager.load_ok (h : s.disk.page p = .node cells r) :
    NodePageManager.load p s = .ok (nodeManager p cells r) s := by
  obtain ⟨area, hr, ht, -, h0, -⟩ := page_node h
  rw [NodePageManager.load, bind_ok (readPage_ok h0 _), hr]
  simp only [ht, nodeFree_mod]
  rfl

theorem insertNodeCell_yields (h : s.disk.page p = .node (lo ++ hi) r)
    (hlo : ∀ a ∈ lo, a.key < k) (hhi : ∀ b ∈ hi, k < b.key)
    (hm : (lo ++ hi).length < nodeMaxCells) :
    Yields ((nodeManager p (lo ++ hi) r).insertNodeCell k) s
      (true, nodeManager p (lo ++ ⟨k, nullPage⟩ :: hi) r)
      (s.disk.set p (.node (lo ++ ⟨k, nullPage⟩ :: hi) r)) := by
  obtain ⟨area, hr, ht, -, h0, hp⟩ := page_node h
  obtain ⟨hfit, hsub, -, hsum⟩ := nodeFree_succ hm
  have hfind : findKey NodeCell.key k (lo ++ hi) = (false, lo.length) := findKey_missing hlo hhi
  have hlen : (lo ++ (⟨k, nullPage⟩ : NodeCell) :: hi).length = (lo ++ hi).length + 1 := by simp; omega
  simp only [Yields, NodePageManager.insertNodeCell, nodeManager]
  refine Returns.bind_eq (assert_ok (.inr rfl)) ?_
  simp only [hfind, not_lt.mpr hfit, if_false, Bool.false_eq_true, insertIdx_cut]
  refine Returns.bind_eq (writeCells_ok hr h0 _) ?_
  refine Returns.bind_eq (assert_ok (.inr (by simpa only [hsub] using hsum))) ?_
  refine Returns.bind_eq (writeHeader_ok read_write h0 _) ?_
  refine returns_pure.mpr ⟨by simp only [hlen, hsub], ?_⟩
  rw [write_write, disk_write h0 hp]
  congr 1
  exact logical_node (by rw [← hlen]; exact length_overwrite_takeD _ _) hlen.symm
    (by simp only [hlen, hsub]) (by omega)

theorem setCellLeftChild_yields (h : s.disk.page p = .node (lo ++ ⟨k, c⟩ :: hi) r)
    (hlo : ∀ a ∈ lo, a.key < k) (hhi : ∀ b ∈ hi, k < b.key) :
    Yields ((nodeManager p (lo ++ ⟨k, c⟩ :: hi) r).setCellLeftChild k c') s
      (nodeManager p (lo ++ ⟨k, c'⟩ :: hi) r) (s.disk.set p (.node (lo ++ ⟨k, c'⟩ :: hi) r)) := by
  obtain ⟨area, hr, ht, hm, h0, hp⟩ := page_node h
  simp only [Yields, NodePageManager.setCellLeftChild, findNodeCellIdx_eq hlo hhi]
  refine Returns.bind_eq (assert_ok (.inr rfl)) ?_
  refine Returns.bind_eq (assert_ok (.inr (by simp [nodeManager]))) ?_
  simp only [nodeManager, set_cut]
  refine Returns.bind_eq (writeCells_ok hr h0 _) ?_
  refine returns_pure.mpr ⟨by simp, ?_⟩
  rw [disk_write h0 hp]
  congr 1
  refine logical_node ?_ (by simp) (by simp) (by simpa using hm)
  rw [takeD_overwrite_single _ (by simp), ht, set_cut]

omit [Build] in
theorem setNodeRightChild_yields (h : s.disk.page p = .node cells r) :
    Yields ((nodeManager p cells r).setNodeRightChild c) s
      (nodeManager p cells c) (s.disk.set p (.node cells c)) := by
  obtain ⟨area, hr, ht, hm, h0, hp⟩ := page_node h
  simp only [Yields, NodePageManager.setNodeRightChild, nodeManager]
  refine Returns.bind_eq (writeHeader_ok hr h0 _) ?_
  refine returns_pure.mpr ⟨rfl, ?_⟩
  rw [disk_write h0 hp]
  congr 1
  exact logical_node ht rfl rfl hm

theorem deleteNodeCell_yields (h : s.disk.page p = .node (lo ++ ⟨k, c⟩ :: hi) r)
    (hlo : ∀ a ∈ lo, a.key < k) (hhi : ∀ b ∈ hi, k < b.key) :
    Yields ((nodeManager p (lo ++ ⟨k, c⟩ :: hi) r).deleteNodeCell k) s
      (nodeManager p (lo ++ hi) r) (s.disk.set p (.node (lo ++ hi) r)) := by
  obtain ⟨area, hr, ht, hm, h0, hp⟩ := page_node h
  have hlen : (lo ++ (⟨k, c⟩ : NodeCell) :: hi).length = (lo ++ hi).length + 1 := by simp; omega
  rw [hlen] at hm
  obtain ⟨-, -, hadd, -⟩ := nodeFree_succ hm
  simp only [Yields, NodePageManager.deleteNodeCell, findNodeCellIdx_eq hlo hhi]
  refine Returns.bind_eq (assert_ok (.inr rfl)) ?_
  simp only [nodeManager, eraseIdx_cut, hlen, hadd, Nat.add_sub_cancel]
  refine Returns.bind_eq (writeCells_ok hr h0 _) ?_
  refine Returns.bind_eq (writeHeader_ok read_write h0 _) ?_
  refine returns_pure.mpr ⟨rfl, ?_⟩
  rw [write_write, disk_write h0 hp]
  congr 1
  exact logical_node (length_overwrite_takeD _ _) rfl rfl (by omega)

theorem updateCellKey_yields (h : s.disk.page p = .node (lo ++ ⟨k, c⟩ :: hi) r)
    (hlo : ∀ a ∈ lo, a.key < k) (hhi : ∀ b ∈ hi, k < b.key) :
    Yields ((nodeManager p (lo ++ ⟨k, c⟩ :: hi) r).updateCellKey k k') s
      (nodeManager p (lo ++ ⟨k', c⟩ :: hi) r) (s.disk.set p (.node (lo ++ ⟨k', c⟩ :: hi) r)) := by
  obtain ⟨area, hr, ht, hm, h0, hp⟩ := page_node h
  have hlen : (lo ++ (⟨k', c⟩ : NodeCell) :: hi).length = (lo ++ (⟨k, c⟩ : NodeCell) :: hi).length := by
    simp
  simp only [Yields, NodePageManager.updateCellKey, findNodeCellIdx_eq hlo hhi]
  refine Returns.bind_eq (assert_ok (.inr rfl)) ?_
  simp only [nodeManager, modify_cut]
  refine Returns.bind_eq (writeCells_ok hr h0 _) ?_
  refine returns_pure.mpr ⟨by rw [hlen], ?_⟩
  rw [disk_write h0 hp]
  congr 1
  exact logical_node (by rw [← hlen]; exact length_overwrite_takeD _ _) hlen.symm (by rw [hlen])
    (by rw [hlen]; exact hm)

end Node

section Leaf

variable {cells lo hi : List LeafCell} {prev next q : Nat} {c : LeafCell}

/-- The manager a leaf page loads as. -/
def leafManager (p : Nat) (cells : List LeafCell) (prev next : Nat) : LeafPageManager :=
  ⟨p, cells, cells.length, leafFree cells.length, prev, next⟩

theorem leafFree_mod (n : Nat) : leafFree n % 2 ^ 16 = leafFree n := by
  have : leafFree n ≤ 4056 := by simp [leafFree, pageSize, sizeofLeafPageHeader]
  omega

/-- How a logical leaf page stands in the file. -/
theorem page_leaf (h : s.disk.page p = .leaf cells prev next) :
    ∃ area, s.file.read p = .leaf ⟨cells.length, leafFree cells.length, next, prev⟩ area ∧
      area.takeD cells.length default = cells ∧ cells.length ≤ leafMaxCells ∧
      p ≠ 0 ∧ p ≤ s.file.numPages := by
  have hne : s.disk.page p ≠ .none := by simp [h]
  have hl := read_logical hne
  rw [h] at hl
  cases hr : s.file.read p with
  | leaf hd area =>
    rw [hr] at hl
    simp only [Page.logical] at hl
    split at hl
    · rename_i hok
      obtain ⟨rfl, rfl, rfl⟩ := (LogicalPage.leaf.injEq ..).mp hl
      refine ⟨area, ?_, by simp, by simpa using hok.1, disk_page_ne_zero hne, disk_page_le hne⟩
      simp [← hok.2]
    · cases hl
  | node hd area =>
    rw [hr] at hl
    simp only [Page.logical] at hl
    split at hl <;> cases hl
  | _ => rw [hr] at hl; cases hl

theorem logical_leaf {n f : Nat} {area : List LeafCell} (ht : area.takeD n default = cells)
    (hn : n = cells.length) (hf : f = leafFree cells.length) (hm : cells.length ≤ leafMaxCells) :
    (Page.leaf ⟨n, f, next, prev⟩ area).logical = .leaf cells prev next := by
  subst hn hf
  simp [Page.logical, hm, ht]

theorem writeLeafCells_ok {lpm : LeafPageManager} {h : PagerLeafPageHeader}
    {area : List LeafCell} (hr : s.file.read lpm.pgno = .leaf h area)
    (h0 : lpm.pgno ≠ 0) (msg : String) :
    lpm.writeCells msg s = .ok () (s.write lpm.pgno (.leaf h (overwrite area 0 lpm.cells))) := by
  rw [LeafPageManager.writeCells, bind_ok (readPage_ok h0 _), hr]
  exact writePage_ok h0 _

theorem writeLeafHeader_ok {lpm : LeafPageManager} {h : PagerLeafPageHeader}
    {area : List LeafCell} (hr : s.file.read lpm.pgno = .leaf h area) (h0 : lpm.pgno ≠ 0)
    (msg : String) :
    lpm.writeHeader msg s = .ok () (s.write lpm.pgno
      (.leaf ⟨lpm.numCells, lpm.totalBytesFree, lpm.nextPage, lpm.prevPage⟩ area)) := by
  rw [LeafPageManager.writeHeader, bind_ok (readPage_ok h0 _), hr]
  exact writePage_ok h0 _

theorem leafFree_succ {n : Nat} (h : n + 1 ≤ leafMaxCells) :
    sizeofLeafCell ≤ leafFree n ∧ leafFree n - sizeofLeafCell = leafFree (n + 1) ∧
      (leafFree (n + 1) + sizeofLeafCell) % 2 ^ 16 = leafFree n ∧
      sizeofLeafPageHeader + (n + 1) * sizeofLeafCell + leafFree (n + 1) = pageSize := by
  simp only [leafFree, leafMaxCells, pageSize, sizeofLeafPageHeader, sizeofLeafCell] at *
  omega

private theorem setLeafPagePointers_ok {lpm : LeafPageManager} {h : PagerLeafPageHeader}
    {area : List LeafCell} {use : Bool} (hr : s.file.read lpm.pgno = .leaf h area)
    (h0 : lpm.pgno ≠ 0) :
    lpm.setLeafPagePointers q use s =
      .ok (if use then { lpm with prevPage := q } else { lpm with nextPage := q })
        (s.write lpm.pgno
          (.leaf (if use then { h with prevPage := q } else { h with nextPage := q }) area)) := by
  rw [LeafPageManager.setLeafPagePointers, bind_ok (readPage_ok h0 _), hr]
  exact bind_ok (writePage_ok h0 _)

theorem setPrevPage_yields (h : s.disk.page p = .leaf cells prev next) :
    Yields ((leafManager p cells prev next).setPrevPage q) s
      (leafManager p cells q next) (s.disk.set p (.leaf cells q next)) := by
  obtain ⟨area, hr, ht, hm, h0, hp⟩ := page_leaf h
  refine ⟨_, _, setLeafPagePointers_ok hr h0, rfl, ?_⟩
  rw [show (leafManager p cells prev next).pgno = p from rfl, disk_write h0 hp]
  congr 1
  exact logical_leaf ht rfl rfl hm

theorem setNextPage_yields (h : s.disk.page p = .leaf cells prev next) :
    Yields ((leafManager p cells prev next).setNextPage q) s
      (leafManager p cells prev q) (s.disk.set p (.leaf cells prev q)) := by
  obtain ⟨area, hr, ht, hm, h0, hp⟩ := page_leaf h
  refine ⟨_, _, setLeafPagePointers_ok hr h0, rfl, ?_⟩
  rw [show (leafManager p cells prev next).pgno = p from rfl, disk_write h0 hp]
  congr 1
  exact logical_leaf ht rfl rfl hm

variable [Build]

theorem LeafPageManager.load_ok (h : s.disk.page p = .leaf cells prev next) :
    LeafPageManager.load p s = .ok (leafManager p cells prev next) s := by
  obtain ⟨area, hr, ht, -, h0, -⟩ := page_leaf h
  rw [LeafPageManager.load, bind_ok (readPage_ok h0 _), hr]
  simp only [ht, leafFree_mod]
  rfl

theorem writeCell_yields (h : s.disk.page p = .leaf (lo ++ hi) prev next)
    (hlo : ∀ a ∈ lo, a.key < c.key) (hhi : ∀ b ∈ hi, c.key < b.key)
    (hm : (lo ++ hi).length < leafMaxCells) :
    Yields ((leafManager p (lo ++ hi) prev next).writeCell c) s
      (true, leafManager p (lo ++ c :: hi) prev next)
      (s.disk.set p (.leaf (lo ++ c :: hi) prev next)) := by
  obtain ⟨area, hr, ht, -, h0, hp⟩ := page_leaf h
  obtain ⟨hfit, hsub, -, hsum⟩ := leafFree_succ hm
  have hfind : findKey LeafCell.key c.key (lo ++ hi) = (false, lo.length) := findKey_missing hlo hhi
  have hlen : (lo ++ c :: hi).length = (lo ++ hi).length + 1 := by simp; omega
  simp only [Yields, LeafPageManager.writeCell, leafManager]
  refine Returns.bind_eq (assert_ok (.inr rfl)) ?_
  simp only [hfind, not_lt.mpr hfit, if_false, Bool.false_eq_true, insertIdx_cut]
  refine Returns.bind_eq (assert_ok (.inr (by simpa only [hsub] using hsum))) ?_
  refine Returns.bind_eq (writeLeafCells_ok hr h0 _) ?_
  refine Returns.bind_eq (writeLeafHeader_ok read_write h0 _) ?_
  refine returns_pure.mpr ⟨by simp only [hlen, hsub], ?_⟩
  rw [write_write, disk_write h0 hp]
  congr 1
  exact logical_leaf (by rw [← hlen]; exact length_overwrite_takeD _ _) hlen.symm
    (by simp only [hlen, hsub]) (by omega)

theorem deleteCell_yields (h : s.disk.page p = .leaf (lo ++ c :: hi) prev next)
    (hlo : ∀ a ∈ lo, a.key < c.key) (hhi : ∀ b ∈ hi, c.key < b.key) :
    Yields ((leafManager p (lo ++ c :: hi) prev next).deleteCell c.key) s
      (leafManager p (lo ++ hi) prev next) (s.disk.set p (.leaf (lo ++ hi) prev next)) := by
  obtain ⟨area, hr, ht, hm, h0, hp⟩ := page_leaf h
  have hlen : (lo ++ c :: hi).length = (lo ++ hi).length + 1 := by simp; omega
  rw [hlen] at hm
  obtain ⟨-, -, hadd, -⟩ := leafFree_succ hm
  have hfind : findKey LeafCell.key c.key (lo ++ c :: hi) = (true, lo.length) := findKey_found hlo hhi
  simp only [Yields, LeafPageManager.deleteCell, leafManager]
  refine Returns.bind_eq (assert_ok (.inr rfl)) ?_
  simp only [hfind, hlen, Nat.add_one_ne_zero, if_false, if_true, eraseIdx_cut, hadd,
    Nat.add_sub_cancel]
  refine Returns.bind_eq (writeLeafCells_ok hr h0 _) ?_
  refine Returns.bind_eq (writeLeafHeader_ok read_write h0 _) ?_
  refine returns_pure.mpr ⟨rfl, ?_⟩
  rw [write_write, disk_write h0 hp]
  congr 1
  exact logical_leaf (length_overwrite_takeD _ _) rfl rfl (by omega)

end Leaf

end Cpplite
