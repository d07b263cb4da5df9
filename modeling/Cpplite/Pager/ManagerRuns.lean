import Cpplite.Pager.ChainRuns

/-!
Whole sessions with one page manager: what it has in memory is what stands in the file.

Every method edits the vector of cells, the cells in the file and the header one after the
other. Between two calls they agree, and a call that throws or finds no room has not begun
to edit.
-/
namespace Cpplite

open Exec Search Linked

section Code

variable [Build]

/-! ### Calls -/

inductive LeafOp where
  | insertCell (key : DefaultPagerKey) (cellData : List Byte)
  | writeCell (cell : LeafCell)
  | deleteCell (key : DefaultPagerKey)
  | setPrevPage (pgno : Nat)
  | setNextPage (pgno : Nat)
deriving DecidableEq, Repr

/-- The call's answer, true where it has none, and the manager after it. -/
def LeafOp.run (lpm : LeafPageManager) : LeafOp → PagerM (Bool × LeafPageManager)
  | .insertCell key cellData => lpm.insertCell key cellData
  | .writeCell cell => lpm.writeCell cell
  | .deleteCell key => do
    let lpm ← lpm.deleteCell key
    pure (true, lpm)
  | .setPrevPage pgno => do
    let lpm ← lpm.setPrevPage pgno
    pure (true, lpm)
  | .setNextPage pgno => do
    let lpm ← lpm.setNextPage pgno
    pure (true, lpm)

inductive NodeOp where
  | insertNodeCell (key : DefaultPagerKey)
  | setCellLeftChild (key : DefaultPagerKey) (leftChild : Nat)
  | setNodeRightChild (rightChild : Nat)
  | updateCellKey (oldKey newKey : DefaultPagerKey)
  | deleteNodeCell (key : DefaultPagerKey)
deriving DecidableEq, Repr

def NodeOp.run (npm : NodePageManager) : NodeOp → PagerM (Bool × NodePageManager)
  | .insertNodeCell key => npm.insertNodeCell key
  | .setCellLeftChild key leftChild => do
    let npm ← npm.setCellLeftChild key leftChild
    pure (true, npm)
  | .setNodeRightChild rightChild => do
    let npm ← npm.setNodeRightChild rightChild
    pure (true, npm)
  | .updateCellKey oldKey newKey => do
    let npm ← npm.updateCellKey oldKey newKey
    pure (true, npm)
  | .deleteNodeCell key => do
    let npm ← npm.deleteNodeCell key
    pure (true, npm)

/-- A key is replaced by one between its neighbours. -/
def NodeOp.Ok (npm : NodePageManager) : NodeOp → Prop
  | .updateCellKey oldKey newKey => ∀ lo c hi, npm.cells = lo ++ c :: hi → c.key = oldKey →
    (∀ a ∈ lo, a.key < newKey) ∧ ∀ b ∈ hi, newKey < b.key
  | _ => True

/-- The file and the manager after a call; one that throws leaves the manager it was called on. -/
def after₂ {M : Type} (x : PagerM (Bool × M)) (m : M) (s : Pager) : M × Pager :=
  match x s with
  | .ok r t => (r.2, t)
  | .error _ t => (m, t)

def runLeaf (ops : List LeafOp) (σ : LeafPageManager × Pager) : LeafPageManager × Pager :=
  ops.foldl (fun σ op => after₂ (op.run σ.1) σ.1 σ.2) σ

def runNode (ops : List NodeOp) (σ : NodePageManager × Pager) : NodePageManager × Pager :=
  ops.foldl (fun σ op => after₂ (op.run σ.1) σ.1 σ.2) σ

def NodeOkAll (σ : NodePageManager × Pager) : List NodeOp → Prop
  | [] => True
  | op :: ops => op.Ok σ.1 ∧ NodeOkAll (after₂ (op.run σ.1) σ.1 σ.2) ops

/-! ### The files there are -/

/-- The files that the calls of a pager and of its page managers leave behind, from a fresh one on.
Each call goes through a manager of the page as it stands. -/
inductive FileReached : Pager → Prop where
  | fresh : FileReached Pager.fresh
  | pager {s : Pager} {op : Pager.Op} (h : FileReached s) (hop : op.Proper s) :
      FileReached (after op.run s)
  | leaf {s : Pager} {p : Nat} {lpm : LeafPageManager} {op : LeafOp} (h : FileReached s)
      (hl : LeafPageManager.load p s = .ok lpm s) : FileReached (after₂ (op.run lpm) lpm s).2
  | node {s : Pager} {p : Nat} {npm : NodePageManager} {op : NodeOp} (h : FileReached s)
      (hl : NodePageManager.load p s = .ok npm s) (hop : op.Ok npm) :
      FileReached (after₂ (op.run npm) npm s).2

/-- The cells of a page are in order and its header counts them and the bytes that are left. -/
def Page.Tidy : Page → Prop
  | .node h area => h.numCells ≤ nodeMaxCells ∧ h.totalBytesFree = nodeFree h.numCells ∧
    KeySorted NodeCell.key (area.takeD h.numCells default)
  | .leaf h area => h.numCells ≤ leafMaxCells ∧ h.totalBytesFree = leafFree h.numCells ∧
    KeySorted LeafCell.key (area.takeD h.numCells default)
  | _ => True

def Pager.Tidy (s : Pager) : Prop := ∀ q, (s.file.page q).Tidy

end Code

section Tidy

variable {s : Pager} {p : Nat} {page : Page} {msg : String}

theorem Pager.Tidy.write (h : s.Tidy) (hp : page.Tidy) : (s.write p page).Tidy := by
  intro q
  by_cases hq : q = p
  · subst hq
    simpa [Pager.write, OsFile.write] using hp
  · simpa [Pager.write, OsFile.write, Function.update_of_ne hq] using h q

theorem writePage_tidy (hp : page.Tidy) : Keeps Pager.Tidy (writePage p page msg) :=
  leaves_throw.keeps.ite (keeps_modify (fun _ h => h.write hp))

theorem osAppend_tidy (hp : page.Tidy) : Keeps Pager.Tidy (osAppend page) :=
  keeps_modify (fun _ h => h.write hp)

theorem writeFirstField_tidy {f : PagerFirstPageHeader → PagerFirstPageHeader} :
    Keeps Pager.Tidy (writeFirstField f) := by
  intro s h
  cases hr : s.file.read 1 with
  | first hd =>
    simp only [after, Pager.writeFirstField_eq hr]
    exact h.write trivial
  | _ =>
    have hrun : writeFirstField f s = .error .undefined s := by
      rw [writeFirstField, bind_ok get_ok, hr]
      rfl
    simp only [after, hrun]
    exact h

theorem setFreePageHead_tidy {fpm : FirstPageManager} :
    Keeps Pager.Tidy (fpm.setFreePageHead p) :=
  writeFirstField_tidy.bind (fun _ => leaves_pure.keeps)

theorem osTotal_tidy {g : Pager → Nat} :
    Keeps Pager.Tidy (modify (fun s => { s with totalNumPages := g s }) : PagerM Unit) :=
  keeps_modify (fun _ h => h)

theorem appendPage_tidy (hp : page.Tidy) : Keeps Pager.Tidy (appendPage page) := by
  refine leaves_get.keeps.bind (fun _ => (osAppend_tidy hp).bind (fun _ => ?_))
  refine osTotal_tidy.bind (fun _ => firstPageManager_load_leaves.keeps.bind (fun _ => ?_))
  exact (writeFirstField_tidy.bind (fun _ => leaves_pure.keeps)).bind (fun _ => leaves_pure.keeps)

variable [Build]

theorem takePages_tidy (n : Nat) : ∀ (fpm : FirstPageManager) (head : Nat),
    Keeps Pager.Tidy (takePages n fpm head) := by
  induction n with
  | zero => exact fun _ _ => leaves_pure.keeps
  | succ n ih =>
    intro fpm head
    refine Keeps.ite ?_ ?_
    · refine freePageManager_load_leaves.keeps.bind (fun _ => setFreePageHead_tidy.bind (fun _ => ?_))
      exact (ih _ _).bind (fun _ => leaves_pure.keeps)
    · refine osTotal_tidy.bind (fun _ => leaves_get.keeps.bind (fun _ => ?_))
      refine Keeps.bind (osAppend_tidy ?_) (fun _ => (ih _ _).bind (fun _ => leaves_pure.keeps))
      exact trivial

omit [Build] in
theorem writeChunks_tidy (l : List (Nat × List Byte)) : Keeps Pager.Tidy (writeChunks l) := by
  induction l with
  | nil => exact leaves_pure.keeps
  | cons x l ih =>
    refine Keeps.bind (writePage_tidy ?_) (fun _ => ih)
    exact trivial

theorem createOverflowPage_tidy {payload : List Byte} :
    Keeps Pager.Tidy (createOverflowPage payload) := by
  rw [createOverflowPage, writeOverflowChain]
  cases payloadChunks payload with
  | none => exact leaves_throw.keeps
  | some chunks =>
    cases chunks with
    | nil => exact leaves_pure.keeps
    | cons chunk chunks =>
      refine firstPageManager_load_leaves.keeps.bind (fun _ => (takePages_tidy _ _ _).bind (fun _ => ?_))
      exact (writeChunks_tidy _).bind (fun _ => leaves_index.keeps)

/-- The calls of the pager write no cells. -/
theorem Pager.Op.run_tidy (op : Pager.Op) : Keeps Pager.Tidy op.run := by
  have hrefuse : Keeps Pager.Tidy (do
      assert False
      throw (.runtimeError "[Pager:create_page]: Can only create free or node pages") :
        PagerM Nat) :=
    leaves_assert.keeps.bind (fun _ => leaves_throw.keeps)
  cases op with
  | createPage type =>
    refine Keeps.bind ?_ (fun _ => leaves_pure.keeps)
    cases type with
    | freePage =>
      refine firstPageManager_load_leaves.keeps.bind (fun _ => osTotal_tidy.bind (fun _ => ?_))
      refine leaves_get.keeps.bind (fun _ => Keeps.bind (osAppend_tidy ?_) (fun _ => ?_))
      · exact trivial
      · exact setFreePageHead_tidy.bind (fun _ => leaves_pure.keeps)
    | nodePage => exact appendPage_tidy ⟨by decide, rfl, .nil⟩
    | leafPage => exact appendPage_tidy ⟨by decide, rfl, .nil⟩
    | firstPage => exact hrefuse
    | overflowPage => exact hrefuse
  | createOverflowPage payload => exact createOverflowPage_tidy.bind (fun _ => leaves_pure.keeps)
  | insertFreelist pgno =>
    refine leaves_assert.keeps.bind (fun _ => firstPageManager_load_leaves.keeps.bind (fun _ => ?_))
    exact setFreePageHead_tidy.bind (fun _ => writePage_tidy trivial)
  | popFreelist =>
    refine Keeps.bind ?_ (fun _ => leaves_pure.keeps)
    refine firstPageManager_load_leaves.keeps.bind (fun _ => leaves_pure.keeps.ite ?_)
    refine readPage_leaves.keeps.bind (fun _ => ?_)
    exact setFreePageHead_tidy.bind (fun _ => leaves_pure.keeps)
  | setNextOid oid =>
    refine firstPageManager_load_leaves.keeps.bind (fun _ => ?_)
    exact (writeFirstField_tidy.bind (fun _ => leaves_pure.keeps)).bind (fun _ => leaves_pure.keeps)

end Tidy

/-! ### One call -/

/-- The manager is the one a constructor would make of the file, with its cells in order and every
byte of the page accounted for. -/
structure LeafAgrees [Build] (p : Nat) (lpm : LeafPageManager) (s : Pager) : Prop where
  load_eq : LeafPageManager.load p s = .ok lpm s
  sorted : KeySorted LeafCell.key lpm.cells
  num_cells : lpm.numCells = lpm.cells.length
  bytes : sizeofLeafPageHeader + lpm.numCells * sizeofLeafCell + lpm.totalBytesFree = pageSize

structure NodeAgrees [Build] (p : Nat) (npm : NodePageManager) (s : Pager) : Prop where
  load_eq : NodePageManager.load p s = .ok npm s
  sorted : KeySorted NodeCell.key npm.cells
  num_cells : npm.numCells = npm.cells.length
  bytes : sizeofNodePageHeader + npm.numCells * sizeofNodeCell + npm.totalBytesFree = pageSize

/-- A call on page `p` writes that page and, with a new overflow chain, the chain's pages and the
head of the free list. The chain's pages were nobody's. -/
structure Touches (s t : Pager) (p : Nat) (chain : List Nat) : Prop where
  others : ∀ q, q ≠ p → q ≠ 1 → q ∉ chain → t.file.read q = s.file.read q
  header : ∃ hd head, s.file.read 1 = .first hd ∧
    t.file.read 1 = .first { hd with freePageHead := head } ∧ (chain = [] → head = hd.freePageHead)
  unused : ∀ q ∈ chain, (∃ next, s.disk.page q = .free next) ∨ s.totalNumPages < q
  overflow : ∀ q ∈ chain, ∃ next content, t.disk.page q = .overflow next content

/-- How a call through a manager ends: it did its work, there was no room, or it was refused. -/
inductive Outcome {M : Type} (s : Pager) (p : Nat) (m : M) (Agrees : M → Pager → Prop)
    (Refusal : Error → Prop) (Chains : Prop) : EStateM.Result Error Pager (Bool × M) → Prop where
  | done {m' : M} {t : Pager} {chain : List Nat} (hm : Agrees m' t) (hgood : t.disk.Good)
      (htidy : t.Tidy) (htouch : Touches s t p chain) (hchain : chain = [] ∨ Chains) :
      Outcome s p m Agrees Refusal Chains (.ok (true, m') t)
  | full : Outcome s p m Agrees Refusal Chains (.ok (false, m) s)
  | refused {e : Error} (he : Refusal e) : Outcome s p m Agrees Refusal Chains (.error e s)

/-- What a call may throw, and where it would never end. -/
def LeafOp.Refusal : LeafOp → Error → Prop
  | .insertCell _ cellData, e =>
    e = .runtimeError "[LeafPageManager]: Duplicate leaf cell key" ∨
      payloadChunks cellData = none ∧ e = .diverges
  | .writeCell _, e => e = .runtimeError "[LeafPageManager]: Duplicate leaf cell key"
  | .deleteCell _, e => e = .runtimeError "[LeafPageManager:delete_cell]: Key not found"
  | _, _ => False

/-- The call stores a payload. -/
def LeafOp.Chains : LeafOp → Prop
  | .insertCell _ _ => True
  | _ => False

def NodeOp.Refusal : NodeOp → Error → Prop
  | .insertNodeCell _, e => e = .runtimeError "[NodePageManager]: Duplicate node cell key"
  | .setCellLeftChild _ _, e =>
    e = .runtimeError "[NodePageManager:set_cell_left_child]: Key not found"
  | .updateCellKey _ _, e => e = .runtimeError "[NodePageManager:update_cell_key]: Key not found"
  | .deleteNodeCell _, e => e = .runtimeError "[NodePageManager:delete_node_cell]: Key not found"
  | .setNodeRightChild _, _ => False

/-- If the program returns, it has written page `p` or nothing. -/
def WritesOnly {α : Type} (p : Nat) (x : PagerM α) : Prop :=
  ∀ s a t, x s = .ok a t → t = s ∨ ∃ page, t = s.write p page

section WritesOnly

variable {α β : Type} {p : Nat} {x y : PagerM α} {f : α → PagerM β} {page : Page} {msg : String}

theorem writesOnly_of_leaves (h : Leaves id x) : WritesOnly p x :=
  fun _ _ _ hx => .inl (h.of_ok hx)

theorem WritesOnly.bind (hx : WritesOnly p x) (hf : ∀ a, WritesOnly p (f a)) :
    WritesOnly p (x >>= f) := by
  intro s b u h
  obtain ⟨a, t, ha, hb⟩ := bind_eq_ok h
  rcases hx s a t ha with rfl | ⟨page, rfl⟩
  · exact hf a _ b u hb
  · rcases hf a _ b u hb with rfl | ⟨page', rfl⟩
    · exact .inr ⟨page, rfl⟩
    · exact .inr ⟨page', write_write⟩

theorem WritesOnly.ite {c : Prop} [Decidable c] (hx : WritesOnly p x) (hy : WritesOnly p y) :
    WritesOnly p (if c then x else y) := by
  by_cases hc : c
  · simpa only [hc, if_true] using hx
  · simpa only [hc, if_false] using hy

theorem writesOnly_writePage : WritesOnly p (writePage p page msg) := by
  intro s a t h
  by_cases h0 : p = 0
  · rw [writePage, if_pos h0] at h
    cases h
  · rw [writePage_ok h0] at h
    cases h
    exact .inr ⟨page, rfl⟩

theorem writesOnly_writeCells {lpm : LeafPageManager} :
    WritesOnly lpm.pgno (lpm.writeCells msg) := by
  refine (writesOnly_of_leaves readPage_leaves).bind ?_
  intro page
  cases page with
  | leaf h area => exact writesOnly_writePage
  | _ => exact writesOnly_of_leaves leaves_throw

theorem writesOnly_writeHeader {lpm : LeafPageManager} :
    WritesOnly lpm.pgno (lpm.writeHeader msg) := by
  refine (writesOnly_of_leaves readPage_leaves).bind ?_
  intro page
  cases page with
  | leaf h area => exact writesOnly_writePage
  | _ => exact writesOnly_of_leaves leaves_throw

theorem writesOnly_setLeafPagePointers {lpm : LeafPageManager} {q : Nat} {use : Bool} :
    WritesOnly lpm.pgno (lpm.setLeafPagePointers q use) := by
  refine (writesOnly_of_leaves readPage_leaves).bind ?_
  intro page
  cases page with
  | leaf h area => exact writesOnly_writePage.bind (fun _ => writesOnly_of_leaves leaves_pure)
  | _ => exact writesOnly_of_leaves leaves_throw

theorem writesOnly_writeNodeCells {npm : NodePageManager} {i : Nat} {cells : List NodeCell} :
    WritesOnly npm.pgno (npm.writeCells i cells msg) := by
  refine (writesOnly_of_leaves readPage_leaves).bind ?_
  intro page
  cases page with
  | node h area => exact writesOnly_writePage
  | _ => exact writesOnly_of_leaves leaves_throw

theorem writesOnly_writeNodeHeader {npm : NodePageManager} :
    WritesOnly npm.pgno (npm.writeHeader msg) := by
  refine (writesOnly_of_leaves readPage_leaves).bind ?_
  intro page
  cases page with
  | node h area => exact writesOnly_writePage
  | _ => exact writesOnly_of_leaves leaves_throw

variable [Build]

theorem writesOnly_writeCell {lpm : LeafPageManager} {cell : LeafCell} :
    WritesOnly lpm.pgno (lpm.writeCell cell) := by
  refine (writesOnly_of_leaves leaves_assert).bind (fun _ => ?_)
  refine (writesOnly_of_leaves leaves_pure).ite ((writesOnly_of_leaves leaves_throw).ite ?_)
  refine (writesOnly_of_leaves leaves_assert).bind (fun _ => writesOnly_writeCells.bind (fun _ => ?_))
  exact writesOnly_writeHeader.bind (fun _ => writesOnly_of_leaves leaves_pure)

theorem writesOnly_deleteCell {lpm : LeafPageManager} {key : DefaultPagerKey} :
    WritesOnly lpm.pgno (lpm.deleteCell key) := by
  refine (writesOnly_of_leaves leaves_assert).bind (fun _ => ?_)
  refine (writesOnly_of_leaves leaves_pure).ite (WritesOnly.ite ?_ (writesOnly_of_leaves leaves_throw))
  refine writesOnly_writeCells.bind (fun _ => ?_)
  exact writesOnly_writeHeader.bind (fun _ => writesOnly_of_leaves leaves_pure)

theorem writesOnly_insertNodeCell {npm : NodePageManager} {key : DefaultPagerKey} :
    WritesOnly npm.pgno (npm.insertNodeCell key) := by
  refine (writesOnly_of_leaves leaves_assert).bind (fun _ => ?_)
  refine (writesOnly_of_leaves leaves_pure).ite ((writesOnly_of_leaves leaves_throw).ite ?_)
  refine writesOnly_writeNodeCells.bind (fun _ => (writesOnly_of_leaves leaves_assert).bind (fun _ => ?_))
  exact writesOnly_writeNodeHeader.bind (fun _ => writesOnly_of_leaves leaves_pure)

theorem writesOnly_setCellLeftChild {npm : NodePageManager} {key : DefaultPagerKey} {c : Nat} :
    WritesOnly npm.pgno (npm.setCellLeftChild key c) := by
  refine (writesOnly_of_leaves leaves_assert).bind (fun _ => ?_)
  cases npm.findNodeCellIdx key with
  | none => exact writesOnly_of_leaves leaves_throw
  | some i =>
    refine (writesOnly_of_leaves leaves_assert).bind (fun _ => ?_)
    exact writesOnly_writeNodeCells.bind (fun _ => writesOnly_of_leaves leaves_pure)

omit [Build] in
theorem writesOnly_setNodeRightChild {npm : NodePageManager} {c : Nat} :
    WritesOnly npm.pgno (npm.setNodeRightChild c) :=
  writesOnly_writeNodeHeader.bind (fun _ => writesOnly_of_leaves leaves_pure)

theorem writesOnly_updateCellKey {npm : NodePageManager} {k k' : DefaultPagerKey} :
    WritesOnly npm.pgno (npm.updateCellKey k k') := by
  refine (writesOnly_of_leaves leaves_assert).bind (fun _ => ?_)
  cases npm.findNodeCellIdx k with
  | none => exact writesOnly_of_leaves leaves_throw
  | some i => exact writesOnly_writeNodeCells.bind (fun _ => writesOnly_of_leaves leaves_pure)

theorem writesOnly_deleteNodeCell {npm : NodePageManager} {key : DefaultPagerKey} :
    WritesOnly npm.pgno (npm.deleteNodeCell key) := by
  refine (writesOnly_of_leaves leaves_assert).bind (fun _ => ?_)
  cases npm.findNodeCellIdx key with
  | none => exact writesOnly_of_leaves leaves_throw
  | some i =>
    refine writesOnly_writeNodeCells.bind (fun _ => ?_)
    exact writesOnly_writeNodeHeader.bind (fun _ => writesOnly_of_leaves leaves_pure)

end WritesOnly

section Outcome

variable {α : Type} {s t : Pager} {p prev next r : Nat} {page : Page} {leafCells : List LeafCell}
  {nodeCells : List NodeCell}

theorem tidy_of_leaf (h : page.logical = .leaf leafCells prev next)
    (hs : KeySorted LeafCell.key leafCells) : page.Tidy := by
  cases page with
  | leaf hd area =>
    simp only [Page.logical] at h
    split at h
    · rename_i hok
      obtain ⟨rfl, -, -⟩ := (LogicalPage.leaf.injEq ..).mp h
      exact ⟨hok.1, hok.2, hs⟩
    · cases h
  | node hd area =>
    simp only [Page.logical] at h
    split at h <;> cases h
  | _ => cases h

theorem tidy_of_node (h : page.logical = .node nodeCells r)
    (hs : KeySorted NodeCell.key nodeCells) : page.Tidy := by
  cases page with
  | node hd area =>
    simp only [Page.logical] at h
    split at h
    · rename_i hok
      obtain ⟨rfl, -⟩ := (LogicalPage.node.injEq ..).mp h
      exact ⟨hok.1, hok.2, hs⟩
    · cases h
  | leaf hd area =>
    simp only [Page.logical] at h
    split at h <;> cases h
  | _ => cases h

/-- A call that writes one page of a tree touches nothing else. -/
theorem touches_write (hg : s.disk.Good) (hp : (s.disk.page p).IsTree)
    (hw : t = s ∨ ∃ page, t = s.write p page) : Touches s t p [] := by
  obtain ⟨hd, h1⟩ := hg.sound.first
  have hp1 := hg.ne_one hp
  have hle : p ≤ s.file.numPages := disk_page_le hp.inUse.1
  have hsame : ∀ q, q ≠ p → t.file.read q = s.file.read q := by
    intro q hq
    rcases hw with rfl | ⟨page, rfl⟩
    · rfl
    · exact Pager.read_write_of_ne hq hle
  refine ⟨fun q hq _ _ => hsame q hq, ⟨hd, hd.freePageHead, (page_first h1).1, ?_, fun _ => rfl⟩,
    nofun, nofun⟩
  rw [hsame 1 (Ne.symm hp1)]
  exact (page_first h1).1

theorem tidy_write (ht : s.Tidy) (hw : t = s ∨ ∃ page, t = s.write p page)
    (hp : p ≠ 0) (hle : p ≤ s.file.numPages)
    (hpage : ∀ page : Page, page.logical = t.disk.page p → page.Tidy) : t.Tidy := by
  rcases hw with rfl | ⟨page, rfl⟩
  · exact ht
  · refine ht.write (hpage page ?_)
    rw [disk_write hp hle, Disk.set_page_self]

variable [Build]

theorem leafAgrees_of_page (h : s.disk.page p = .leaf leafCells prev next)
    (hs : KeySorted LeafCell.key leafCells) :
    LeafAgrees p (leafManager p leafCells prev next) s := by
  obtain ⟨-, -, -, hm, -⟩ := page_leaf h
  refine ⟨LeafPageManager.load_ok h, hs, rfl, ?_⟩
  simp only [leafManager, leafFree, leafMaxCells, pageSize, sizeofLeafPageHeader,
    sizeofLeafCell] at hm ⊢
  omega

theorem nodeAgrees_of_page (h : s.disk.page p = .node nodeCells r)
    (hs : KeySorted NodeCell.key nodeCells) : NodeAgrees p (nodeManager p nodeCells r) s := by
  obtain ⟨-, -, -, hm, -⟩ := page_node h
  refine ⟨NodePageManager.load_ok h, hs, rfl, ?_⟩
  simp only [nodeManager, nodeFree, nodeMaxCells, pageSize, sizeofNodePageHeader,
    sizeofNodeCell] at hm ⊢
  omega

theorem refuse_ne_ok {a : α} :
    (do assert False; throw .undefined : PagerM α) s ≠ .ok a t := by
  intro h
  obtain ⟨_, u, -, hthrow⟩ := bind_eq_ok h
  cases hthrow

/-- What a constructor can be made of. -/
theorem leaf_of_load {lpm : LeafPageManager} (ht : s.Tidy)
    (hl : LeafPageManager.load p s = .ok lpm s) :
    ∃ cells prev next, s.disk.page p = .leaf cells prev next ∧ KeySorted LeafCell.key cells ∧
      lpm = leafManager p cells prev next := by
  have hl' := hl
  rw [LeafPageManager.load] at hl'
  obtain ⟨page, s', hread, hl'⟩ := bind_eq_ok hl'
  have hp : p ≠ 0 := by
    rintro rfl
    cases hread
  rw [readPage_ok hp] at hread
  cases hread
  cases hr : s.file.read p with
  | leaf hd area =>
    have hle : p ≤ s.file.numPages := by
      by_contra hgt
      rw [OsFile.read, if_neg hgt] at hr
      cases hr
    have htidy := ht p
    rw [OsFile.read, if_pos hle] at hr
    rw [hr] at htidy
    have hpage : s.disk.page p = .leaf (area.takeD hd.numCells default) hd.prevPage hd.nextPage := by
      simp only [Pager.disk, hp, if_false, OsFile.read, if_pos hle, hr, Page.logical]
      rw [if_pos ⟨htidy.1, htidy.2.1⟩]
    refine ⟨_, _, _, hpage, htidy.2.2, ?_⟩
    rw [LeafPageManager.load_ok hpage] at hl
    cases hl
    rfl
  | blank =>
    rw [hr] at hl'
    cases hl'
  | _ =>
    rw [hr] at hl'
    exact absurd hl' refuse_ne_ok

theorem node_of_load {npm : NodePageManager} (ht : s.Tidy)
    (hl : NodePageManager.load p s = .ok npm s) :
    ∃ cells r, s.disk.page p = .node cells r ∧ KeySorted NodeCell.key cells ∧
      npm = nodeManager p cells r := by
  have hl' := hl
  rw [NodePageManager.load] at hl'
  obtain ⟨page, s', hread, hl'⟩ := bind_eq_ok hl'
  have hp : p ≠ 0 := by
    rintro rfl
    cases hread
  rw [readPage_ok hp] at hread
  cases hread
  cases hr : s.file.read p with
  | node hd area =>
    have hle : p ≤ s.file.numPages := by
      by_contra hgt
      rw [OsFile.read, if_neg hgt] at hr
      cases hr
    have htidy := ht p
    rw [OsFile.read, if_pos hle] at hr
    rw [hr] at htidy
    have hpage : s.disk.page p = .node (area.takeD hd.numCells default) hd.rightChild := by
      simp only [Pager.disk, hp, if_false, OsFile.read, if_pos hle, hr, Page.logical]
      rw [if_pos ⟨htidy.1, htidy.2.1⟩]
    refine ⟨_, _, hpage, htidy.2.2, ?_⟩
    rw [NodePageManager.load_ok hpage] at hl
    cases hl
    rfl
  | blank =>
    rw [hr] at hl'
    cases hl'
  | _ =>
    rw [hr] at hl'
    exact absurd hl' refuse_ne_ok

section Ends

variable {M : Type} {m : M} {Agrees : M → Pager → Prop} {Refusal : Error → Prop} {Chains : Prop}
  {x : PagerM (Bool × M)}

omit [Build] in
theorem outcome_full (h : Returns x s (fun res t => res = (false, m) ∧ t = s)) :
    Outcome s p m Agrees Refusal Chains (x s) := by
  obtain ⟨res, t, hrun, rfl, rfl⟩ := h
  rw [hrun]
  exact .full

omit [Build] in
theorem outcome_refused (h : Raises x s (fun e t => Refusal e ∧ t = s)) :
    Outcome s p m Agrees Refusal Chains (x s) := by
  obtain ⟨e, t, hrun, he, rfl⟩ := h
  rw [hrun]
  exact .refused he

omit [Build] in
/-- A method without an answer. -/
theorem yields_true {y : PagerM M} {d : Disk} (h : Yields y s m d) :
    Yields (do let m ← y; pure (true, m)) s (true, m) d :=
  h.bind (fun _ ht => returns_pure.mpr ⟨rfl, ht⟩)

theorem outcome_leaf {lpm : LeafPageManager} {y : PagerM (Bool × LeafPageManager)}
    (hg : s.disk.Good) (ht : s.Tidy) (hp : (s.disk.page p).IsTree) (hw : WritesOnly p y)
    (hs : KeySorted LeafCell.key leafCells)
    (hy : Yields y s (true, leafManager p leafCells prev next)
      (s.disk.set p (.leaf leafCells prev next))) :
    Outcome s p lpm (LeafAgrees p) Refusal Chains (y s) := by
  obtain ⟨res, t, hrun, rfl, htd⟩ := hy
  have hpage : t.disk.page p = .leaf leafCells prev next := by rw [htd, Disk.set_page_self]
  rw [hrun]
  refine .done (leafAgrees_of_page hpage hs) (by rw [htd]; exact hg.set hp) ?_
    (touches_write hg hp (hw s _ t hrun)) (.inl rfl)
  refine tidy_write ht (hw s _ t hrun) (hg.ne_zero hp.inUse.1) (disk_page_le hp.inUse.1) ?_
  intro page hl
  exact tidy_of_leaf (hl.trans hpage) hs

theorem outcome_node {npm : NodePageManager} {y : PagerM (Bool × NodePageManager)}
    (hg : s.disk.Good) (ht : s.Tidy) (hp : (s.disk.page p).IsTree) (hw : WritesOnly p y)
    (hs : KeySorted NodeCell.key nodeCells)
    (hy : Yields y s (true, nodeManager p nodeCells r) (s.disk.set p (.node nodeCells r))) :
    Outcome s p npm (NodeAgrees p) Refusal Chains (y s) := by
  obtain ⟨res, t, hrun, rfl, htd⟩ := hy
  have hpage : t.disk.page p = .node nodeCells r := by rw [htd, Disk.set_page_self]
  rw [hrun]
  refine .done (nodeAgrees_of_page hpage hs) (by rw [htd]; exact hg.set hp) ?_
    (touches_write hg hp (hw s _ t hrun)) (.inl rfl)
  refine tidy_write ht (hw s _ t hrun) (hg.ne_zero hp.inUse.1) (disk_page_le hp.inUse.1) ?_
  intro page hl
  exact tidy_of_node (hl.trans hpage) hs

end Ends

omit [Build] in
theorem leafFree_full (h : ¬ leafCells.length < leafMaxCells) :
    sizeofLeafCell > leafFree leafCells.length := by
  simp only [leafFree, leafMaxCells, pageSize, sizeofLeafPageHeader, sizeofLeafCell] at h ⊢
  omega

omit [Build] in
theorem nodeFree_full (h : ¬ nodeCells.length < nodeMaxCells) :
    sizeofNodeCell > nodeFree nodeCells.length := by
  simp only [nodeFree, nodeMaxCells, pageSize, sizeofNodePageHeader, sizeofNodeCell] at h ⊢
  omega

/-- The chain of an insertion and the page of its cell. -/
theorem insertCell_outcome {lo hi : List LeafCell} {key : DefaultPagerKey} {cellData : List Byte}
    (hg : s.disk.Good) (ht : s.Tidy) (h : s.disk.page p = .leaf (lo ++ hi) prev next)
    (hs : KeySorted LeafCell.key (lo ++ hi)) (hlo : ∀ a ∈ lo, a.key < key)
    (hhi : ∀ b ∈ hi, key < b.key) (hm : (lo ++ hi).length < leafMaxCells) :
    Outcome s p (leafManager p (lo ++ hi) prev next) (LeafAgrees p)
      (LeafOp.insertCell key cellData).Refusal True
      ((leafManager p (lo ++ hi) prev next).insertCell key cellData s) := by
  cases hch : payloadChunks cellData with
  | none =>
    obtain ⟨e, t, hrun, rfl, rfl⟩ := insertCell_diverges (findKey_missing hlo hhi) hm hch
    exact outcome_refused ⟨_, _, hrun, .inr ⟨hch, rfl⟩, rfl⟩
  | some chunks =>
    obtain ⟨fl, hf⟩ := hg.free
    obtain ⟨hd, h1⟩ := hg.sound.first
    obtain ⟨rp, t, page, hmake, hw, hrun, hpage, h0, hp⟩ :=
      insertCell_eq hg.sound hf hch h hlo hhi hm
    have htree : (s.disk.page p).IsTree := by rw [h]; trivial
    have hp1 := hg.ne_one htree
    have hev : s.disk.Evolves t.disk [] := .of_chainWritten hg hf hw
    have hptree : (t.disk.page p).IsTree := by
      rw [hev.same p hp1 (by simp) htree.inUse]
      exact htree
    have hsorted := hs.insert (c := ⟨cellData.length % 2 ^ 32, key, rp⟩) hlo hhi
    have hdisk : (t.write p page).disk =
        t.disk.set p (.leaf (lo ++ ⟨cellData.length % 2 ^ 32, key, rp⟩ :: hi) prev next) := by
      rw [disk_write h0 hp, hpage]
    have hnot : p ∉ takenPages fl s.disk.total chunks.length :=
      notMem_takenPages hg.sound hf htree.inUse.1 htree.inUse.2
    have hkept : (after (createOverflowPage cellData) s).Tidy := createOverflowPage_tidy s ht
    have hmoved : t.Tidy := by simpa only [after, hmake] using hkept
    have htouch : Touches s (t.write p page) p (takenPages fl s.disk.total chunks.length) := ?_
    · rw [hrun]
      exact .done (leafAgrees_of_page (by rw [hdisk, Disk.set_page_self]) hsorted)
        (by rw [hdisk]; exact hev.good.set hptree) (hmoved.write (tidy_of_leaf hpage hsorted))
        htouch (.inr trivial)
    refine ⟨?_, ⟨hd, (fl.drop chunks.length).headD nullPage, (page_first h1).1, ?_, ?_⟩, ?_, ?_⟩
    · intro q hq hq1 hqn
      rw [Pager.read_write_of_ne hq hp]
      exact Pager.createOverflowPage_read hg hf hch hmake q hq1 hqn
    · rw [Pager.read_write_of_ne (Ne.symm hp1) hp]
      exact (page_first (hw.header hd h1)).1
    · intro hnil
      have hlen := length_takenPages fl s.disk.total chunks.length
      rw [hnil, List.length_nil] at hlen
      obtain ⟨hd', h1', hc⟩ := hf
      rw [h1] at h1'
      cases h1'
      rw [← hlen, List.drop_zero, hc.head_eq]
    · intro q hq
      rcases mem_takenPages hq with hq | hq
      · obtain ⟨-, -, -, hfree⟩ := free_bounds hg.sound hf q hq
        exact .inl hfree
      · exact .inr hq.1
    · intro q hq
      obtain ⟨-, -, -, next', content, hover⟩ := overflow_bounds hw.sound hw.chain q hq
      refine ⟨next', content, ?_⟩
      rw [hdisk, Disk.set_page_of_ne (by rintro rfl; exact hnot hq), hover]

/-- Every call through a leaf page's manager. -/
theorem LeafOp.run_outcome (op : LeafOp) (hg : s.disk.Good) (ht : s.Tidy)
    (h : s.disk.page p = .leaf leafCells prev next) (hs : KeySorted LeafCell.key leafCells) :
    Outcome s p (leafManager p leafCells prev next) (LeafAgrees p) op.Refusal op.Chains
      (op.run (leafManager p leafCells prev next) s) := by
  have htree : (s.disk.page p).IsTree := by rw [h]; trivial
  cases op with
  | insertCell key cellData =>
    by_cases hm : leafCells.length < leafMaxCells
    · rcases findKey_cases hs key with ⟨lo, c, hi, rfl, hk, hlo, hhi, hfind⟩ | ⟨lo, hi, rfl, hlo, hhi, hfind⟩
      · refine outcome_refused ?_
        simp only [LeafOp.run, LeafPageManager.insertCell, leafManager]
        refine Raises.bind_eq (assert_ok (.inr rfl)) ?_
        obtain ⟨hfit, -⟩ := leafFree_succ hm
        simp only [hfind, not_lt.mpr hfit, if_false, if_true]
        exact raises_throw.mpr ⟨.inl rfl, rfl⟩
      · exact insertCell_outcome hg ht h hs hlo hhi hm
    · refine outcome_full ?_
      simp only [LeafOp.run, LeafPageManager.insertCell, leafManager]
      refine Returns.bind_eq (assert_ok (.inr rfl)) ?_
      simp only [leafFree_full hm, if_true]
      exact returns_pure.mpr ⟨rfl, rfl⟩
  | writeCell cell =>
    by_cases hm : leafCells.length < leafMaxCells
    · rcases findKey_cases hs cell.key with ⟨lo, c, hi, rfl, hk, hlo, hhi, hfind⟩ | ⟨lo, hi, rfl, hlo, hhi, hfind⟩
      · refine outcome_refused ?_
        simp only [LeafOp.run, LeafPageManager.writeCell, leafManager]
        refine Raises.bind_eq (assert_ok (.inr rfl)) ?_
        obtain ⟨hfit, -⟩ := leafFree_succ hm
        simp only [hfind, not_lt.mpr hfit, if_false, if_true]
        exact raises_throw.mpr ⟨rfl, rfl⟩
      · exact outcome_leaf hg ht htree writesOnly_writeCell (hs.insert hlo hhi)
          (writeCell_yields h hlo hhi hm)
    · refine outcome_full ?_
      simp only [LeafOp.run, LeafPageManager.writeCell, leafManager]
      refine Returns.bind_eq (assert_ok (.inr rfl)) ?_
      simp only [leafFree_full hm, if_true]
      exact returns_pure.mpr ⟨rfl, rfl⟩
  | deleteCell key =>
    cases leafCells with
    | nil =>
      have hrun : (LeafOp.deleteCell key).run (leafManager p [] prev next) s =
          .ok (true, leafManager p [] prev next) s := by
        simp only [LeafOp.run, LeafPageManager.deleteCell]
        exact bind_ok (bind_ok (assert_ok (.inr rfl)))
      rw [hrun]
      exact .done (leafAgrees_of_page h hs) hg ht (touches_write hg htree (.inl rfl)) (.inl rfl)
    | cons first rest =>
      rcases findKey_cases hs key with ⟨lo, c, hi, heq, rfl, hlo, hhi, -⟩ | ⟨lo, hi, -, -, -, hfind⟩
      · rw [heq] at h hs ⊢
        exact outcome_leaf hg ht htree
          (writesOnly_deleteCell.bind (fun _ => writesOnly_of_leaves leaves_pure)) hs.erase
          (yields_true (deleteCell_yields h hlo hhi))
      · refine outcome_refused (Raises.bind_left ?_)
        simp only [LeafPageManager.deleteCell, leafManager]
        refine Raises.bind_eq (assert_ok (.inr rfl)) ?_
        simp only [List.length_cons, Nat.add_one_ne_zero, hfind, Bool.false_eq_true, if_false]
        exact raises_throw.mpr ⟨rfl, rfl⟩
  | setPrevPage q =>
    exact outcome_leaf hg ht htree
      (writesOnly_setLeafPagePointers.bind (fun _ => writesOnly_of_leaves leaves_pure)) hs
      (yields_true (setPrevPage_yields h))
  | setNextPage q =>
    exact outcome_leaf hg ht htree
      (writesOnly_setLeafPagePointers.bind (fun _ => writesOnly_of_leaves leaves_pure)) hs
      (yields_true (setNextPage_yields h))

omit [Build] in
theorem findNodeCellIdx_none {lo hi : List NodeCell} {key : DefaultPagerKey} {r : Nat}
    (hfind : findKey NodeCell.key key (lo ++ hi) = (false, lo.length)) :
    (nodeManager p (lo ++ hi) r).findNodeCellIdx key = none := by
  simp [NodePageManager.findNodeCellIdx, nodeManager, hfind]

/-- Every call through a node page's manager. -/
theorem NodeOp.run_outcome (op : NodeOp) (hg : s.disk.Good) (ht : s.Tidy)
    (h : s.disk.page p = .node nodeCells r) (hs : KeySorted NodeCell.key nodeCells)
    (hop : op.Ok (nodeManager p nodeCells r)) :
    Outcome s p (nodeManager p nodeCells r) (NodeAgrees p) op.Refusal False
      (op.run (nodeManager p nodeCells r) s) := by
  have htree : (s.disk.page p).IsTree := by rw [h]; trivial
  cases op with
  | insertNodeCell key =>
    by_cases hm : nodeCells.length < nodeMaxCells
    · rcases findKey_cases hs key with ⟨lo, c, hi, rfl, hk, hlo, hhi, hfind⟩ | ⟨lo, hi, rfl, hlo, hhi, hfind⟩
      · refine outcome_refused ?_
        simp only [NodeOp.run, NodePageManager.insertNodeCell, nodeManager]
        refine Raises.bind_eq (assert_ok (.inr rfl)) ?_
        obtain ⟨hfit, -⟩ := nodeFree_succ hm
        simp only [hfind, not_lt.mpr hfit, if_false, if_true]
        exact raises_throw.mpr ⟨rfl, rfl⟩
      · have hsorted := hs.insert (c := (⟨key, nullPage⟩ : NodeCell)) hlo hhi
        exact outcome_node hg ht htree writesOnly_insertNodeCell hsorted
          (insertNodeCell_yields h hlo hhi hm)
    · refine outcome_full ?_
      simp only [NodeOp.run, NodePageManager.insertNodeCell, nodeManager]
      refine Returns.bind_eq (assert_ok (.inr rfl)) ?_
      simp only [nodeFree_full hm, if_true]
      exact returns_pure.mpr ⟨rfl, rfl⟩
  | setCellLeftChild key leftChild =>
    rcases findKey_cases hs key with ⟨lo, ⟨k, c⟩, hi, rfl, rfl, hlo, hhi, -⟩ | ⟨lo, hi, rfl, -, -, hfind⟩
    · exact outcome_node hg ht htree
        (writesOnly_setCellLeftChild.bind (fun _ => writesOnly_of_leaves leaves_pure))
        (hs.erase.insert (c := ⟨k, leftChild⟩) hlo hhi)
        (yields_true (setCellLeftChild_yields h hlo hhi))
    · refine outcome_refused (Raises.bind_left ?_)
      simp only [NodePageManager.setCellLeftChild, findNodeCellIdx_none hfind]
      exact Raises.bind_eq (assert_ok (.inr rfl)) (raises_throw.mpr ⟨rfl, rfl⟩)
  | setNodeRightChild rightChild =>
    exact outcome_node hg ht htree
      (writesOnly_setNodeRightChild.bind (fun _ => writesOnly_of_leaves leaves_pure)) hs
      (yields_true (setNodeRightChild_yields h))
  | updateCellKey oldKey newKey =>
    rcases findKey_cases hs oldKey with ⟨lo, ⟨k, c⟩, hi, rfl, rfl, hlo, hhi, -⟩ | ⟨lo, hi, rfl, -, -, hfind⟩
    · obtain ⟨hlo', hhi'⟩ := hop lo ⟨k, c⟩ hi rfl rfl
      exact outcome_node hg ht htree
        (writesOnly_updateCellKey.bind (fun _ => writesOnly_of_leaves leaves_pure))
        (hs.erase.insert (c := ⟨newKey, c⟩) hlo' hhi')
        (yields_true (updateCellKey_yields h hlo hhi))
    · refine outcome_refused (Raises.bind_left ?_)
      simp only [NodePageManager.updateCellKey, findNodeCellIdx_none hfind]
      exact Raises.bind_eq (assert_ok (.inr rfl)) (raises_throw.mpr ⟨rfl, rfl⟩)
  | deleteNodeCell key =>
    rcases findKey_cases hs key with ⟨lo, ⟨k, c⟩, hi, rfl, rfl, hlo, hhi, -⟩ | ⟨lo, hi, rfl, -, -, hfind⟩
    · exact outcome_node hg ht htree
        (writesOnly_deleteNodeCell.bind (fun _ => writesOnly_of_leaves leaves_pure)) hs.erase
        (yields_true (deleteNodeCell_yields h hlo hhi))
    · refine outcome_refused (Raises.bind_left ?_)
      simp only [NodePageManager.deleteNodeCell, findNodeCellIdx_none hfind]
      exact Raises.bind_eq (assert_ok (.inr rfl)) (raises_throw.mpr ⟨rfl, rfl⟩)

end Outcome

/-! ### Sessions -/

section Sessions

variable [Build] {s t : Pager} {p : Nat}

omit [Build] in
/-- Whatever the outcome, the file is in order and the manager agrees with it. -/
theorem Outcome.after₂ {M : Type} {m : M} {Agrees : M → Pager → Prop} {Refusal : Error → Prop}
    {Chains : Prop} {x : PagerM (Bool × M)} (h : Outcome s p m Agrees Refusal Chains (x s))
    (hm : Agrees m s) (hg : s.disk.Good) (ht : s.Tidy) :
    Agrees (Cpplite.after₂ x m s).1 (Cpplite.after₂ x m s).2 ∧
      (Cpplite.after₂ x m s).2.disk.Good ∧ (Cpplite.after₂ x m s).2.Tidy := by
  rw [Cpplite.after₂]
  cases hx : x s with
  | ok res t =>
    rw [hx] at h
    cases h with
    | done hm' hgood htidy _ _ => exact ⟨hm', hgood, htidy⟩
    | full => exact ⟨hm, hg, ht⟩
  | error e t =>
    rw [hx] at h
    cases h
    exact ⟨hm, hg, ht⟩

omit [Build] in
theorem freshPager_tidy : Pager.fresh.Tidy := by
  intro q
  by_cases hq : q = 1
  · subst hq
    trivial
  · simp only [Pager.fresh, Function.update_of_ne hq]
    trivial

/-- A call of a manager that agrees with the file. -/
theorem LeafAgrees.outcome {lpm : LeafPageManager} (h : LeafAgrees p lpm s) (hg : s.disk.Good)
    (ht : s.Tidy) (op : LeafOp) :
    Outcome s p lpm (LeafAgrees p) op.Refusal op.Chains (op.run lpm s) := by
  obtain ⟨cells, prev, next, hpage, hs, rfl⟩ := leaf_of_load ht h.load_eq
  exact op.run_outcome hg ht hpage hs

theorem NodeAgrees.outcome {npm : NodePageManager} (h : NodeAgrees p npm s) (hg : s.disk.Good)
    (ht : s.Tidy) (op : NodeOp) (hop : op.Ok npm) :
    Outcome s p npm (NodeAgrees p) op.Refusal False (op.run npm s) := by
  obtain ⟨cells, r, hpage, hs, rfl⟩ := node_of_load ht h.load_eq
  exact op.run_outcome hg ht hpage hs hop

theorem FileReached.kept (h : FileReached s) : s.disk.Good ∧ s.Tidy := by
  induction h with
  | fresh => exact ⟨fresh_good, freshPager_tidy⟩
  | pager _ hop ih => exact ⟨Pager.Op.run_good _ ih.1 hop, Pager.Op.run_tidy _ _ ih.2⟩
  | leaf _ hl ih =>
    obtain ⟨cells, prev, next, hpage, hs, rfl⟩ := leaf_of_load ih.2 hl
    have hm := leafAgrees_of_page hpage hs
    exact ((hm.outcome ih.1 ih.2 _).after₂ hm ih.1 ih.2).2
  | node _ hl hop ih =>
    obtain ⟨cells, r, hpage, hs, rfl⟩ := node_of_load ih.2 hl
    have hm := nodeAgrees_of_page hpage hs
    exact ((hm.outcome ih.1 ih.2 _ hop).after₂ hm ih.1 ih.2).2

theorem runLeaf_agrees {σ : LeafPageManager × Pager} (h : LeafAgrees p σ.1 σ.2)
    (hg : σ.2.disk.Good) (ht : σ.2.Tidy) (ops : List LeafOp) :
    LeafAgrees p (runLeaf ops σ).1 (runLeaf ops σ).2 ∧ (runLeaf ops σ).2.disk.Good ∧
      (runLeaf ops σ).2.Tidy := by
  induction ops generalizing σ with
  | nil => exact ⟨h, hg, ht⟩
  | cons op ops ih =>
    obtain ⟨h', hg', ht'⟩ := (h.outcome hg ht op).after₂ h hg ht
    exact ih h' hg' ht'

theorem runNode_agrees {σ : NodePageManager × Pager} (h : NodeAgrees p σ.1 σ.2)
    (hg : σ.2.disk.Good) (ht : σ.2.Tidy) {ops : List NodeOp} (hops : NodeOkAll σ ops) :
    NodeAgrees p (runNode ops σ).1 (runNode ops σ).2 ∧ (runNode ops σ).2.disk.Good ∧
      (runNode ops σ).2.Tidy := by
  induction ops generalizing σ with
  | nil => exact ⟨h, hg, ht⟩
  | cons op ops ih =>
    obtain ⟨h', hg', ht'⟩ := (h.outcome hg ht op hops.1).after₂ h hg ht
    exact ih h' hg' ht' hops.2

/-- For every leaf or node page of every file there is and every session with one manager of it: the
manager is what the file says, and the next call does its work on that page alone, a new overflow
chain and the free list's head apart, or throws or answers false and changes nothing. -/
theorem managers_agree {s : Pager} (h : FileReached s) (p : Nat) :
    (∀ lpm, LeafPageManager.load p s = .ok lpm s → ∀ ops (op : LeafOp),
      LeafAgrees p (runLeaf ops (lpm, s)).1 (runLeaf ops (lpm, s)).2 ∧
      Outcome (runLeaf ops (lpm, s)).2 p (runLeaf ops (lpm, s)).1 (LeafAgrees p) op.Refusal op.Chains
        (op.run (runLeaf ops (lpm, s)).1 (runLeaf ops (lpm, s)).2)) ∧
    (∀ npm, NodePageManager.load p s = .ok npm s → ∀ ops, NodeOkAll (npm, s) ops → ∀ op : NodeOp,
      op.Ok (runNode ops (npm, s)).1 →
      NodeAgrees p (runNode ops (npm, s)).1 (runNode ops (npm, s)).2 ∧
      Outcome (runNode ops (npm, s)).2 p (runNode ops (npm, s)).1 (NodeAgrees p) op.Refusal False
        (op.run (runNode ops (npm, s)).1 (runNode ops (npm, s)).2)) := by
  obtain ⟨hg, ht⟩ := h.kept
  constructor
  · intro lpm hl ops op
    obtain ⟨cells, prev, next, hpage, hs, rfl⟩ := leaf_of_load ht hl
    obtain ⟨h', hg', ht'⟩ := runLeaf_agrees (σ := (leafManager p cells prev next, s))
      (leafAgrees_of_page hpage hs) hg ht ops
    exact ⟨h', h'.outcome hg' ht' op⟩
  · intro npm hl ops hops op hop
    obtain ⟨cells, r, hpage, hs, rfl⟩ := node_of_load ht hl
    obtain ⟨h', hg', ht'⟩ := runNode_agrees (σ := (nodeManager p cells r, s))
      (nodeAgrees_of_page hpage hs) hg ht hops
    exact ⟨h', h'.outcome hg' ht' op hop⟩

end Sessions

theorem managers_agree_leaf :
    letI : Build := ⟨false⟩
    let s := after (Pager.Op.createPage .leafPage).run Pager.fresh
    FileReached s ∧ LeafPageManager.load 2 s = .ok (leafManager 2 [] 0 0) s ∧
      LeafAgrees 2 (runLeaf [.writeCell ⟨1, 5, 9⟩, .writeCell ⟨1, 3, 8⟩] (leafManager 2 [] 0 0, s)).1
        (runLeaf [.writeCell ⟨1, 5, 9⟩, .writeCell ⟨1, 3, 8⟩] (leafManager 2 [] 0 0, s)).2 := by
  let _ : Build := ⟨false⟩
  have hproper : (Pager.Op.createPage .leafPage).Proper Pager.fresh := trivial
  have hreached := FileReached.pager .fresh hproper
  have hload : LeafPageManager.load 2 (after (Pager.Op.createPage .leafPage).run Pager.fresh) =
      .ok (leafManager 2 [] 0 0) _ := rfl
  exact ⟨hreached, hload, ((managers_agree hreached 2).1 _ hload _ (.setPrevPage 0)).1⟩

end Cpplite
