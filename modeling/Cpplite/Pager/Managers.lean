import Cpplite.Pager.Page

/-!
The page managers: `first_page_manager.cpp`, `free_page_manager.cpp`,
`overflow_page_manager.cpp`, `node_page_manager.cpp` and `leaf_page_manager.cpp`.

A manager is a value read from the file by its constructor (`load` here). Its
methods write the file and return the manager with its fields updated, so a
manager that outlives a write through another one is as stale as in the source.
-/
namespace Cpplite

open Exec Search

section

variable [Build]

/-! ### First page -/

structure FirstPageManager where
  numPages : Nat
  freePageHead : Nat
  nextOid : DefaultPagerKey
deriving DecidableEq, Repr

def FirstPageManager.load : PagerM FirstPageManager := do
  let s ← get
  match s.file.read 1 with
  | .first h => pure ⟨h.numPages, h.freePageHead, h.nextOid⟩
  | .blank => throw (.runtimeError "[FirstPageManager]: Invalid checksum")
  | _ => throw .undefined

/-- The setters write their own field at its offset in page 1. -/
def writeFirstField (f : PagerFirstPageHeader → PagerFirstPageHeader) : PagerM Unit := do
  let s ← get
  match s.file.read 1 with
  | .first h => set { s with file := s.file.write 1 (.first (f h)) }
  | _ => throw .undefined

def FirstPageManager.setNumPages (fpm : FirstPageManager) (n : Nat) : PagerM FirstPageManager := do
  writeFirstField (fun h => { h with numPages := n })
  pure { fpm with numPages := n }

def FirstPageManager.setFreePageHead (fpm : FirstPageManager) (pgno : Nat) :
    PagerM FirstPageManager := do
  writeFirstField (fun h => { h with freePageHead := pgno })
  pure { fpm with freePageHead := pgno }

def FirstPageManager.setNextOid (fpm : FirstPageManager) (oid : DefaultPagerKey) :
    PagerM FirstPageManager := do
  writeFirstField (fun h => { h with nextOid := oid })
  pure { fpm with nextOid := oid }

/-! ### Free pages -/

structure FreePageManager where
  pgno : Nat
  nextFreePage : Nat
deriving DecidableEq, Repr

def FreePageManager.load (pgno : Nat) : PagerM FreePageManager := do
  let page ← readPage pgno "[FreePageManager]: Failed to seek"
  match page with
  | .free h => pure ⟨pgno, h.nextFreePage⟩
  | .blank => throw (.runtimeError "[FreePageManager]: Invalid checksum")
  | page => do
    -- only the `assert` looks at the type tag
    assert False
    pure ⟨pgno, page.firstField⟩

/-! ### Overflow pages -/

structure OverflowPageManager where
  pgno : Nat
  nextOverflowPage : Nat
  numBytes : Nat
deriving DecidableEq, Repr

def OverflowPageManager.load (pgno : Nat) : PagerM OverflowPageManager := do
  let page ← readPage pgno "[OverflowPageManager]: Failed to seek"
  match page with
  | .overflow h _ => pure ⟨pgno, h.nextOverflowPage, h.numBytes⟩
  | .blank => throw (.runtimeError "[OverflowPageHeader]: Invalid checksum")
  | _ => do
    assert False
    throw .undefined

def OverflowPageManager.getOverflowContent (opm : OverflowPageManager) : PagerM (List Byte) := do
  let page ← readPage opm.pgno "[OverflowPageManager]: Failed to seek to get_overflow_content"
  match page with
  | .overflow _ content => pure (content.takeD opm.numBytes 0)
  | _ => throw .undefined

/-! ### Node pages -/

structure NodePageManager where
  pgno : Nat
  cells : List NodeCell
  numCells : Nat
  totalBytesFree : Nat
  rightChild : Nat
deriving DecidableEq, Repr

def NodePageManager.load (pgno : Nat) : PagerM NodePageManager := do
  let page ← readPage pgno "[NodePageManager]: Failed to seek"
  match page with
  | .node h area =>
    pure ⟨pgno, area.takeD h.numCells default, h.numCells, h.totalBytesFree % 2 ^ 16, h.rightChild⟩
  | .blank => throw (.runtimeError "[NodePageManager]: Invalid checksum")
  | _ => do
    assert False
    throw .undefined

/-- Write `cells` into the cell area from slot `i` on. -/
def NodePageManager.writeCells (npm : NodePageManager) (i : Nat) (cells : List NodeCell)
    (seekError : String) : PagerM Unit := do
  let page ← readPage npm.pgno seekError
  match page with
  | .node h area => writePage npm.pgno (.node h (overwrite area i cells)) seekError
  | _ => throw .undefined

/-- Write the header the manager's fields describe. -/
def NodePageManager.writeHeader (npm : NodePageManager) (seekError : String) : PagerM Unit := do
  let page ← readPage npm.pgno seekError
  match page with
  | .node _ area =>
    writePage npm.pgno (.node ⟨npm.numCells, npm.totalBytesFree, npm.rightChild⟩ area) seekError
  | _ => throw .undefined

/-- Insert a cell with no child yet; false when the page is full. -/
def NodePageManager.insertNodeCell (npm : NodePageManager) (key : DefaultPagerKey) :
    PagerM (Bool × NodePageManager) := do
  assert (npm.numCells = npm.cells.length)
  if sizeofNodeCell > npm.totalBytesFree then pure (false, npm)
  else do
    let (found, lo) := findKey NodeCell.key key npm.cells
    if found then throw (.runtimeError "[NodePageManager]: Duplicate node cell key")
    else do
      let npm := { npm with cells := npm.cells.insertIdx lo ⟨key, nullPage⟩ }
      npm.writeCells 0 npm.cells "[NodePageManager:insert_node_cell]: Failed to seek to write cell header"
      let npm := { npm with
        totalBytesFree := npm.totalBytesFree - sizeofNodeCell, numCells := npm.numCells + 1 }
      assert (sizeofNodePageHeader + npm.numCells * sizeofNodeCell + npm.totalBytesFree = pageSize)
      npm.writeHeader
        "[NodePageManager:insert_node_cell]: Failed to seek to write new node page header"
      pure (true, npm)

def NodePageManager.findNodeCellIdx (npm : NodePageManager) (key : DefaultPagerKey) : Option Nat :=
  let (found, i) := findKey NodeCell.key key npm.cells
  if found then some i else none

def NodePageManager.setCellLeftChild (npm : NodePageManager) (key : DefaultPagerKey)
    (leftChild : Nat) : PagerM NodePageManager := do
  assert (npm.numCells = npm.cells.length)
  match npm.findNodeCellIdx key with
  | none => throw (.runtimeError "[NodePageManager:set_cell_left_child]: Key not found")
  | some i => do
    assert ((npm.cells[i]?.getD default).key = key)
    let npm := { npm with cells := npm.cells.set i ⟨key, leftChild⟩ }
    npm.writeCells i [⟨key, leftChild⟩] "[NodePageManager:set_cell_left_child]: Failed to seek"
    pure npm

def NodePageManager.setNodeRightChild (npm : NodePageManager) (rightChild : Nat) :
    PagerM NodePageManager := do
  let npm := { npm with rightChild := rightChild }
  npm.writeHeader "[NodePageManager:set_node_right_child]: Failed to seek"
  pure npm

def NodePageManager.deleteNodeCell (npm : NodePageManager) (key : DefaultPagerKey) :
    PagerM NodePageManager := do
  assert (npm.numCells = npm.cells.length)
  match npm.findNodeCellIdx key with
  | none => throw (.runtimeError "[NodePageManager:delete_node_cell]: Key not found")
  | some i => do
    let npm := { npm with
      cells := npm.cells.eraseIdx i
      numCells := npm.numCells - 1
      totalBytesFree := (npm.totalBytesFree + sizeofNodeCell) % 2 ^ 16 }
    npm.writeCells 0 npm.cells "[NodePageManager:delete_node_cell]: Failed to seek to write cells"
    npm.writeHeader "[NodePageManager:delete_node_cell]: Failed to seek to write header"
    pure npm

def NodePageManager.updateCellKey (npm : NodePageManager) (oldKey newKey : DefaultPagerKey) :
    PagerM NodePageManager := do
  assert (npm.numCells = npm.cells.length)
  match npm.findNodeCellIdx oldKey with
  | none => throw (.runtimeError "[NodePageManager:update_cell_key]: Key not found")
  | some i => do
    let npm := { npm with cells := npm.cells.modify i (fun c => { c with key := newKey }) }
    npm.writeCells 0 npm.cells "[NodePageManager:update_cell_key]: Failed to seek"
    pure npm

/-! ### Leaf pages -/

structure LeafPageManager where
  pgno : Nat
  cells : List LeafCell
  numCells : Nat
  totalBytesFree : Nat
  prevPage : Nat
  nextPage : Nat
deriving DecidableEq, Repr

def LeafPageManager.load (pgno : Nat) : PagerM LeafPageManager := do
  let page ← readPage pgno "[LeafPageManager]: Failed to seek"
  match page with
  | .leaf h area =>
    pure ⟨pgno, area.takeD h.numCells default, h.numCells, h.totalBytesFree % 2 ^ 16,
      h.prevPage, h.nextPage⟩
  | .blank => throw (.runtimeError "[LeafPageHeader]: Invalid checksum")
  | _ => do
    assert False
    throw .undefined

def LeafPageManager.writeCells (lpm : LeafPageManager) (seekError : String) : PagerM Unit := do
  let page ← readPage lpm.pgno seekError
  match page with
  | .leaf h area => writePage lpm.pgno (.leaf h (overwrite area 0 lpm.cells)) seekError
  | _ => throw .undefined

def LeafPageManager.writeHeader (lpm : LeafPageManager) (seekError : String) : PagerM Unit := do
  let page ← readPage lpm.pgno seekError
  match page with
  | .leaf _ area =>
    writePage lpm.pgno
      (.leaf ⟨lpm.numCells, lpm.totalBytesFree, lpm.nextPage, lpm.prevPage⟩ area) seekError
  | _ => throw .undefined

/-- Insert a finished cell; false when the page is full. -/
def LeafPageManager.writeCell (lpm : LeafPageManager) (cell : LeafCell) :
    PagerM (Bool × LeafPageManager) := do
  assert (lpm.numCells = lpm.cells.length)
  if sizeofLeafCell > lpm.totalBytesFree then pure (false, lpm)
  else do
    let (found, lo) := findKey LeafCell.key cell.key lpm.cells
    if found then throw (.runtimeError "[LeafPageManager]: Duplicate leaf cell key")
    else do
      let lpm := { lpm with
        cells := lpm.cells.insertIdx lo cell
        totalBytesFree := lpm.totalBytesFree - sizeofLeafCell
        numCells := lpm.numCells + 1 }
      assert (sizeofLeafPageHeader + lpm.numCells * sizeofLeafCell + lpm.totalBytesFree = pageSize)
      lpm.writeCells "[LeafPageManager:write_cell]: Failed to seek to write cells"
      lpm.writeHeader "[LeafPageManager:write_cell]: Failed to seek to write header"
      pure (true, lpm)

def LeafPageManager.deleteCell (lpm : LeafPageManager) (key : DefaultPagerKey) :
    PagerM LeafPageManager := do
  assert (lpm.numCells = lpm.cells.length)
  if lpm.numCells = 0 then pure lpm
  else do
    let (found, lo) := findKey LeafCell.key key lpm.cells
    if found then do
      let lpm := { lpm with
        cells := lpm.cells.eraseIdx lo
        numCells := lpm.numCells - 1
        totalBytesFree := (lpm.totalBytesFree + sizeofLeafCell) % 2 ^ 16 }
      lpm.writeCells "[LeafPageManager:delete_cell]: Failed to seek to write cells"
      lpm.writeHeader "[LeafPageManager:delete_cell]: Failed to seek to write header"
      pure lpm
    else throw (.runtimeError "[LeafPageManager:delete_cell]: Key not found")

/-- `_set_leaf_page_pointers`: patch one link in the header as it stands in the file. -/
def LeafPageManager.setLeafPagePointers (lpm : LeafPageManager) (pgno : Nat)
    (usePrevPage : Bool) : PagerM LeafPageManager := do
  let page ← readPage lpm.pgno "[LeafPageManager:_set_leaf_page_pointers]: Failed to seek"
  match page with
  | .leaf h area => do
    let h := if usePrevPage then { h with prevPage := pgno } else { h with nextPage := pgno }
    writePage lpm.pgno (.leaf h area)
      "[LeafPageManager:_set_leaf_page_pointers]: Failed to seek before write"
    pure (if usePrevPage then { lpm with prevPage := pgno } else { lpm with nextPage := pgno })
  | _ => throw .undefined

def LeafPageManager.setPrevPage (lpm : LeafPageManager) (pgno : Nat) :
    PagerM LeafPageManager :=
  lpm.setLeafPagePointers pgno true

def LeafPageManager.setNextPage (lpm : LeafPageManager) (pgno : Nat) :
    PagerM LeafPageManager :=
  lpm.setLeafPagePointers pgno false

end

end Cpplite
