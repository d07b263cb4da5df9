import Cpplite.BTree.Cursor

/-!
`utils.cpp` and the two updates of `btree.cpp`: splitting on the way up after an
insert, borrowing and merging on the way up after a removal.
-/
namespace Cpplite

open Exec Search

section

variable [Build]

structure SplitCellRes where
  leftKeys : List DefaultPagerKey
  rightKeys : List DefaultPagerKey
  cellMap : DefaultPagerKey → Option (NodeCell ⊕ LeafCell)

/-- The `std::map` filled with one entry for each cell, later ones overwriting. -/
def cellMapOf {α : Type} (key : α → DefaultPagerKey) (inj : α → NodeCell ⊕ LeafCell)
    (cells : List α) : DefaultPagerKey → Option (NodeCell ⊕ LeafCell) :=
  cells.foldl (fun m c => Function.update m (key c) (some (inj c))) (fun _ => none)

/-- Sort the keys and cut them after `leftSize` of them. -/
def splitKeys (keys : List DefaultPagerKey) (leftSize : Nat → Nat)
    (cellMap : DefaultPagerKey → Option (NodeCell ⊕ LeafCell)) : SplitCellRes :=
  let keys := keys.insertionSort (· ≤ ·)
  ⟨keys.take (leftSize keys.length), keys.drop (leftSize keys.length), cellMap⟩

/-- Leaf splits round up and node splits round down: a node's separator leaves both halves. -/
def splitCell (pgno : Nat) (cell : NodeCell ⊕ LeafCell) : BTreeM SplitCellRes :=
  match cell with
  | .inr newLeafCell => do
    let lpm ← LeafPageManager.load pgno
    let cells := lpm.cells ++ [newLeafCell]
    pure (splitKeys (cells.map LeafCell.key) (fun n => (n + 1) / 2)
      (cellMapOf LeafCell.key .inr cells))
  | .inl newNodeCell => do
    let npm ← NodePageManager.load pgno
    let cells := npm.cells ++ [newNodeCell]
    pure (splitKeys (cells.map NodeCell.key) (fun n => n / 2)
      (cellMapOf NodeCell.key .inl cells))

/-- `std::get<LeafCell_t>(cell_map[key])` -/
def SplitCellRes.leafAt (r : SplitCellRes) (key : DefaultPagerKey) : BTreeM LeafCell :=
  match r.cellMap key with
  | some (.inr c) => pure c
  | _ => throw .undefined

/-- `std::get<NodeCell_t>(cell_map[key])` -/
def SplitCellRes.nodeAt (r : SplitCellRes) (key : DefaultPagerKey) : BTreeM NodeCell :=
  match r.cellMap key with
  | some (.inl c) => pure c
  | _ => throw .undefined

/-- Point the parent's entry at the right half; the returned cell brings in the left one. -/
def assignChildrenNodes (leftNode rightNode : Nat) (parent : BTreeCursorNode)
    (separatorKey : DefaultPagerKey) : BTreeM NodeCell := do
  assertPageType parent.1 .nodePage
  let npm ← NodePageManager.load parent.1
  assert (npm.numCells = npm.cells.length)
  if parent.2 = npm.numCells then do
    let old ← index npm.cells (npm.numCells - 1)
    assert (old.key < separatorKey)
    let _ ← npm.setNodeRightChild rightNode
    pure ⟨separatorKey, leftNode⟩
  else do
    let old ← index npm.cells parent.2
    assert (separatorKey < old.key)
    let _ ← npm.setCellLeftChild old.key rightNode
    pure ⟨separatorKey, leftNode⟩

/-- A root over two halves. -/
def growRoot (left right : Nat) (separatorKey : DefaultPagerKey) : BTreeM Unit := do
  let newRootPgno ← createPage .nodePage
  let rootNpm ← NodePageManager.load newRootPgno
  let (_, rootNpm) ← rootNpm.insertNodeCell separatorKey
  let rootNpm ← rootNpm.setCellLeftChild separatorKey left
  let _ ← rootNpm.setNodeRightChild right
  setRootPgno newRootPgno

/-- The end of both splits: hang the halves under the rest of the stack, splitting on if the parent
is full. -/
def insertIntoParent (splitParent : NodeCell → BTreeM Unit) (cursorClone : BTreeCursorStack)
    (left right : Nat) (separatorKey : DefaultPagerKey) : BTreeM Unit :=
  match cursorClone with
  | [] => growRoot left right separatorKey
  | parent :: _ => do
    assertPageType parent.1 .nodePage
    let newParentNode ← assignChildrenNodes left right parent separatorKey
    let npm ← NodePageManager.load parent.1
    let self ← getSelf
    if npm.numCells = self.config.nodeMaxCells then do
      setCursor cursorClone
      splitParent newParentNode
    else do
      let (_, npm) ← npm.insertNodeCell newParentNode.key
      let _ ← npm.setCellLeftChild newParentNode.key newParentNode.leftChild
      pure ()

/-- Fill a new node page with the cells of the given keys, in order. -/
def fillNode (r : SplitCellRes) (npm : NodePageManager) (keys : List DefaultPagerKey) :
    BTreeM NodePageManager :=
  keys.foldlM (fun npm key => do
    let (_, npm) ← npm.insertNodeCell key
    let cell ← r.nodeAt key
    npm.setCellLeftChild key cell.leftChild) npm

/-- The stack is `cursor_`, passed along because the recursion runs on it. -/
def splitCursorNode : BTreeCursorStack → NodeCell → BTreeM Unit
  | [], _ => do
    assert False
    throw .undefined
  | (pgno, _) :: cursorClone, newCell => do
    assertPageType pgno .nodePage
    let currNpm ← NodePageManager.load pgno
    let self ← getSelf
    assert (currNpm.cells.length = currNpm.numCells ∧ currNpm.numCells = self.config.nodeMaxCells)
    let r ← splitCell pgno (.inl newCell)
    assert (r.rightKeys.length > 0)
    let separatorKey ← index r.rightKeys 0
    let leftNode ← createPage .nodePage
    let rightNode ← createPage .nodePage
    let leftNpm ← NodePageManager.load leftNode
    let rightNpm ← NodePageManager.load rightNode
    let leftNpm ← fillNode r leftNpm r.leftKeys
    let separatorCell ← r.nodeAt separatorKey
    let _ ← leftNpm.setNodeRightChild separatorCell.leftChild
    let rightNpm ← fillNode r rightNpm r.rightKeys.tail
    let _ ← rightNpm.setNodeRightChild currNpm.rightChild
    insertIntoParent (splitCursorNode cursorClone) cursorClone leftNode rightNode separatorKey

/-- Fill a new leaf page with the cells of the given keys, in order. -/
def fillLeaf (r : SplitCellRes) (lpm : LeafPageManager) (keys : List DefaultPagerKey) :
    BTreeM LeafPageManager :=
  keys.foldlM (fun lpm key => do
    let cell ← r.leafAt key
    let (_, lpm) ← lpm.writeCell cell
    pure lpm) lpm

def splitCursorLeaf (newCell : LeafCell) : BTreeM Unit := do
  let self ← getSelf
  assert (self.cursor.length > 0)
  let (pgno, _) ← topOf self.cursor
  assertPageType pgno .leafPage
  let cursorClone := self.cursor.tail
  let currLpm ← LeafPageManager.load pgno
  assert (currLpm.cells.length = currLpm.numCells ∧ currLpm.numCells = self.config.leafMaxCells)
  let r ← splitCell pgno (.inr newCell)
  assert (r.rightKeys.length > 0)
  let separatorKey ← index r.rightKeys 0
  let leftLeaf ← createPage .leafPage
  let rightLeaf ← createPage .leafPage
  let leftLpm ← LeafPageManager.load leftLeaf
  let rightLpm ← LeafPageManager.load rightLeaf
  let leftLpm ← fillLeaf r leftLpm r.leftKeys
  let rightLpm ← fillLeaf r rightLpm r.rightKeys
  when (currLpm.prevPage ≠ nullPage) do
    let oldPrevLpm ← LeafPageManager.load currLpm.prevPage
    let _ ← oldPrevLpm.setNextPage leftLeaf
  let leftLpm ← leftLpm.setNextPage rightLeaf
  let rightLpm ← rightLpm.setNextPage currLpm.nextPage
  when (currLpm.nextPage ≠ nullPage) do
    let oldNextLpm ← LeafPageManager.load currLpm.nextPage
    let _ ← oldNextLpm.setPrevPage rightLeaf
  let _ ← rightLpm.setPrevPage leftLeaf
  let _ ← leftLpm.setPrevPage currLpm.prevPage
  insertIntoParent (splitCursorNode cursorClone) cursorClone leftLeaf rightLeaf separatorKey

def borrowLeafSiblingCell (currPgno siblingPgno : Nat) (sep : BTreeCursorNode)
    (isLeftSibling : Bool) : BTreeM Bool := do
  if siblingPgno = nullPage then pure false
  else do
    let siblingLpm ← LeafPageManager.load siblingPgno
    assert (siblingLpm.numCells = siblingLpm.cells.length)
    let self ← getSelf
    if siblingLpm.numCells ≤ self.config.leafMinCells then pure false
    else do
      let lpm ← LeafPageManager.load currPgno
      assertPageType sep.1 .nodePage
      let sepNpm ← NodePageManager.load sep.1
      assert (sepNpm.numCells = sepNpm.cells.length)
      assert (sep.2 < sepNpm.numCells)
      let oldSep ← index sepNpm.cells sep.2
      assert (lpm.prevPage = siblingPgno ∨ lpm.nextPage = siblingPgno)
      if isLeftSibling then do
        let borrowedCell ← index siblingLpm.cells (siblingLpm.numCells - 1)
        let siblingLpm ← siblingLpm.deleteCell borrowedCell.key
        assert (siblingLpm.numCells ≥ self.config.leafMinCells)
        let _ ← lpm.writeCell borrowedCell
        let _ ← sepNpm.updateCellKey oldSep.key borrowedCell.key
        pure true
      else do
        let borrowedCell ← index siblingLpm.cells 0
        let siblingLpm ← siblingLpm.deleteCell borrowedCell.key
        assert (siblingLpm.numCells ≥ self.config.leafMinCells)
        let _ ← lpm.writeCell borrowedCell
        let newSep ← index siblingLpm.cells 0
        assert (borrowedCell.key < newSep.key)
        let _ ← sepNpm.updateCellKey oldSep.key newSep.key
        pure true

/-- The sibling on each side of a child index, `NULL_PAGE` where there is none. -/
def leftSiblingOf (npm : NodePageManager) (i : Nat) : BTreeM Nat :=
  if i > 0 then do
    let cell ← index npm.cells (i - 1)
    pure cell.leftChild
  else pure nullPage

def rightSiblingOf (npm : NodePageManager) (i : Nat) : BTreeM Nat :=
  if i + 1 < npm.numCells then do
    let cell ← index npm.cells (i + 1)
    pure cell.leftChild
  else if i + 1 = npm.numCells then pure npm.rightChild
  else pure nullPage

def borrowFromLeafSibling (parent : BTreeCursorNode) (currPgno : Nat) : BTreeM Bool := do
  assertPageType parent.1 .nodePage
  let parentNpm ← NodePageManager.load parent.1
  assert (parentNpm.numCells = parentNpm.cells.length)
  assert (parent.2 < parentNpm.numCells)
  let prevSibling ← leftSiblingOf parentNpm parent.2
  let nextSibling ← rightSiblingOf parentNpm parent.2
  let borrowed ← borrowLeafSiblingCell currPgno prevSibling (parent.1, parent.2 - 1) true
  if borrowed then pure true
  else borrowLeafSiblingCell currPgno nextSibling (parent.1, parent.2) false

def borrowNodeSiblingCell (currPgno siblingPgno : Nat) (sep : BTreeCursorNode)
    (isLeftSibling : Bool) : BTreeM Bool := do
  if siblingPgno = nullPage then pure false
  else do
    let currNpm ← NodePageManager.load currPgno
    let siblingNpm ← NodePageManager.load siblingPgno
    let self ← getSelf
    assert (siblingNpm.numCells ≥ self.config.nodeMinCells)
    if siblingNpm.numCells = self.config.nodeMinCells then pure false
    else do
      assertPageType sep.1 .nodePage
      let parentNpm ← NodePageManager.load sep.1
      assert (parentNpm.numCells = parentNpm.cells.length)
      assert (sep.2 ≤ parentNpm.numCells)
      if isLeftSibling then do
        let sepCell ← index parentNpm.cells sep.2
        let lastSiblingCell ← index siblingNpm.cells (siblingNpm.numCells - 1)
        let siblingRightChild := siblingNpm.rightChild
        let siblingNpm ← siblingNpm.setNodeRightChild lastSiblingCell.leftChild
        let _ ← siblingNpm.deleteNodeCell lastSiblingCell.key
        let _ ← parentNpm.updateCellKey sepCell.key lastSiblingCell.key
        let (_, currNpm) ← currNpm.insertNodeCell sepCell.key
        let _ ← currNpm.setCellLeftChild sepCell.key siblingRightChild
        pure true
      else do
        let firstSiblingCell ← index siblingNpm.cells 0
        let _ ← siblingNpm.deleteNodeCell firstSiblingCell.key
        let currParent ← index parentNpm.cells (sep.2 - 1)
        assert (currParent.leftChild = currPgno)
        let _ ← parentNpm.updateCellKey currParent.key firstSiblingCell.key
        let (_, currNpm) ← currNpm.insertNodeCell currParent.key
        let currNpm ← currNpm.setCellLeftChild currParent.key currNpm.rightChild
        let _ ← currNpm.setNodeRightChild firstSiblingCell.leftChild
        pure true

def borrowFromNodeSibling (parent : BTreeCursorNode) (currPgno : Nat) : BTreeM Bool := do
  assertPageType parent.1 .nodePage
  let parentNpm ← NodePageManager.load parent.1
  assert (parentNpm.numCells = parentNpm.cells.length)
  assert (parent.2 ≤ parentNpm.numCells)
  let leftSibling ← leftSiblingOf parentNpm parent.2
  when (parent.2 > 0) (assertPageType leftSibling .nodePage)
  let rightSibling ← rightSiblingOf parentNpm parent.2
  when (parent.2 + 1 ≤ parentNpm.numCells) (assertPageType rightSibling .nodePage)
  let borrowed ← borrowNodeSiblingCell currPgno leftSibling (parent.1, parent.2 - 1) true
  if borrowed then pure true
  else borrowNodeSiblingCell currPgno rightSibling (parent.1, parent.2 + 1) false

/-- The pair of pages a merge joins and the parent cell between them: the left sibling for a right
child, the right sibling for every other child. -/
def mergePair (parentNpm : NodePageManager) (i : Nat) (currPgno : Nat) :
    BTreeM (NodeCell × Nat × Nat) :=
  if i = parentNpm.numCells then do
    let cell ← index parentNpm.cells (i - 1)
    pure (cell, cell.leftChild, currPgno)
  else do
    let cell ← index parentNpm.cells i
    if i = parentNpm.numCells - 1 then pure (cell, currPgno, parentNpm.rightChild)
    else do
      let sibling ← index parentNpm.cells (i + 1)
      pure (cell, currPgno, sibling.leftChild)

/-- Insert a cell together with its child. -/
def insertWithChild (npm : NodePageManager) (key : DefaultPagerKey) (child : Nat) :
    BTreeM NodePageManager := do
  let (_, npm) ← npm.insertNodeCell key
  npm.setCellLeftChild key child

def mergeWithNodeSibling (currPgno : Nat) (parent : BTreeCursorNode) :
    BTreeM Nat := do
  assertPageType currPgno .nodePage
  assertPageType parent.1 .nodePage
  let parentNpm ← NodePageManager.load parent.1
  assert (parentNpm.numCells = parentNpm.cells.length)
  assert (parent.2 ≤ parentNpm.numCells)
  let (pulldownCell, leftPgno, rightPgno) ← mergePair parentNpm parent.2 currPgno
  let fixRightChild := parent.2 = parentNpm.numCells ∨ parent.2 = parentNpm.numCells - 1
  let leftNpm ← NodePageManager.load leftPgno
  let rightNpm ← NodePageManager.load rightPgno
  let self ← getSelf
  assert (leftNpm.numCells + rightNpm.numCells + 1 ≤ self.config.nodeMaxCells)
  let rightNpm ← leftNpm.cells.foldlM (fun npm cell => insertWithChild npm cell.key cell.leftChild)
    rightNpm
  let _ ← insertWithChild rightNpm pulldownCell.key leftNpm.rightChild
  let parentNpm ← parentNpm.deleteNodeCell pulldownCell.key
  when fixRightChild do
    let _ ← parentNpm.setNodeRightChild rightPgno
  insertFreelist leftPgno
  pure rightPgno

/-- The recursion pops `cursor_`, which is passed along as the argument it runs on. -/
def balanceNode : BTreeCursorStack → Nat → BTreeM Unit
  | cursor, nodePgno => do
    assertPageType nodePgno .nodePage
    let currNpm ← NodePageManager.load nodePgno
    let self ← getSelf
    assert (currNpm.numCells < self.config.nodeMinCells)
    assert (cursor.length > 0)
    match cursor with
    | [] => throw .undefined
    | parent :: rest => do
      setCursor rest
      let borrowed ← borrowFromNodeSibling parent nodePgno
      if borrowed then pure ()
      else do
        let mergedPgno ← mergeWithNodeSibling nodePgno parent
        let parentNpm ← NodePageManager.load parent.1
        let self ← getSelf
        if self.rootPgno = parent.1 ∧ parentNpm.numCells = 0 then do
          insertFreelist self.rootPgno
          setRootPgno mergedPgno
        else if self.rootPgno ≠ parent.1 ∧ parentNpm.numCells < self.config.nodeMinCells then
          balanceNode rest parent.1
        else pure ()

def mergeWithLeafSibling (parent : BTreeCursorNode) (currPgno : Nat) : BTreeM Unit := do
  assert (parent.1 ≠ nullPage)
  assertPageType parent.1 .nodePage
  assertPageType currPgno .leafPage
  let parentNpm ← NodePageManager.load parent.1
  assert (parentNpm.numCells = parentNpm.cells.length)
  assert (parent.2 ≤ parentNpm.numCells)
  assert ((parent.2 = parentNpm.numCells ∧ parentNpm.rightChild = currPgno) ∨
    (parent.2 < parentNpm.numCells ∧
      parentNpm.cells[parent.2]?.map NodeCell.leftChild = some currPgno))
  let (cellToDelete, leftPgno, rightPgno) ← mergePair parentNpm parent.2 currPgno
  let siblingPgno := if parent.2 = parentNpm.numCells then leftPgno else rightPgno
  assertPageType siblingPgno .leafPage
  let leftLpm ← LeafPageManager.load leftPgno
  let rightLpm ← LeafPageManager.load rightPgno
  let self ← getSelf
  assert (leftLpm.numCells + rightLpm.numCells ≤ self.config.leafMaxCells)
  let _ ← leftLpm.cells.foldlM (fun lpm cell => do
    let (_, lpm) ← lpm.writeCell cell
    pure lpm) rightLpm
  assertPageType siblingPgno .leafPage
  let parentNpm ← parentNpm.deleteNodeCell cellToDelete.key
  let leftLpmPtr ← LeafPageManager.load leftPgno
  let rightLpmPtr ← LeafPageManager.load rightPgno
  let leftPrevPage := leftLpmPtr.prevPage
  let _ ← rightLpmPtr.setPrevPage leftPrevPage
  when (leftPrevPage ≠ nullPage) do
    assertPageType leftPrevPage .leafPage
    let leftPrevLpm ← LeafPageManager.load leftPrevPage
    assert (leftPrevLpm.nextPage = leftPgno)
    let _ ← leftPrevLpm.setNextPage rightPgno
  insertFreelist leftPgno
  let self ← getSelf
  if parent.1 = self.rootPgno ∧ parentNpm.numCells = 0 then do
    insertFreelist self.rootPgno
    setRootPgno rightPgno
  else if parent.1 ≠ self.rootPgno ∧ parentNpm.numCells < self.config.nodeMinCells then
    balanceNode self.cursor parent.1
  else pure ()

def insert (key : DefaultPagerKey) (value : List Byte) : BTreeM Unit := do
  let keyExists ← moveToKey key
  if keyExists then throw (.runtimeError "[btree:insert]: Duplicate key")
  else do
    let self ← getSelf
    assert (self.cursor.length > 0)
    let curr ← topOf self.cursor
    assertPageType curr.1 .leafPage
    let lpm ← LeafPageManager.load curr.1
    assert (lpm.numCells = lpm.cells.length)
    if lpm.numCells < self.config.leafMaxCells then do
      let _ ← lpm.insertCell key value
      pure ()
    else do
      assert (lpm.numCells = self.config.leafMaxCells)
      let recordPage ← createOverflowPage value
      splitCursorLeaf ⟨value.length % 2 ^ 32, key, recordPage⟩
      let found ← moveToKey key
      assert (found = true)

/-- The first half of `remove`: the cell under the cursor is deleted from its leaf. -/
def deleteUnderCursor : BTreeM (BTreeCursorNode × DefaultPagerKey × LeafPageManager) := do
  let self ← getSelf
  assert (self.cursor.length > 0)
  let curr ← topOf self.cursor
  setCursor self.cursor.tail
  assertPageType curr.1 .leafPage
  let lpm ← LeafPageManager.load curr.1
  assert (lpm.numCells = lpm.cells.length)
  assert (curr.2 < lpm.numCells)
  let cell ← index lpm.cells curr.2
  let lpm ← lpm.deleteCell cell.key
  pure (curr, cell.key, lpm)

def remove : BTreeM Unit := do
  let (curr, keyToDelete, lpm) ← deleteUnderCursor
  let self ← getSelf
  if lpm.numCells ≥ self.config.leafMinCells then do
    let found ← moveToKey keyToDelete
    assert (found = false)
  else if curr.1 = self.rootPgno then do
    assert (self.cursor.length = 0)
    assertPageType self.rootPgno .leafPage
    if lpm.numCells = 0 then pure ()
    else do
      let found ← moveToKey keyToDelete
      assert (found = false)
  else do
    assert (self.cursor.length > 0)
    let parent ← topOf self.cursor
    setCursor self.cursor.tail
    assert (lpm.numCells < self.config.leafMinCells)
    let borrowed ← borrowFromLeafSibling parent curr.1
    when (borrowed = false) (mergeWithLeafSibling parent curr.1)
    let found ← moveToKey keyToDelete
    assert (found = false)

end

end Cpplite
