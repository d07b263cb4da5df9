import Cpplite.Pager.Pager

/-!
`btree.h` and the moves of `btree.cpp`: the cursor, how it is positioned, and what
can be read where it stands. A stack is a list with its top at the head.
-/
namespace Cpplite

open Exec Search

abbrev BTreeCursorNode := Nat × Nat

abbrev BTreeCursorStack := List BTreeCursorNode

structure BTreeConfig where
  nodeMaxCells : Nat := Cpplite.nodeMaxCells
  nodeMinCells : Nat := Cpplite.nodeMinCells
  leafMaxCells : Nat := Cpplite.leafMaxCells
  leafMinCells : Nat := Cpplite.leafMinCells
deriving DecidableEq, Repr

/-- `BTreeCursor` without its pager, which several cursors may share. -/
structure BTreeCursor where
  cursor : BTreeCursorStack
  rootPgno : Nat
  config : BTreeConfig
deriving DecidableEq, Repr

/-- A cursor together with the pager it points to. -/
structure BTreeState where
  pager : Pager
  self : BTreeCursor

abbrev BTreeM := EStateM Error BTreeState

def onPager {α : Type} (x : PagerM α) : BTreeM α :=
  zoom (·.pager) (fun p s => { s with pager := p }) x

instance : MonadLift PagerM BTreeM := ⟨onPager⟩

def getSelf : BTreeM BTreeCursor := do
  let s ← get
  pure s.self

def setCursor (cursor : BTreeCursorStack) : BTreeM Unit :=
  modify (fun s => { s with self := { s.self with cursor := cursor } })

def setRootPgno (pgno : Nat) : BTreeM Unit :=
  modify (fun s => { s with self := { s.self with rootPgno := pgno } })

section

variable [Build]

/-- The `BTreeCursor` constructor. -/
def BTreeCursor.new (rootPgno : Nat) (config : BTreeConfig) : PagerM BTreeCursor := do
  let rootType ← getPageType rootPgno
  assert (rootType = .nodePage ∨ rootType = .leafPage)
  pure ⟨[], rootPgno, config⟩

/-- A walk longer than the file has pages comes back to a page it has seen and never ends. -/
def walkFuel : BTreeM Nat := do
  let s ← get
  pure (s.pager.file.numPages + 1)

def moveToFirstLoop : Nat → Nat → BTreeCursorStack → BTreeM (Nat × BTreeCursorStack)
  | 0, _, _ => throw .diverges
  | fuel + 1, currPgno, newCursor => do
    let currPageType ← getPageType currPgno
    if currPageType ≠ .leafPage then do
      let pm ← seekPage currPgno
      let npm ← pm.getNode
      assert (npm.numCells = npm.cells.length ∧ npm.numCells > 0)
      let cell ← index npm.cells 0
      moveToFirstLoop fuel cell.leftChild ((currPgno, 0) :: newCursor)
    else pure (currPgno, newCursor)

def moveToFirst : BTreeM Unit := do
  let self ← getSelf
  let _ ← seekPage self.rootPgno
  let fuel ← walkFuel
  let (currPgno, newCursor) ← moveToFirstLoop fuel self.rootPgno []
  let pm ← seekPage currPgno
  let lpm ← pm.getLeaf
  assert (lpm.numCells = lpm.cells.length ∧ lpm.numCells > 0)
  setCursor ((currPgno, 0) :: newCursor)

def moveToLastLoop : Nat → Nat → BTreeCursorStack → BTreeM (Nat × BTreeCursorStack)
  | 0, _, _ => throw .diverges
  | fuel + 1, currPgno, newCursor => do
    let currPageType ← getPageType currPgno
    if currPageType ≠ .leafPage then do
      let pm ← seekPage currPgno
      let npm ← pm.getNode
      assert (npm.numCells = npm.cells.length ∧ npm.numCells > 0)
      moveToLastLoop fuel npm.rightChild ((currPgno, npm.numCells) :: newCursor)
    else pure (currPgno, newCursor)

def moveToLast : BTreeM Unit := do
  let self ← getSelf
  let _ ← seekPage self.rootPgno
  let rootType ← getPageType self.rootPgno
  assert (rootType = .nodePage)
  let fuel ← walkFuel
  let (currPgno, newCursor) ← moveToLastLoop fuel self.rootPgno []
  let pm ← seekPage currPgno
  let lpm ← pm.getLeaf
  assert (lpm.numCells = lpm.cells.length ∧ lpm.numCells > 0)
  setCursor ((currPgno, pred64 lpm.numCells) :: newCursor)

def findChildToTraverse (targetKey : DefaultPagerKey) (cells : List NodeCell) : Nat :=
  upperBound NodeCell.key targetKey cells

def findMatchingLeafCell (targetKey : DefaultPagerKey) (cells : List LeafCell) : Bool × Nat :=
  findKey LeafCell.key targetKey cells

/-- The child a cell index stands for: `num_cells` is the right child. -/
def NodePageManager.childAt {σ : Type} (npm : NodePageManager) (i : Nat) :
    EStateM Error σ Nat :=
  if i = npm.numCells then pure npm.rightChild
  else do
    let cell ← index npm.cells i
    pure cell.leftChild

def moveToKeyLoop (key : DefaultPagerKey) :
    Nat → PagerPageType → Nat → PageManager → BTreeCursorStack → BTreeM Bool
  | 0, _, _, _, _ => throw .diverges
  | fuel + 1, currPageType, prevPage, pm, candidate =>
    if currPageType = .nodePage then do
      let npm ← pm.getNode
      let idx := findChildToTraverse key npm.cells
      assert (npm.numCells = npm.cells.length)
      let childPage ← npm.childAt idx
      let pm ← seekPage childPage
      let childType ← getPageType childPage
      moveToKeyLoop key fuel childType childPage pm ((prevPage, idx) :: candidate)
    else do
      let lpm ← pm.getLeaf
      let (found, cellIdx) := findMatchingLeafCell key lpm.cells
      setCursor ((prevPage, cellIdx) :: candidate)
      pure found

def moveToKey (key : DefaultPagerKey) : BTreeM Bool := do
  let self ← getSelf
  let pm ← seekPage self.rootPgno
  let currPageType ← getPageType self.rootPgno
  let fuel ← walkFuel
  moveToKeyLoop key fuel currPageType self.rootPgno pm []

/-- `cursor_.top()` -/
def topOf {σ : Type} (cursor : BTreeCursorStack) : EStateM Error σ BTreeCursorNode :=
  match cursor with
  | [] => throw .undefined
  | top :: _ => pure top

/-- Pop every entry that came through child 0; what is left starts with a step that can go left. -/
def popLeftmost : BTreeCursorStack → BTreeCursorStack
  | [] => []
  | (pgno, i) :: rest => if i > 0 then (pgno, i) :: rest else popLeftmost rest

/-- Descend to the last cell of the subtree, pushing the path. -/
def descendLast : Nat → Nat → BTreeCursorStack → BTreeM Unit
  | 0, _, _ => throw .diverges
  | fuel + 1, childPage, stack => do
    let childType ← getPageType childPage
    if childType = .leafPage then do
      let lpm ← LeafPageManager.load childPage
      setCursor ((childPage, pred64 lpm.numCells) :: stack)
    else do
      let npm ← NodePageManager.load childPage
      setCursor ((childPage, npm.numCells) :: stack)
      descendLast fuel npm.rightChild ((childPage, npm.numCells) :: stack)

def prev : BTreeM Bool := do
  let self ← getSelf
  assert (self.cursor.length > 0)
  let curr ← topOf self.cursor
  let pageType ← getPageType curr.1
  assert (pageType = .leafPage)
  let lpm ← LeafPageManager.load curr.1
  assert (lpm.cells.length = lpm.numCells)
  assert (curr.2 < lpm.cells.length)
  if curr.2 > 0 then do
    setCursor ((curr.1, curr.2 - 1) :: self.cursor.tail)
    pure true
  else do
    let stack := popLeftmost self.cursor.tail
    setCursor stack
    match stack with
    | [] => pure false
    | (pgno, i) :: rest => do
      setCursor ((pgno, i - 1) :: rest)
      assertPageType pgno .nodePage
      let npm ← NodePageManager.load pgno
      let cell ← index npm.cells (i - 1)
      let fuel ← walkFuel
      descendLast fuel cell.leftChild ((pgno, i - 1) :: rest)
      pure true

/-- Pop every entry that came through the right child. -/
def popRightmost : BTreeCursorStack → BTreeM BTreeCursorStack
  | [] => pure []
  | (pgno, i) :: rest => do
    assertPageType pgno .nodePage
    let npm ← NodePageManager.load pgno
    if i < npm.numCells then pure ((pgno, i) :: rest)
    else do
      setCursor rest
      popRightmost rest

/-- Descend to the first cell of the subtree, pushing the path. -/
def descendFirst : Nat → Nat → BTreeCursorStack → BTreeM Unit
  | 0, _, _ => throw .diverges
  | fuel + 1, childPage, stack => do
    let childType ← getPageType childPage
    if childType = .leafPage then do
      let _ ← LeafPageManager.load childPage
      setCursor ((childPage, 0) :: stack)
    else do
      let npm ← NodePageManager.load childPage
      setCursor ((childPage, 0) :: stack)
      let cell ← index npm.cells 0
      descendFirst fuel cell.leftChild ((childPage, 0) :: stack)

def next : BTreeM Bool := do
  let self ← getSelf
  assert (self.cursor.length > 0)
  let curr ← topOf self.cursor
  assertPageType curr.1 .leafPage
  let lpm ← LeafPageManager.load curr.1
  assert (lpm.cells.length = lpm.numCells)
  assert (curr.2 < lpm.numCells)
  if curr.2 < pred64 lpm.numCells then do
    setCursor ((curr.1, curr.2 + 1) :: self.cursor.tail)
    pure true
  else do
    setCursor self.cursor.tail
    assert (curr.2 = pred64 lpm.numCells)
    let stack ← popRightmost self.cursor.tail
    match stack with
    | [] => pure false
    | (pgno, i) :: rest => do
      let npm ← NodePageManager.load pgno
      assert (i < npm.numCells)
      setCursor ((pgno, i + 1) :: rest)
      assertPageType pgno .nodePage
      let npm ← NodePageManager.load pgno
      let childPage ← npm.childAt (i + 1)
      let fuel ← walkFuel
      descendFirst fuel childPage ((pgno, i + 1) :: rest)
      pure true

def isEmpty : BTreeM Bool := do
  let self ← getSelf
  let rootType ← getPageType self.rootPgno
  if rootType ≠ .leafPage then pure false
  else do
    let lpm ← LeafPageManager.load self.rootPgno
    pure (lpm.numCells = 0)

def currentKey : BTreeM DefaultPagerKey := do
  let self ← getSelf
  assert (self.cursor.length > 0)
  let curr ← topOf self.cursor
  let pageType ← getPageType curr.1
  assert (pageType = .leafPage)
  let lpm ← LeafPageManager.load curr.1
  match lpm.cells[curr.2]? with
  | some cell => pure cell.key
  | none => throw (.runtimeError "[btree:current_key]: Cell index out of range")

def currentPgno : BTreeM Nat := do
  let self ← getSelf
  assert (self.cursor.length > 0)
  let curr ← topOf self.cursor
  let pageType ← getPageType curr.1
  assert (pageType = .leafPage)
  pure curr.1

def currentRecordPgno : BTreeM Nat := do
  let self ← getSelf
  assert (self.cursor.length > 0)
  let curr ← topOf self.cursor
  let pageType ← getPageType curr.1
  assert (pageType = .leafPage)
  let lpm ← LeafPageManager.load curr.1
  match lpm.cells[curr.2]? with
  | some cell => pure cell.recordPage
  | none => throw (.runtimeError "[btree:current_record_pgno]: Cell index out of range")

def currentValue : BTreeM (List Byte) := do
  let self ← getSelf
  assert (self.cursor.length > 0)
  let curr ← topOf self.cursor
  let pageType ← getPageType curr.1
  assert (pageType = .leafPage)
  let lpm ← LeafPageManager.load curr.1
  assert (curr.2 < lpm.cells.length)
  let cell ← index lpm.cells curr.2
  let payload ← lpm.getPayload cell.key
  match payload with
  | some bytes => pure bytes
  | none => throw (.runtimeError "[btree:current_value]: No payload associated with key")

end

end Cpplite
