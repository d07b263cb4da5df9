import Cpplite.BTree.Runs

/-!
`insert` with an eye on the results it discards.

`insert_cell`, `write_cell` and `insert_node_cell` answer whether the page had room, and
`insert` asks none of them. Here the same program hands each answer to `check`. One that
ignores it gives the source back; one that insists on it stops where a cell was dropped.
-/
namespace Cpplite

open Exec Search

/-- What becomes of an answer. -/
abbrev Check := Bool → BTreeM Unit

def Check.ignore : Check := fun _ => pure ()

def Check.insist : Check := fun ok => if ok then pure () else throw .undefined

/-- A check that has nothing against `true`. -/
def Check.Passes (check : Check) : Prop := ∀ s, check true s = .ok () s

theorem Check.insist_passes : Check.insist.Passes := fun _ => rfl

theorem Check.ignore_passes : Check.ignore.Passes := fun _ => rfl

theorem Check.Passes.steps {check : Check} {d : Disk} {c : BTreeCursor} (h : check.Passes) :
    Steps (check true) d c () d c :=
  Steps.of_eq (fun s _ _ => h s)

section

variable [Build] (check : Check)

def growRootWith (left right : Nat) (separatorKey : DefaultPagerKey) : BTreeM Unit := do
  let newRootPgno ← createPage .nodePage
  let rootNpm ← NodePageManager.load newRootPgno
  let (ok, rootNpm) ← rootNpm.insertNodeCell separatorKey
  check ok
  let rootNpm ← rootNpm.setCellLeftChild separatorKey left
  let _ ← rootNpm.setNodeRightChild right
  setRootPgno newRootPgno

def insertIntoParentWith (splitParent : NodeCell → BTreeM Unit) (cursorClone : BTreeCursorStack)
    (left right : Nat) (separatorKey : DefaultPagerKey) : BTreeM Unit :=
  match cursorClone with
  | [] => growRootWith check left right separatorKey
  | parent :: _ => do
    assertPageType parent.1 .nodePage
    let newParentNode ← assignChildrenNodes left right parent separatorKey
    let npm ← NodePageManager.load parent.1
    let self ← getSelf
    if npm.numCells = self.config.nodeMaxCells then do
      setCursor cursorClone
      splitParent newParentNode
    else do
      let (ok, npm) ← npm.insertNodeCell newParentNode.key
      check ok
      let _ ← npm.setCellLeftChild newParentNode.key newParentNode.leftChild
      pure ()

def fillNodeWith (r : SplitCellRes) (npm : NodePageManager) (keys : List DefaultPagerKey) :
    BTreeM NodePageManager :=
  keys.foldlM (fun npm key => do
    let (ok, npm) ← npm.insertNodeCell key
    check ok
    let cell ← r.nodeAt key
    npm.setCellLeftChild key cell.leftChild) npm

def splitCursorNodeWith : BTreeCursorStack → NodeCell → BTreeM Unit
  | [], _ => do
    assert False
    throw .undefined
  | (pgno, _) :: cursorClone, newCell => do
    assertPageType pgno .nodePage
    let currNpm ← NodePageManager.load pgno
    let self ← getSelf
    assert (currNpm.cells.length = currNpm.numCells ∧ currNpm.numCells = self.config.nodeMaxCells)
    let r ← splitCell pgno (.inl newCell)
    assert (r.rightKeys.length > 0)
    let separatorKey ← index r.rightKeys 0
    let leftNode ← createPage .nodePage
    let rightNode ← createPage .nodePage
    let leftNpm ← NodePageManager.load leftNode
    let rightNpm ← NodePageManager.load rightNode
    let leftNpm ← fillNodeWith check r leftNpm r.leftKeys
    let separatorCell ← r.nodeAt separatorKey
    let _ ← leftNpm.setNodeRightChild separatorCell.leftChild
    let rightNpm ← fillNodeWith check r rightNpm r.rightKeys.tail
    let _ ← rightNpm.setNodeRightChild currNpm.rightChild
    insertIntoParentWith check (splitCursorNodeWith cursorClone) cursorClone leftNode rightNode
      separatorKey

def fillLeafWith (r : SplitCellRes) (lpm : LeafPageManager) (keys : List DefaultPagerKey) :
    BTreeM LeafPageManager :=
  keys.foldlM (fun lpm key => do
    let cell ← r.leafAt key
    let (ok, lpm) ← lpm.writeCell cell
    check ok
    pure lpm) lpm

def splitCursorLeafWith (newCell : LeafCell) : BTreeM Unit := do
  let self ← getSelf
  assert (self.cursor.length > 0)
  let (pgno, _) ← topOf self.cursor
  assertPageType pgno .leafPage
  let cursorClone := self.cursor.tail
  let currLpm ← LeafPageManager.load pgno
  assert (currLpm.cells.length = currLpm.numCells ∧ currLpm.numCells = self.config.leafMaxCells)
  let r ← splitCell pgno (.inr newCell)
  assert (r.rightKeys.length > 0)
  let separatorKey ← index r.rightKeys 0
  let leftLeaf ← createPage .leafPage
  let rightLeaf ← createPage .leafPage
  let leftLpm ← LeafPageManager.load leftLeaf
  let rightLpm ← LeafPageManager.load rightLeaf
  let leftLpm ← fillLeafWith check r leftLpm r.leftKeys
  let rightLpm ← fillLeafWith check r rightLpm r.rightKeys
  when (currLpm.prevPage ≠ nullPage) do
    let oldPrevLpm ← LeafPageManager.load currLpm.prevPage
    let _ ← oldPrevLpm.setNextPage leftLeaf
  let leftLpm ← leftLpm.setNextPage rightLeaf
  let rightLpm ← rightLpm.setNextPage currLpm.nextPage
  when (currLpm.nextPage ≠ nullPage) do
    let oldNextLpm ← LeafPageManager.load currLpm.nextPage
    let _ ← oldNextLpm.setPrevPage rightLeaf
  let _ ← rightLpm.setPrevPage leftLeaf
  let _ ← leftLpm.setPrevPage currLpm.prevPage
  insertIntoParentWith check (splitCursorNodeWith check cursorClone) cursorClone leftLeaf rightLeaf
    separatorKey

def insertWith (key : DefaultPagerKey) (value : List Byte) : BTreeM Unit := do
  let keyExists ← moveToKey key
  if keyExists then throw (.runtimeError "[btree:insert]: Duplicate key")
  else do
    let self ← getSelf
    assert (self.cursor.length > 0)
    let curr ← topOf self.cursor
    assertPageType curr.1 .leafPage
    let lpm ← LeafPageManager.load curr.1
    assert (lpm.numCells = lpm.cells.length)
    if lpm.numCells < self.config.leafMaxCells then do
      let (ok, _) ← lpm.insertCell key value
      check ok
    else do
      assert (lpm.numCells = self.config.leafMaxCells)
      let recordPage ← createOverflowPage value
      splitCursorLeafWith check ⟨value.length % 2 ^ 32, key, recordPage⟩
      let found ← moveToKey key
      assert (found = true)

end

section Ignore

variable [Build]

theorem growRootWith_ignore : growRootWith .ignore = growRoot := rfl

theorem fillNodeWith_ignore : fillNodeWith .ignore = fillNode := rfl

theorem fillLeafWith_ignore : fillLeafWith .ignore = fillLeaf := rfl

theorem insertIntoParentWith_ignore : insertIntoParentWith .ignore = insertIntoParent := rfl

theorem splitCursorNodeWith_ignore (st : BTreeCursorStack) :
    splitCursorNodeWith .ignore st = splitCursorNode st := by
  induction st with
  | nil => rfl
  | cons e st ih =>
    funext newCell
    rw [splitCursorNodeWith, splitCursorNode, ih]
    rfl

theorem splitCursorLeafWith_ignore : splitCursorLeafWith .ignore = splitCursorLeaf := by
  funext newCell
  rw [splitCursorLeafWith, splitCursorLeaf]
  simp only [splitCursorNodeWith_ignore]
  rfl

theorem insertWith_ignore : insertWith .ignore = insert := by
  funext key value
  rw [insertWith, insert, splitCursorLeafWith_ignore]
  rfl

end Ignore

section Refines

variable {check : Check}

/-- A check that lets a run go on only as if it were not there. -/
def Check.Guards (check : Check) : Prop := ∀ ok, Refines (check ok) (pure ())

theorem Check.insist_guards : Check.insist.Guards := by
  intro ok s a t h
  cases ok with
  | true => exact h
  | false => cases h

/-- A check between two steps that run alike. -/
theorem Check.Guards.then {α : Type} (h : check.Guards) {ok : Bool} {x y : BTreeM α}
    (hxy : Refines x y) : Refines (do check ok; x) y :=
  (h ok).bind (fun _ => hxy)

variable [Build]

theorem growRootWith_refines (h : check.Guards) {left right : Nat} {k : DefaultPagerKey} :
    Refines (growRootWith check left right k) (growRoot left right k) := by
  refine .after fun _ => .after fun _ => .after fun _ => ?_
  exact h.then .refl

theorem insertIntoParentWith_refines (h : check.Guards) {split split' : NodeCell → BTreeM Unit}
    (hs : ∀ c, Refines (split c) (split' c)) {st : BTreeCursorStack} {left right : Nat}
    {k : DefaultPagerKey} : Refines (insertIntoParentWith check split st left right k)
      (insertIntoParent split' st left right k) := by
  cases st with
  | nil => exact growRootWith_refines h
  | cons parent st =>
    refine .after fun _ => .after fun newParentNode => .after fun npm => .after fun self => ?_
    refine Refines.ite (.after fun _ => hs _) (.after fun _ => ?_)
    exact h.then .refl

theorem fillNodeWith_refines (h : check.Guards) {r : SplitCellRes} {npm : NodePageManager}
    {keys : List DefaultPagerKey} : Refines (fillNodeWith check r npm keys) (fillNode r npm keys) :=
  Refines.foldlM (fun _ _ => .after fun _ => h.then .refl) keys npm

theorem fillLeafWith_refines (h : check.Guards) {r : SplitCellRes} {lpm : LeafPageManager}
    {keys : List DefaultPagerKey} : Refines (fillLeafWith check r lpm keys) (fillLeaf r lpm keys) :=
  Refines.foldlM (fun _ _ => .after fun _ => .after fun _ => h.then .refl) keys lpm

theorem splitCursorNodeWith_refines (h : check.Guards) (st : BTreeCursorStack) :
    ∀ c, Refines (splitCursorNodeWith check st c) (splitCursorNode st c) := by
  induction st with
  | nil => exact fun _ => .refl
  | cons e st ih =>
    intro newCell
    refine .after fun _ => .after fun _ => .after fun _ => .after fun _ => .after fun _ =>
      .after fun _ => .after fun _ => .after fun _ => .after fun _ => .after fun _ =>
      .after fun _ => ?_
    refine (fillNodeWith_refines h).bind fun _ => .after fun _ => .after fun _ => ?_
    refine (fillNodeWith_refines h).bind fun _ => .after fun _ => ?_
    exact insertIntoParentWith_refines h ih

theorem splitCursorLeafWith_refines (h : check.Guards) (c : LeafCell) :
    Refines (splitCursorLeafWith check c) (splitCursorLeaf c) := by
  refine .after fun _ => .after fun _ => .after fun _ => .after fun _ => .after fun _ =>
    .after fun _ => .after fun _ => .after fun _ => .after fun _ => .after fun _ =>
    .after fun _ => .after fun _ => .after fun _ => ?_
  refine (fillLeafWith_refines h).bind fun _ => (fillLeafWith_refines h).bind fun _ => ?_
  refine .after fun _ => .after fun _ => .after fun _ => .after fun _ => .after fun _ =>
    .after fun _ => ?_
  exact insertIntoParentWith_refines h (splitCursorNodeWith_refines h _)

/-- A run of `insert` that every check let pass is a run of the source. -/
theorem insertWith_refines (h : check.Guards) (k : DefaultPagerKey) (value : List Byte) :
    Refines (insertWith check k value) (insert k value) := by
  refine .after fun _ => Refines.ite .refl ?_
  refine .after fun _ => .after fun _ => .after fun _ => .after fun _ => .after fun _ =>
    .after fun _ => ?_
  refine Refines.ite (.after fun _ => h _) ?_
  refine .after fun _ => .after fun _ => ?_
  exact (splitCursorLeafWith_refines h _).bind fun _ => .refl

end Refines

end Cpplite
