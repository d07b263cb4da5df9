import Cpplite.Pager.Managers

/-!
`pager.cpp`: page creation, the free list, overflow chains, and the two leaf page
methods that go through them.
-/
namespace Cpplite

open Exec Search

section

variable [Build]

/-- `Pager::Pager` on a file that does not exist yet: a single first page. -/
def Pager.fresh : Pager where
  file := { page := Function.update (fun _ => .blank) 1 (.first ⟨1, nullPage, 1⟩), numPages := 1 }
  totalNumPages := 1

/-- `Pager::Pager` on the file as it stands: the first page is written over and the counter starts
at its default. -/
def Pager.reopen (f : OsFile) : Pager where
  file := f.write 1 (.first ⟨1, nullPage, 1⟩)
  totalNumPages := 1

omit [Build] in
theorem Pager.reopen_empty : Pager.reopen ⟨fun _ => .blank, 0⟩ = Pager.fresh := rfl

/-- The `std::variant` behind `page_manager_`. -/
inductive PageManager where
  | first (fpm : FirstPageManager)
  | node (npm : NodePageManager)
  | leaf (lpm : LeafPageManager)
  | free (fpm : FreePageManager)
  | overflow (opm : OverflowPageManager)

/-- The manager `seek_page` leaves in `page_manager_`, where every caller reads it right back. -/
def seekPage (pgno : Nat) : PagerM PageManager := do
  if pgno = 1 then do
    let fpm ← FirstPageManager.load
    pure (.first fpm)
  else do
    let page ← readPage pgno "[Pager:seek_page]: Failed to seek"
    match page with
    | .first _ => do
      let fpm ← FirstPageManager.load
      pure (.first fpm)
    | .node _ _ => do
      let npm ← NodePageManager.load pgno
      pure (.node npm)
    | .leaf _ _ => do
      let lpm ← LeafPageManager.load pgno
      pure (.leaf lpm)
    -- A blank page carries tag 0, which is `PAGER_FREE_PAGE`; its manager rejects the checksum.
    | .free _ | .blank => do
      let fpm ← FreePageManager.load pgno
      pure (.free fpm)
    | .overflow _ _ => do
      let opm ← OverflowPageManager.load pgno
      pure (.overflow opm)

/-- `std::get<NodePageManager>` -/
def PageManager.getNode : PageManager → PagerM NodePageManager
  | .node npm => pure npm
  | _ => throw (.runtimeError "std::get: wrong index for variant")

/-- `std::get<LeafPageManager>` -/
def PageManager.getLeaf : PageManager → PagerM LeafPageManager
  | .leaf lpm => pure lpm
  | _ => throw (.runtimeError "std::get: wrong index for variant")

def getPageType (pgno : Nat) : PagerM PagerPageType := do
  assert (pgno ≠ nullPage)
  let page ← readPage pgno "[Pager::get_page_type]: Failed to seek"
  match page with
  | .blank => throw (.runtimeError "[Pager:get_page_type]: Checksum failed")
  | .first _ => pure .firstPage
  | .node _ _ => pure .nodePage
  | .leaf _ _ => pure .leafPage
  | .free _ => pure .freePage
  | .overflow _ _ => pure .overflowPage

/-- `assert(get_page_type(pgno) == type)`: under `NDEBUG` the page is not even read. -/
def assertPageType (pgno : Nat) (type : PagerPageType) : PagerM Unit :=
  if Build.ndebug = true then pure ()
  else do
    let pageType ← getPageType pgno
    assert (pageType = type)

def insertFreelist (pgno : Nat) : PagerM Unit := do
  assert (pgno ≠ 1)
  let fpm ← FirstPageManager.load
  let _ ← fpm.setFreePageHead pgno
  writePage pgno (.free ⟨fpm.freePageHead⟩) "[Pager:insert_freelist]: Failed to seek"

/-- The header is read here without the checks of `FreePageManager`. -/
def popFreelist : PagerM Nat := do
  let fpm ← FirstPageManager.load
  if fpm.freePageHead = nullPage then pure nullPage
  else do
    let page ← readPage fpm.freePageHead "[Pager:pop_freelist]: Failed to seek freelist head"
    let _ ← fpm.setFreePageHead page.firstField
    pure fpm.freePageHead

def peekFreelist : PagerM Nat := do
  let fpm ← FirstPageManager.load
  pure fpm.freePageHead

/-- `create_page(PAGER_FREE_PAGE)` -/
def createFreePage : PagerM Nat := do
  let fpm ← FirstPageManager.load
  modify (fun s => { s with totalNumPages := s.totalNumPages + 1 })
  let s ← get
  osAppend (.free ⟨fpm.freePageHead⟩)
  let _ ← fpm.setFreePageHead s.totalNumPages
  pure s.totalNumPages

/-- The node and leaf branches of `create_page`: append, count, and record the count. -/
def appendPage (page : Page) : PagerM Nat := do
  let s ← get
  osAppend page
  modify (fun t => { t with totalNumPages := s.totalNumPages + 1 })
  let fpm ← FirstPageManager.load
  let _ ← fpm.setNumPages (s.totalNumPages + 1)
  pure (s.totalNumPages + 1)

/-- `create_page(PAGER_NODE_PAGE)` -/
def createNodePage : PagerM Nat :=
  appendPage (.node ⟨0, pageSize - sizeofNodePageHeader, nullPage⟩ [])

/-- `create_page(PAGER_LEAF_PAGE)` -/
def createLeafPage : PagerM Nat :=
  appendPage (.leaf ⟨0, pageSize - sizeofLeafPageHeader, nullPage, nullPage⟩ [])

/-- `create_page(page_type)` -/
def createPage : PagerPageType → PagerM Nat
  | .freePage => createFreePage
  | .nodePage => createNodePage
  | .leafPage => createLeafPage
  | _ => do
    assert False
    throw (.runtimeError "[Pager:create_page]: Can only create free or node pages")

/-- Payload bytes that fit one overflow page. -/
def chunkSize : Nat := pageSize - sizeofOverflowPageHeader

/-- The chunking loop. `offset` is a 32-bit counter, so a loop that has not ended after `2 ^ 32`
rounds has come back to an offset it had before. -/
def chunkLoop (payload : List Byte) (payloadSize : Nat) : Nat → Nat → Option (List (List Byte))
  | 0, _ => none
  | fuel + 1, offset =>
    if offset < payloadSize then
      (chunkLoop payload payloadSize fuel ((offset + chunkSize) % 2 ^ 32)).map
        ((payload.drop offset).take (min chunkSize (payloadSize - offset)) :: ·)
    else some []

/-- The chunks of a payload, whose size is taken in 32 bits. -/
def payloadChunks (payload : List Byte) : Option (List (List Byte)) :=
  chunkLoop payload (payload.length % 2 ^ 32) (2 ^ 32) 0

/-- One page number for each chunk: the free list first, then the file's end. -/
def takePages : Nat → FirstPageManager → Nat → PagerM (List Nat)
  | 0, _, _ => pure []
  | n + 1, fpm, freeHead =>
    if freeHead ≠ nullPage then do
      let tmp ← FreePageManager.load freeHead
      let fpm ← fpm.setFreePageHead tmp.nextFreePage
      let rest ← takePages n fpm tmp.nextFreePage
      pure (freeHead :: rest)
    else do
      modify (fun s => { s with totalNumPages := s.totalNumPages + 1 })
      let s ← get
      osAppend .blank
      let rest ← takePages n fpm freeHead
      pure (s.totalNumPages :: rest)

/-- Write each chunk to its page, linked to the next one. -/
def writeChunks : List (Nat × List Byte) → PagerM Unit
  | [] => pure ()
  | (pgno, chunk) :: rest => do
    let next := (rest.head?.map (·.1)).getD nullPage
    writePage pgno (.overflow ⟨next, chunk.length⟩ chunk)
      "[Pager::_write_overflow_chain]: Failed to seek"
    writeChunks rest

/-- `_write_overflow_chain` -/
def writeOverflowChain (payload : List Byte) : PagerM Nat :=
  match payloadChunks payload with
  | none => throw .diverges
  | some [] => pure nullPage
  | some chunks => do
    let fpm ← FirstPageManager.load
    let pageNums ← takePages chunks.length fpm fpm.freePageHead
    writeChunks (pageNums.zip chunks)
    index pageNums 0

/-- `create_page(PAGER_OVERFLOW_PAGE, payload)` -/
def createOverflowPage (payload : List Byte) : PagerM Nat :=
  writeOverflowChain payload

def getNumPages : PagerM Nat := do
  let fpm ← FirstPageManager.load
  pure fpm.numPages

def LeafPageManager.insertCell (lpm : LeafPageManager) (key : DefaultPagerKey)
    (cellData : List Byte) : PagerM (Bool × LeafPageManager) := do
  assert (lpm.numCells = lpm.cells.length)
  if sizeofLeafCell > lpm.totalBytesFree then pure (false, lpm)
  else do
    let (found, lo) := findKey LeafCell.key key lpm.cells
    if found then throw (.runtimeError "[LeafPageManager]: Duplicate leaf cell key")
    else do
      let recordPage ← createOverflowPage cellData
      let lpm := { lpm with
        cells := lpm.cells.insertIdx lo ⟨cellData.length % 2 ^ 32, key, recordPage⟩ }
      lpm.writeCells "[LeafPageManager:insert_cell]: Failed to seek write cell header"
      let lpm := { lpm with
        totalBytesFree := lpm.totalBytesFree - sizeofLeafCell, numCells := lpm.numCells + 1 }
      assert (sizeofLeafPageHeader + lpm.numCells * sizeofLeafCell + lpm.totalBytesFree = pageSize)
      lpm.writeHeader "[LeafPageManager:insert_cell]: Failed to seek to write new leaf page header"
      pure (true, lpm)

/-- The walk along an overflow chain. A chain longer than the file never ends. -/
def readChain : Nat → Nat → PagerM (List Byte)
  | 0, _ => throw .diverges
  | fuel + 1, it =>
    if it = nullPage then pure []
    else do
      let opm ← OverflowPageManager.load it
      let content ← opm.getOverflowContent
      let rest ← readChain fuel opm.nextOverflowPage
      pure (content ++ rest)

def LeafPageManager.getPayload (lpm : LeafPageManager) (key : DefaultPagerKey) :
    PagerM (Option (List Byte)) :=
  match lpm.cells.find? (fun c => c.key = key) with
  | none => pure none
  | some cell => do
    let s ← get
    let payload ← readChain (s.file.numPages + 1) cell.recordPage
    assert (payload.length = cell.payloadSize)
    pure (some payload)

end

end Cpplite
