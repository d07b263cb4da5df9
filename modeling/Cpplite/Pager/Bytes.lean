import Cpplite.Pager.Layout

/-!
The pager and its page managers once more, on the bytes of the database file: every
`os_seek`, `os_read`, `os_write` and `os_append` of the sources with its offset and its
length, every header and cell through its layout.
-/
namespace Cpplite.Bytes

open Exec Search ByteFile LittleEndian

/-- A `Pager` on a file of bytes. `padding` is what the padding of the structs to be written next
will hold; nobody sets those bytes. -/
structure BytePager where
  bytes : List Byte
  totalNumPages : Nat
  padding : Nat → Byte

abbrev BytePagerM := EStateM Error BytePager

/-! ### `osfile.cpp` -/

/-- `(pgno - 1) * PAGE_SIZE + place` in 64 bits. -/
def pageOffset (pgno place : Nat) : Nat := (pred64 pgno * pageSize + place) % 2 ^ 64

/-- `os_seek`: the offset arrives as a signed `off_t`, and `lseek` takes no negative one. -/
def osSeek (offset : Nat) (seekError : String) : BytePagerM Unit :=
  if offset < 2 ^ 63 then pure () else throw (.runtimeError seekError)

/-- `os_read` into a zeroed buffer: the buffer, and how many bytes of it were read. -/
def osRead (offset numBytes : Nat) : BytePagerM (List Byte × Nat) := do
  let s ← get
  let bytesRead := pread s.bytes numBytes offset
  pure (padTo bytesRead numBytes, bytesRead.length)

/-- `os_write` of a whole buffer. -/
def osWrite (offset : Nat) (buffer : List Byte) : BytePagerM Unit :=
  modify (fun s => { s with bytes := pwrite s.bytes buffer offset })

/-- `os_append`: a payload shorter than asked for is filled up with zeros. -/
def osAppend (payload : List Byte) (numBytes : Nat) : BytePagerM Unit :=
  modify (fun s => { s with
    bytes := pwrite s.bytes ((padTo payload numBytes).take numBytes) s.bytes.length })

/-- The next `n` bytes that nobody set. -/
def indeterminate (n : Nat) : BytePagerM (List Byte) := do
  let s ← get
  set { s with padding := fun i => s.padding (i + n) }
  pure ((List.range n).map s.padding)

/-- The seek to a page and the read of all of it. -/
def readPage (pgno : Nat) (seekError : String) : BytePagerM (List Byte × Nat) := do
  osSeek (pageOffset pgno 0) seekError
  osRead (pageOffset pgno 0) pageSize

/-- A seek into a page and the write of a buffer there. -/
def writeAt (pgno place : Nat) (buffer : List Byte) (seekError : String) : BytePagerM Unit := do
  osSeek (pageOffset pgno place) seekError
  osWrite (pageOffset pgno place) buffer

section

variable [Build]

/-! ### First page -/

/-- The first page is read where a file just opened stands, without a seek. -/
def FirstPageManager.load : BytePagerM FirstPageManager := do
  let (page, _) ← osRead 0 pageSize
  let h := PagerFirstPageHeader.fromBytes page
  if checksumOf page = checksum then pure ⟨h.numPages, h.freePageHead, h.nextOid⟩
  else throw (.runtimeError "[FirstPageManager]: Invalid checksum")

/-- A field of the first page, at its `offsetof` from the file's start. -/
def writeFirstField (offset : Nat) (buffer : List Byte) (seekError : String) :
    BytePagerM Unit := do
  osSeek offset seekError
  osWrite offset buffer

def FirstPageManager.setNumPages (fpm : FirstPageManager) (n : Nat) :
    BytePagerM FirstPageManager := do
  writeFirstField 8 (uint64 n) "[FirstPageManager]: Failed to seek set_num_pages"
  pure { fpm with numPages := n }

def FirstPageManager.setFreePageHead (fpm : FirstPageManager) (pgno : Nat) :
    BytePagerM FirstPageManager := do
  writeFirstField 16 (uint64 pgno) "[FirstPageManager]: Failed to seek set_free_page_head"
  pure { fpm with freePageHead := pgno }

def FirstPageManager.setNextOid (fpm : FirstPageManager) (oid : DefaultPagerKey) :
    BytePagerM FirstPageManager := do
  writeFirstField 24 (uint32 oid.val) "[FirstPageManager]: Failed to seek set_next_oid"
  pure { fpm with nextOid := oid }

/-! ### Free pages -/

def FreePageManager.load (pgno : Nat) : BytePagerM FreePageManager := do
  let (page, bytesRead) ← readPage pgno "[FreePageManager]: Failed to seek"
  if checksumOf page = checksum ∧ sizeofFreePageHeader ≤ bytesRead then do
    assert (pageTypeOf page = PagerPageType.freePage.tag)
    pure ⟨pgno, (PagerFreePageHeader.fromBytes page).nextFreePage⟩
  else throw (.runtimeError "[FreePageManager]: Invalid checksum")

/-! ### Overflow pages -/

def OverflowPageManager.load (pgno : Nat) : BytePagerM OverflowPageManager := do
  let (page, bytesRead) ← readPage pgno "[OverflowPageManager]: Failed to seek"
  let h := PagerOverflowPageHeader.fromBytes page
  if checksumOf page = checksum ∧ sizeofOverflowPageHeader ≤ bytesRead then do
    assert (pageTypeOf page = PagerPageType.overflowPage.tag)
    pure ⟨pgno, h.nextOverflowPage, h.numBytes⟩
  else throw (.runtimeError "[OverflowPageHeader]: Invalid checksum")

/-- As many bytes as the manager says, be there another page's among them. -/
def OverflowPageManager.getOverflowContent (opm : OverflowPageManager) :
    BytePagerM (List Byte) := do
  osSeek (pageOffset opm.pgno sizeofOverflowPageHeader)
    "[OverflowPageManager]: Failed to seek to get_overflow_content"
  let (content, _) ← osRead (pageOffset opm.pgno sizeofOverflowPageHeader) opm.numBytes
  pure content

/-! ### Node pages -/

/-- `memcpy` of the cells out of a buffer of one page. -/
def copyCells {α : Type} (cellAt : List Byte → Nat → α) (page : List Byte)
    (sizeofHeader sizeofCell numCells : Nat) : BytePagerM (List α) :=
  if sizeofHeader + numCells * sizeofCell ≤ page.length then
    pure ((List.range numCells).map (fun i => cellAt page (sizeofHeader + i * sizeofCell)))
  else throw .undefined

def NodePageManager.load (pgno : Nat) : BytePagerM NodePageManager := do
  let (page, _) ← readPage pgno "[NodePageManager]: Failed to seek"
  let h := PagerNodePageHeader.fromBytes page
  if checksumOf page = checksum then do
    assert (pageTypeOf page = PagerPageType.nodePage.tag)
    let cells ← copyCells NodeCell.fromBytes page sizeofNodePageHeader sizeofNodeCell h.numCells
    pure ⟨pgno, cells, h.numCells, h.totalBytesFree % 2 ^ 16, h.rightChild⟩
  else throw (.runtimeError "[NodePageManager]: Invalid checksum")

/-- The bytes of an array of cells, padding and all. -/
def nodeCellBytes : List NodeCell → BytePagerM (List Byte)
  | [] => pure []
  | c :: cells => do
    let padding ← indeterminate 4
    let rest ← nodeCellBytes cells
    pure (c.toBytes padding ++ rest)

/-- Write `cells` from slot `i` on. -/
def NodePageManager.writeCells (npm : NodePageManager) (i : Nat) (cells : List NodeCell)
    (seekError : String) : BytePagerM Unit := do
  let cellBytes ← nodeCellBytes cells
  writeAt npm.pgno (sizeofNodePageHeader + i * sizeofNodeCell) cellBytes seekError

/-- Write the header the manager's fields describe. -/
def NodePageManager.writeHeader (npm : NodePageManager) (seekError : String) : BytePagerM Unit :=
  writeAt npm.pgno 0
    (PagerNodePageHeader.toBytes ⟨npm.numCells, npm.totalBytesFree, npm.rightChild⟩) seekError

def NodePageManager.insertNodeCell (npm : NodePageManager) (key : DefaultPagerKey) :
    BytePagerM (Bool × NodePageManager) := do
  assert (npm.numCells = npm.cells.length)
  if sizeofNodeCell > npm.totalBytesFree then pure (false, npm)
  else do
    let (found, lo) := findKey NodeCell.key key npm.cells
    if found then throw (.runtimeError "[NodePageManager]: Duplicate node cell key")
    else do
      let npm := { npm with cells := npm.cells.insertIdx lo ⟨key, nullPage⟩ }
      writeCells npm 0 npm.cells
        "[NodePageManager:insert_node_cell]: Failed to seek to write cell header"
      let npm := { npm with
        totalBytesFree := npm.totalBytesFree - sizeofNodeCell, numCells := npm.numCells + 1 }
      assert (sizeofNodePageHeader + npm.numCells * sizeofNodeCell + npm.totalBytesFree = pageSize)
      writeHeader npm
        "[NodePageManager:insert_node_cell]: Failed to seek to write new node page header"
      pure (true, npm)

def NodePageManager.setCellLeftChild (npm : NodePageManager) (key : DefaultPagerKey)
    (leftChild : Nat) : BytePagerM NodePageManager := do
  assert (npm.numCells = npm.cells.length)
  match npm.findNodeCellIdx key with
  | none => throw (.runtimeError "[NodePageManager:set_cell_left_child]: Key not found")
  | some i => do
    assert ((npm.cells[i]?.getD default).key = key)
    let npm := { npm with cells := npm.cells.set i ⟨key, leftChild⟩ }
    writeCells npm i [⟨key, leftChild⟩] "[NodePageManager:set_cell_left_child]: Failed to seek"
    pure npm

def NodePageManager.setNodeRightChild (npm : NodePageManager) (rightChild : Nat) :
    BytePagerM NodePageManager := do
  let npm := { npm with rightChild := rightChild }
  writeHeader npm "[NodePageManager:set_node_right_child]: Failed to seek"
  pure npm

def NodePageManager.deleteNodeCell (npm : NodePageManager) (key : DefaultPagerKey) :
    BytePagerM NodePageManager := do
  assert (npm.numCells = npm.cells.length)
  match npm.findNodeCellIdx key with
  | none => throw (.runtimeError "[NodePageManager:delete_node_cell]: Key not found")
  | some i => do
    let npm := { npm with
      cells := npm.cells.eraseIdx i
      numCells := npm.numCells - 1
      totalBytesFree := (npm.totalBytesFree + sizeofNodeCell) % 2 ^ 16 }
    writeCells npm 0 npm.cells "[NodePageManager:delete_node_cell]: Failed to seek to write cells"
    writeHeader npm "[NodePageManager:delete_node_cell]: Failed to seek to write header"
    pure npm

def NodePageManager.updateCellKey (npm : NodePageManager) (oldKey newKey : DefaultPagerKey) :
    BytePagerM NodePageManager := do
  assert (npm.numCells = npm.cells.length)
  match npm.findNodeCellIdx oldKey with
  | none => throw (.runtimeError "[NodePageManager:update_cell_key]: Key not found")
  | some i => do
    let npm := { npm with cells := npm.cells.modify i (fun c => { c with key := newKey }) }
    writeCells npm 0 npm.cells "[NodePageManager:update_cell_key]: Failed to seek"
    pure npm

/-! ### Leaf pages -/

def LeafPageManager.load (pgno : Nat) : BytePagerM LeafPageManager := do
  let (page, bytesRead) ← readPage pgno "[LeafPageManager]: Failed to seek"
  let h := PagerLeafPageHeader.fromBytes page
  if checksumOf page = checksum ∧ sizeofLeafPageHeader ≤ bytesRead then do
    assert (pageTypeOf page = PagerPageType.leafPage.tag)
    let cells ← copyCells LeafCell.fromBytes page sizeofLeafPageHeader sizeofLeafCell h.numCells
    pure ⟨pgno, cells, h.numCells, h.totalBytesFree % 2 ^ 16, h.prevPage, h.nextPage⟩
  else throw (.runtimeError "[LeafPageHeader]: Invalid checksum")

def LeafPageManager.writeCells (lpm : LeafPageManager) (seekError : String) : BytePagerM Unit :=
  writeAt lpm.pgno sizeofLeafPageHeader (lpm.cells.flatMap LeafCell.toBytes) seekError

def LeafPageManager.writeHeader (lpm : LeafPageManager) (seekError : String) : BytePagerM Unit :=
  writeAt lpm.pgno 0
    (PagerLeafPageHeader.toBytes ⟨lpm.numCells, lpm.totalBytesFree, lpm.nextPage, lpm.prevPage⟩)
    seekError

def LeafPageManager.writeCell (lpm : LeafPageManager) (cell : LeafCell) :
    BytePagerM (Bool × LeafPageManager) := do
  assert (lpm.numCells = lpm.cells.length)
  if sizeofLeafCell > lpm.totalBytesFree then pure (false, lpm)
  else do
    let (found, lo) := findKey LeafCell.key cell.key lpm.cells
    if found then throw (.runtimeError "[LeafPageManager]: Duplicate leaf cell key")
    else do
      let lpm := { lpm with
        cells := lpm.cells.insertIdx lo cell
        totalBytesFree := lpm.totalBytesFree - sizeofLeafCell
        numCells := lpm.numCells + 1 }
      assert (sizeofLeafPageHeader + lpm.numCells * sizeofLeafCell + lpm.totalBytesFree = pageSize)
      writeCells lpm "[LeafPageManager:write_cell]: Failed to seek to write cells"
      writeHeader lpm "[LeafPageManager:write_cell]: Failed to seek to write header"
      pure (true, lpm)

def LeafPageManager.deleteCell (lpm : LeafPageManager) (key : DefaultPagerKey) :
    BytePagerM LeafPageManager := do
  assert (lpm.numCells = lpm.cells.length)
  if lpm.numCells = 0 then pure lpm
  else do
    let (found, lo) := findKey LeafCell.key key lpm.cells
    if found then do
      let lpm := { lpm with
        cells := lpm.cells.eraseIdx lo
        numCells := lpm.numCells - 1
        totalBytesFree := (lpm.totalBytesFree + sizeofLeafCell) % 2 ^ 16 }
      writeCells lpm "[LeafPageManager:delete_cell]: Failed to seek to write cells"
      writeHeader lpm "[LeafPageManager:delete_cell]: Failed to seek to write header"
      pure lpm
    else throw (.runtimeError "[LeafPageManager:delete_cell]: Key not found")

/-- `_set_leaf_page_pointers`: the header is read, one link replaced in it, and written back. -/
def LeafPageManager.setLeafPagePointers (lpm : LeafPageManager) (pgno : Nat)
    (usePrevPage : Bool) : BytePagerM LeafPageManager := do
  osSeek (pageOffset lpm.pgno 0) "[LeafPageManager:_set_leaf_page_pointers]: Failed to seek"
  let (header, _) ← osRead (pageOffset lpm.pgno 0) sizeofLeafPageHeader
  let header := pwrite header (uint64 pgno) (if usePrevPage then 32 else 24)
  writeAt lpm.pgno 0 header
    "[LeafPageManager:_set_leaf_page_pointers]: Failed to seek before write"
  pure (if usePrevPage then { lpm with prevPage := pgno } else { lpm with nextPage := pgno })

def LeafPageManager.setPrevPage (lpm : LeafPageManager) (pgno : Nat) :
    BytePagerM LeafPageManager :=
  setLeafPagePointers lpm pgno true

def LeafPageManager.setNextPage (lpm : LeafPageManager) (pgno : Nat) :
    BytePagerM LeafPageManager :=
  setLeafPagePointers lpm pgno false

/-! ### `pager.cpp` -/

/-- `Pager::Pager`: the write asks for a page of a buffer that holds the header alone, so behind
the header goes to the file what lies behind the buffer. -/
def Pager.reopen : BytePagerM Unit := do
  let padding ← indeterminate (pageSize - sizeofFirstPageHeader + 4)
  osSeek 0 "[Pager:Pager]: Failed to seek"
  osWrite 0 (PagerFirstPageHeader.toBytes ⟨1, nullPage, 1⟩ padding)
  modify (fun s => { s with totalNumPages := 1 })

def seekPage (pgno : Nat) : BytePagerM PageManager := do
  if pgno = 1 then do
    let fpm ← FirstPageManager.load
    pure (.first fpm)
  else do
    let (page, _) ← readPage pgno "[Pager:seek_page]: Failed to seek"
    match PagerPageType.ofTag (pageTypeOf page) with
    | some .firstPage => do
      let fpm ← FirstPageManager.load
      pure (.first fpm)
    | some .nodePage => do
      let npm ← NodePageManager.load pgno
      pure (.node npm)
    | some .leafPage => do
      let lpm ← LeafPageManager.load pgno
      pure (.leaf lpm)
    | some .freePage => do
      let fpm ← FreePageManager.load pgno
      pure (.free fpm)
    | some .overflowPage => do
      let opm ← OverflowPageManager.load pgno
      pure (.overflow opm)
    | none => throw (.runtimeError "[Pager:seek_page]: Attempted to seek invalid page type")

def getPageType (pgno : Nat) : BytePagerM PagerPageType := do
  assert (pgno ≠ nullPage)
  osSeek (pageOffset pgno 0) "[Pager::get_page_type]: Failed to seek"
  let (header, _) ← osRead (pageOffset pgno 0) sizeofBasePageHeader
  if checksumOf header = checksum then
    match PagerPageType.ofTag (pageTypeOf header) with
    | some type => pure type
    | none => throw .undefined
  else throw (.runtimeError "[Pager:get_page_type]: Checksum failed")

def insertFreelist (pgno : Nat) : BytePagerM Unit := do
  assert (pgno ≠ 1)
  let fpm ← FirstPageManager.load
  let freePageContent := padTo (PagerFreePageHeader.toBytes ⟨fpm.freePageHead⟩) pageSize
  let _ ← FirstPageManager.setFreePageHead fpm pgno
  writeAt pgno 0 freePageContent "[Pager:insert_freelist]: Failed to seek"

/-- The header is taken from the page without the checks of `FreePageManager`. -/
def popFreelist : BytePagerM Nat := do
  let fpm ← FirstPageManager.load
  if fpm.freePageHead = nullPage then pure nullPage
  else do
    let (page, _) ← readPage fpm.freePageHead "[Pager:pop_freelist]: Failed to seek freelist head"
    let _ ← FirstPageManager.setFreePageHead fpm (PagerFreePageHeader.fromBytes page).nextFreePage
    pure fpm.freePageHead

def peekFreelist : BytePagerM Nat := do
  let fpm ← FirstPageManager.load
  pure fpm.freePageHead

/-- `create_page(PAGER_FREE_PAGE)` -/
def createFreePage : BytePagerM Nat := do
  let fpm ← FirstPageManager.load
  modify (fun s => { s with totalNumPages := s.totalNumPages + 1 })
  let s ← get
  osAppend (PagerFreePageHeader.toBytes ⟨fpm.freePageHead⟩) pageSize
  let _ ← FirstPageManager.setFreePageHead fpm s.totalNumPages
  pure s.totalNumPages

/-- The node and leaf branches of `create_page`. -/
def appendPage (header : List Byte) : BytePagerM Nat := do
  let s ← get
  osAppend header pageSize
  modify (fun t => { t with totalNumPages := s.totalNumPages + 1 })
  let fpm ← FirstPageManager.load
  let _ ← FirstPageManager.setNumPages fpm (s.totalNumPages + 1)
  pure (s.totalNumPages + 1)

/-- `create_page(page_type)` -/
def createPage : PagerPageType → BytePagerM Nat
  | .freePage => createFreePage
  | .nodePage =>
    appendPage (PagerNodePageHeader.toBytes ⟨0, pageSize - sizeofNodePageHeader, nullPage⟩)
  | .leafPage =>
    appendPage
      (PagerLeafPageHeader.toBytes ⟨0, pageSize - sizeofLeafPageHeader, nullPage, nullPage⟩)
  | _ => do
    assert False
    throw (.runtimeError "[Pager:create_page]: Can only create free or node pages")

/-- One page number for each chunk. -/
def takePages : Nat → FirstPageManager → Nat → BytePagerM (List Nat)
  | 0, _, _ => pure []
  | n + 1, fpm, freeHead =>
    if freeHead ≠ nullPage then do
      let tmp ← FreePageManager.load freeHead
      let fpm ← FirstPageManager.setFreePageHead fpm tmp.nextFreePage
      let rest ← takePages n fpm tmp.nextFreePage
      pure (freeHead :: rest)
    else do
      modify (fun s => { s with totalNumPages := s.totalNumPages + 1 })
      let s ← get
      osAppend (List.replicate pageSize 0) pageSize
      let rest ← takePages n fpm freeHead
      pure (s.totalNumPages :: rest)

/-- Write each chunk to its page, behind a header and with zeros up to the page's end. -/
def writeChunks : List (Nat × List Byte) → BytePagerM Unit
  | [] => pure ()
  | (pgno, chunk) :: rest => do
    let next := (rest.head?.map (·.1)).getD nullPage
    let padding ← indeterminate 4
    let pageData := padTo (PagerOverflowPageHeader.toBytes ⟨next, chunk.length⟩ padding ++ chunk) pageSize
    writeAt pgno 0 pageData "[Pager::_write_overflow_chain]: Failed to seek"
    writeChunks rest

/-- `_write_overflow_chain` -/
def writeOverflowChain (payload : List Byte) : BytePagerM Nat :=
  match payloadChunks payload with
  | none => throw .diverges
  | some [] => pure nullPage
  | some chunks => do
    let fpm ← FirstPageManager.load
    let pageNums ← takePages chunks.length fpm fpm.freePageHead
    writeChunks (pageNums.zip chunks)
    index pageNums 0

/-- `create_page(PAGER_OVERFLOW_PAGE, payload)` -/
def createOverflowPage (payload : List Byte) : BytePagerM Nat :=
  writeOverflowChain payload

def getNumPages : BytePagerM Nat := do
  let fpm ← FirstPageManager.load
  pure fpm.numPages

def LeafPageManager.insertCell (lpm : LeafPageManager) (key : DefaultPagerKey)
    (cellData : List Byte) : BytePagerM (Bool × LeafPageManager) := do
  assert (lpm.numCells = lpm.cells.length)
  if sizeofLeafCell > lpm.totalBytesFree then pure (false, lpm)
  else do
    let (found, lo) := findKey LeafCell.key key lpm.cells
    if found then throw (.runtimeError "[LeafPageManager]: Duplicate leaf cell key")
    else do
      let recordPage ← createOverflowPage cellData
      let lpm := { lpm with
        cells := lpm.cells.insertIdx lo ⟨cellData.length % 2 ^ 32, key, recordPage⟩ }
      writeCells lpm "[LeafPageManager:insert_cell]: Failed to seek write cell header"
      let lpm := { lpm with
        totalBytesFree := lpm.totalBytesFree - sizeofLeafCell, numCells := lpm.numCells + 1 }
      assert (sizeofLeafPageHeader + lpm.numCells * sizeofLeafCell + lpm.totalBytesFree = pageSize)
      writeHeader lpm "[LeafPageManager:insert_cell]: Failed to seek to write new leaf page header"
      pure (true, lpm)

/-- The walk along an overflow chain. A chain longer than the file has pages never ends. -/
def readChain : Nat → Nat → BytePagerM (List Byte)
  | 0, _ => throw .diverges
  | fuel + 1, it =>
    if it = nullPage then pure []
    else do
      let opm ← OverflowPageManager.load it
      let content ← OverflowPageManager.getOverflowContent opm
      let rest ← readChain fuel opm.nextOverflowPage
      pure (content ++ rest)

def LeafPageManager.getPayload (lpm : LeafPageManager) (key : DefaultPagerKey) :
    BytePagerM (Option (List Byte)) :=
  match lpm.cells.find? (fun c => c.key = key) with
  | none => pure none
  | some cell => do
    let s ← get
    let payload ← readChain (s.bytes.length / pageSize + 1) cell.recordPage
    assert (payload.length = cell.payloadSize)
    pure (some payload)

end

end Cpplite.Bytes
