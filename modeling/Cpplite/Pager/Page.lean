import Cpplite.Base
import Cpplite.Lib.Search

/-!
The database file as pages: `base_page.h`, the page headers and cells, and `osfile.cpp`.

Headers and cells are written with `memcpy` of plain structs, so a page is kept as
the structs its bytes spell. A page keeps its header apart from its cell area,
because the code writes them separately and the header alone says how much of the
area is live. `CHECKSUM` and the type tag are what tells the constructors apart; a
page that was appended blank carries neither.
-/
namespace Cpplite

open Exec Search

structure LeafCell where
  payloadSize : Nat
  key : DefaultPagerKey
  recordPage : Nat
deriving DecidableEq, Repr, Inhabited

structure NodeCell where
  key : DefaultPagerKey
  leftChild : Nat
deriving DecidableEq, Repr, Inhabited

structure PagerFirstPageHeader where
  numPages : Nat
  freePageHead : Nat
  nextOid : DefaultPagerKey
deriving DecidableEq, Repr

structure PagerLeafPageHeader where
  numCells : Nat
  totalBytesFree : Nat
  nextPage : Nat
  prevPage : Nat
deriving DecidableEq, Repr

structure PagerNodePageHeader where
  numCells : Nat
  totalBytesFree : Nat
  rightChild : Nat
deriving DecidableEq, Repr

structure PagerFreePageHeader where
  nextFreePage : Nat
deriving DecidableEq, Repr

structure PagerOverflowPageHeader where
  nextOverflowPage : Nat
  numBytes : Nat
deriving DecidableEq, Repr

/-- `sizeof(LeafCell_t)`: two 32-bit fields and a page number. -/
def sizeofLeafCell : Nat := 16

/-- `sizeof(NodeCell_t)`: a 32-bit key, padded, and a page number. -/
def sizeofNodeCell : Nat := 16

def sizeofLeafPageHeader : Nat := 40

def sizeofNodePageHeader : Nat := 32

def sizeofOverflowPageHeader : Nat := 24

/-- `LEAF_MAX_CELLS` -/
def leafMaxCells : Nat := (pageSize - sizeofLeafPageHeader) / sizeofLeafCell

/-- `LEAF_MIN_CELLS` -/
def leafMinCells : Nat := leafMaxCells / 2

/-- `NODE_MAX_CELLS` -/
def nodeMaxCells : Nat := (pageSize - sizeofNodePageHeader) / sizeofNodeCell

/-- `NODE_MIN_CELLS` -/
def nodeMinCells : Nat := nodeMaxCells / 2

inductive PagerPageType where
  | freePage
  | firstPage
  | nodePage
  | leafPage
  | overflowPage
deriving DecidableEq, Repr

inductive Page where
  | blank
  | first (header : PagerFirstPageHeader)
  | node (header : PagerNodePageHeader) (area : List NodeCell)
  | leaf (header : PagerLeafPageHeader) (area : List LeafCell)
  | free (header : PagerFreePageHeader)
  | overflow (header : PagerOverflowPageHeader) (content : List Byte)
deriving DecidableEq, Repr

/-- The eight bytes after the base header: where each kind of page keeps its first field. -/
def Page.firstField : Page → Nat
  | .blank => 0
  | .first h => h.numPages
  | .node h _ => h.numCells
  | .leaf h _ => h.numCells
  | .free h => h.nextFreePage
  | .overflow h _ => h.nextOverflowPage

/-- Overwrite the cell area from slot `i` on; slots never written hold zero bytes. -/
def overwrite {α : Type} [Inhabited α] (area : List α) (i : Nat) (cells : List α) : List α :=
  area.takeD i default ++ cells ++ area.drop (i + cells.length)

/-- The database file: what stands at each page number, and its length in pages. -/
structure OsFile where
  page : Nat → Page
  numPages : Nat

/-- What `os_read` finds at a page; past the end it reads nothing and the buffer stays zero. -/
def OsFile.read (f : OsFile) (pgno : Nat) : Page :=
  if pgno ≤ f.numPages then f.page pgno else .blank

/-- `Pager`: the file behind `db_file_ptr_` and the in-memory page counter. -/
structure Pager where
  file : OsFile
  totalNumPages : Nat

abbrev PagerM := EStateM Error Pager

/-- `os_seek` to the page and `os_read` of it. The offset of page 0 is negative. -/
def readPage (pgno : Nat) (seekError : String) : PagerM Page := do
  if pgno = 0 then throw (.runtimeError seekError)
  else do
    let s ← get
    pure (s.file.read pgno)

def OsFile.write (f : OsFile) (pgno : Nat) (page : Page) : OsFile where
  page := Function.update f.page pgno page
  numPages := max f.numPages pgno

/-- `os_seek` to the page and `os_write` of it. -/
def writePage (pgno : Nat) (page : Page) (seekError : String) : PagerM Unit := do
  if pgno = 0 then throw (.runtimeError seekError)
  else modify (fun s => { s with file := s.file.write pgno page })

/-- `os_append`: one page at the file's end. -/
def osAppend (page : Page) : PagerM Unit :=
  modify (fun s => { s with file := s.file.write (s.file.numPages + 1) page })

end Cpplite
