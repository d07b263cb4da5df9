import Cpplite.Lib.LittleEndian
import Cpplite.Pager.Pager

/-!
The structs of the page headers and cells as `memcpy` sees them: each field at its offset,
least significant byte first. Where the fields do not fill a struct, the bytes between are
whatever the stack held (`padding` below).
-/
namespace Cpplite

open ByteFile LittleEndian

/-- The value of the enumerator. -/
def PagerPageType.tag : PagerPageType → Nat
  | .freePage => 0
  | .firstPage => 1
  | .nodePage => 2
  | .leafPage => 3
  | .overflowPage => 4

def PagerPageType.ofTag : Nat → Option PagerPageType
  | 0 => some .freePage
  | 1 => some .firstPage
  | 2 => some .nodePage
  | 3 => some .leafPage
  | 4 => some .overflowPage
  | _ => none

theorem PagerPageType.ofTag_tag (type : PagerPageType) : ofTag type.tag = some type := by
  cases type <;> rfl

/-- `uint32_t` -/
abbrev uint32 (n : Nat) : List Byte := toBytes 4 n

/-- `uint64_t`, `size_t` and `PageNumber` -/
abbrev uint64 (n : Nat) : List Byte := toBytes 8 n

/-- `PagerBasePageHeader`, the first eight bytes of every header. -/
def PagerPageType.toBytes (type : PagerPageType) : List Byte := uint32 checksum ++ uint32 type.tag

def checksumOf (page : List Byte) : Nat := field 4 page 0

def pageTypeOf (page : List Byte) : Nat := field 4 page 4

/-- `sizeof(PagerBasePageHeader)` -/
def sizeofBasePageHeader : Nat := 8

def sizeofFirstPageHeader : Nat := 32

def sizeofFreePageHeader : Nat := 16

/-! ### Headers -/

def PagerFirstPageHeader.toBytes (h : PagerFirstPageHeader) (padding : List Byte) : List Byte :=
  PagerPageType.firstPage.toBytes ++ (uint64 h.numPages ++ (uint64 h.freePageHead ++
    (uint32 h.nextOid.val ++ padding)))

def PagerFirstPageHeader.fromBytes (page : List Byte) : PagerFirstPageHeader :=
  ⟨field 8 page 8, field 8 page 16, Fin.ofNat _ (field 4 page 24)⟩

def PagerFreePageHeader.toBytes (h : PagerFreePageHeader) : List Byte :=
  PagerPageType.freePage.toBytes ++ uint64 h.nextFreePage

def PagerFreePageHeader.fromBytes (page : List Byte) : PagerFreePageHeader := ⟨field 8 page 8⟩

def PagerOverflowPageHeader.toBytes (h : PagerOverflowPageHeader) (padding : List Byte) : List Byte :=
  PagerPageType.overflowPage.toBytes ++ (uint64 h.nextOverflowPage ++ (uint32 h.numBytes ++ padding))

def PagerOverflowPageHeader.fromBytes (page : List Byte) : PagerOverflowPageHeader :=
  ⟨field 8 page 8, field 4 page 16⟩

def PagerNodePageHeader.toBytes (h : PagerNodePageHeader) : List Byte :=
  PagerPageType.nodePage.toBytes ++ (uint64 h.numCells ++ (uint64 h.totalBytesFree ++
    uint64 h.rightChild))

def PagerNodePageHeader.fromBytes (page : List Byte) : PagerNodePageHeader :=
  ⟨field 8 page 8, field 8 page 16, field 8 page 24⟩

def PagerLeafPageHeader.toBytes (h : PagerLeafPageHeader) : List Byte :=
  PagerPageType.leafPage.toBytes ++ (uint64 h.numCells ++ (uint64 h.totalBytesFree ++
    (uint64 h.nextPage ++ uint64 h.prevPage)))

def PagerLeafPageHeader.fromBytes (page : List Byte) : PagerLeafPageHeader :=
  ⟨field 8 page 8, field 8 page 16, field 8 page 24, field 8 page 32⟩

/-! ### Cells -/

/-- The page number is aligned to eight bytes, the key before it is padded. -/
def NodeCell.toBytes (c : NodeCell) (padding : List Byte) : List Byte :=
  uint32 c.key.val ++ (padding ++ uint64 c.leftChild)

/-- The cell at the offset. -/
def NodeCell.fromBytes (page : List Byte) (offset : Nat) : NodeCell :=
  ⟨Fin.ofNat _ (field 4 page offset), field 8 page (offset + 8)⟩

def LeafCell.toBytes (c : LeafCell) : List Byte :=
  uint32 c.payloadSize ++ (uint32 c.key.val ++ uint64 c.recordPage)

def LeafCell.fromBytes (page : List Byte) (offset : Nat) : LeafCell :=
  ⟨field 4 page offset, Fin.ofNat _ (field 4 page (offset + 4)), field 8 page (offset + 8)⟩

end Cpplite
