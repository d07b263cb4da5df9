import Cpplite.Lib.Transfer
import Cpplite.Pager.Bytes
import Cpplite.Pager.Disk

/-!
What the bytes of the database file spell: a page of bytes stands for a page, and the file
for the pages one after the other. A read of the bytes finds what a read of the pages
finds, and the writes of the managers keep the two together.
-/
namespace Cpplite

open Exec ByteFile LittleEndian Bytes

/-- The pages that a signed 64-bit offset reaches. -/
def pageLimit : Nat := 2 ^ 51

/-- The bytes carry the checksum and the tag of the type. -/
structure Tagged (bytes : List Byte) (type : PagerPageType) : Prop where
  checksum_eq : checksumOf bytes = checksum
  pageType_eq : pageTypeOf bytes = type.tag

/-- The 4096 bytes spell the page. The byte count in a header is the right one, and a link that
`pop_freelist` may follow unchecked stays where a seek can go. -/
def Page.SpelledBy (bytes : List Byte) : Page → Prop
  | .blank => bytes = List.replicate pageSize 0
  | .first h => Tagged bytes .firstPage ∧ PagerFirstPageHeader.fromBytes bytes = h ∧
      h.numPages ≤ pageLimit ∧ h.freePageHead ≤ pageLimit
  | .free h => Tagged bytes .freePage ∧ PagerFreePageHeader.fromBytes bytes = h ∧
      h.nextFreePage ≤ pageLimit
  | .overflow h content => Tagged bytes .overflowPage ∧ PagerOverflowPageHeader.fromBytes bytes = h ∧
      h.nextOverflowPage ≤ pageLimit ∧ content.length ≤ chunkSize ∧ h.numBytes ≤ chunkSize ∧
      bytes.drop sizeofOverflowPageHeader = padTo content chunkSize
  | .node h area => Tagged bytes .nodePage ∧ PagerNodePageHeader.fromBytes bytes = h ∧
      sizeofNodePageHeader + h.numCells * sizeofNodeCell + h.totalBytesFree = pageSize ∧
      ∀ i < nodeMaxCells, NodeCell.fromBytes bytes (sizeofNodePageHeader + i * sizeofNodeCell) =
        area[i]?.getD default
  | .leaf h area => Tagged bytes .leafPage ∧ PagerLeafPageHeader.fromBytes bytes = h ∧
      sizeofLeafPageHeader + h.numCells * sizeofLeafCell + h.totalBytesFree = pageSize ∧
      ∀ i < leafMaxCells, LeafCell.fromBytes bytes (sizeofLeafPageHeader + i * sizeofLeafCell) =
        area[i]?.getD default

/-- The bytes spell the file, and there is room for `room` more pages. -/
structure Spelled (room : Nat) (s : Pager) (b : BytePager) : Prop where
  total_eq : b.totalNumPages = s.totalNumPages
  total_le : s.totalNumPages + room ≤ pageLimit
  size_le : s.file.numPages + room ≤ pageLimit
  beyond : ∀ p, s.file.numPages < p → s.file.page p = .blank
  pages : ∃ pages : List (List Byte), b.bytes = pages.flatten ∧
    (∀ page ∈ pages, page.length = pageSize) ∧ pages.length = s.file.numPages ∧
    ∀ k page, pages[k]? = some page → (s.file.page (k + 1)).SpelledBy page

section Offsets

variable {p place n : Nat} {b : BytePager} {msg : String}

theorem pageOffset_eq (h0 : p ≠ 0) (hp : p ≤ pageLimit) (hplace : place < pageSize) :
    pageOffset p place = (p - 1) * pageSize + place := by
  have hsize : pageSize = 4096 := rfl
  have hlimit : pageLimit = 2 ^ 51 := rfl
  rw [hsize] at hplace ⊢
  rw [hlimit] at hp
  rw [pageOffset, pred64, hsize]
  omega

theorem osSeek_ok (h : n < 2 ^ 63) : osSeek n msg b = .ok () b := by
  rw [osSeek, if_pos h]
  rfl

theorem seek_ok (h0 : p ≠ 0) (hp : p ≤ pageLimit) (hplace : place < pageSize) :
    osSeek (pageOffset p place) msg b = .ok () b := by
  refine osSeek_ok ?_
  rw [pageOffset_eq h0 hp hplace]
  have hsize : pageSize = 4096 := rfl
  have hlimit : pageLimit = 2 ^ 51 := rfl
  rw [hsize] at hplace ⊢
  rw [hlimit] at hp
  omega

theorem osRead_eq : osRead place n b =
    .ok (padTo (pread b.bytes n place) n, (pread b.bytes n place).length) b := rfl

theorem osWrite_eq {buffer : List Byte} : osWrite place buffer b =
    .ok () { b with bytes := pwrite b.bytes buffer place } := rfl

theorem readPage_bytes (h0 : p ≠ 0) (hp : p ≤ pageLimit) : Bytes.readPage p msg b =
    .ok (padTo (pread b.bytes pageSize ((p - 1) * pageSize)) pageSize,
      (pread b.bytes pageSize ((p - 1) * pageSize)).length) b := by
  rw [Bytes.readPage, bind_ok (seek_ok h0 hp (by decide)), pageOffset_eq h0 hp (by decide),
    osRead_eq, Nat.add_zero]

theorem writeAt_ok {buffer : List Byte} (h0 : p ≠ 0) (hp : p ≤ pageLimit)
    (hplace : place < pageSize) : writeAt p place buffer msg b =
      .ok () { b with bytes := pwrite b.bytes buffer ((p - 1) * pageSize + place) } := by
  rw [writeAt, bind_ok (seek_ok h0 hp hplace), pageOffset_eq h0 hp hplace, osWrite_eq]

end Offsets

namespace Spelled

variable {room n m p place : Nat} {s : Pager} {b : BytePager} {page data : List Byte} {g : Page}

theorem mono (h : Spelled n s b) (hm : m ≤ n) : Spelled m s b where
  total_eq := h.total_eq
  total_le := (Nat.add_le_add_left hm _).trans h.total_le
  size_le := (Nat.add_le_add_left hm _).trans h.size_le
  beyond := h.beyond
  pages := h.pages

theorem numPages_le (h : Spelled n s b) : s.file.numPages ≤ pageLimit :=
  (Nat.le_add_right _ _).trans h.size_le

/-- The bytes of a page of the file. -/
theorem page_bytes (h : Spelled n s b) (h0 : p ≠ 0) (hp : p ≤ s.file.numPages) :
    ∃ page, page.length = pageSize ∧ pread b.bytes pageSize ((p - 1) * pageSize) = page ∧
      (s.file.read p).SpelledBy page := by
  obtain ⟨pages, hb, hlen, hcount, hpages⟩ := h.pages
  have hk : p - 1 < pages.length := by omega
  have hget : pages[p - 1]? = some pages[p - 1] := List.getElem?_eq_getElem hk
  refine ⟨pages[p - 1], hlen _ (List.getElem_mem hk), ?_, ?_⟩
  · rw [hb, pread_flatten hlen hget]
  · have hspelled := hpages _ _ hget
    rw [Nat.sub_add_cancel (by omega)] at hspelled
    rwa [OsFile.read, if_pos hp]

/-- Behind the end there is nothing to read. -/
theorem no_bytes (h : Spelled n s b) (hp : s.file.numPages < p) (k place : Nat) :
    pread b.bytes k ((p - 1) * pageSize + place) = [] := by
  obtain ⟨pages, hb, hlen, hcount, -⟩ := h.pages
  have hmul : pages.length * pageSize ≤ (p - 1) * pageSize := Nat.mul_le_mul_right _ (by omega)
  rw [pread, List.drop_eq_nil_of_le, List.take_nil]
  rw [hb, length_flatten_pages hlen]
  omega

/-- What a whole page read finds in the buffer. -/
theorem read_page (h : Spelled n s b) (h0 : p ≠ 0) (msg : String) (hp : p ≤ pageLimit) :
    ∃ page bytesRead, Bytes.readPage p msg b = .ok (page, bytesRead) b ∧ page.length = pageSize ∧
      (s.file.read p).SpelledBy page ∧ (s.file.read p ≠ .blank → bytesRead = pageSize) := by
  by_cases hin : p ≤ s.file.numPages
  · obtain ⟨page, hlen, hread, hspelled⟩ := h.page_bytes h0 hin
    refine ⟨page, page.length, ?_, hlen, hspelled, fun _ => hlen⟩
    rw [readPage_bytes h0 hp, hread, padTo_of_le hlen.ge]
  · have hno := h.no_bytes (Nat.lt_of_not_le hin) pageSize 0
    rw [Nat.add_zero] at hno
    have hblank : s.file.read p = .blank := by rw [OsFile.read, if_neg hin]
    refine ⟨List.replicate pageSize 0, 0, ?_, List.length_replicate, ?_, fun hne => absurd hblank hne⟩
    · rw [readPage_bytes h0 hp, hno, padTo_nil, List.length_nil]
    · rw [hblank]
      exact rfl

theorem le_of_ne_blank (hne : s.file.read p ≠ .blank) : p ≤ s.file.numPages := by
  by_contra hp
  exact hne (if_neg hp)

/-- A write within a page of the file changes what that page spells. -/
theorem write_within (h : Spelled n s b) (h0 : p ≠ 0) (hp : p ≤ s.file.numPages)
    (hdata : place + data.length ≤ pageSize)
    (hg : ∀ page, page.length = pageSize → (s.file.read p).SpelledBy page →
      g.SpelledBy (pwrite page data place)) :
    Spelled n (s.write p g) { b with bytes := pwrite b.bytes data ((p - 1) * pageSize + place) } := by
  obtain ⟨pages, hb, hlen, hcount, hpages⟩ := h.pages
  have hmax : max s.file.numPages p = s.file.numPages := max_eq_left hp
  have hk : p - 1 < pages.length := by omega
  have hget : pages[p - 1]? = some pages[p - 1] := List.getElem?_eq_getElem hk
  have hsize : pages[p - 1].length = pageSize := hlen _ (List.getElem_mem hk)
  have hp1 : p - 1 + 1 = p := by omega
  refine ⟨h.total_eq, h.total_le, ?_, ?_, ?_⟩
  · simpa only [Pager.write, OsFile.write, hmax] using h.size_le
  · intro q hq
    simp only [Pager.write, OsFile.write, hmax] at hq ⊢
    rw [Function.update_of_ne (by omega)]
    exact h.beyond q hq
  · refine ⟨pages.set (p - 1) (pwrite pages[p - 1] data place), ?_, ?_, ?_, ?_⟩
    · rw [hb, pwrite_flatten hlen hget hdata]
    · intro page hmem
      rcases List.mem_or_eq_of_mem_set hmem with hmem | rfl
      · exact hlen page hmem
      · rw [length_pwrite_inside (by omega), hsize]
    · simpa only [List.length_set, Pager.write, OsFile.write, hmax] using hcount
    · intro k page hkp
      simp only [Pager.write, OsFile.write]
      rw [List.getElem?_set] at hkp
      by_cases hkk : p - 1 = k
      · subst hkk
        rw [if_pos rfl, if_pos hk] at hkp
        cases hkp
        have hspelled := hpages _ _ hget
        rw [hp1] at hspelled ⊢
        rw [Function.update_self]
        exact hg _ hsize (by rwa [OsFile.read, if_pos hp])
      · rw [if_neg hkk] at hkp
        rw [Function.update_of_ne (by omega)]
        exact hpages k page hkp

/-- A whole page written in the file or behind it, with pages of zeros between. -/
theorem write_page (h : Spelled n s b) (h0 : p ≠ 0) (hp : p + n ≤ pageLimit)
    (hdata : data.length = pageSize) (hg : g.SpelledBy data) :
    Spelled n (s.write p g) { b with bytes := pwrite b.bytes data ((p - 1) * pageSize + 0) } := by
  by_cases hin : p ≤ s.file.numPages
  · refine h.write_within h0 hin (by omega) ?_
    intro page hlen _
    rwa [pwrite_whole (by omega)]
  · obtain ⟨pages, hb, hlen, hcount, hpages⟩ := h.pages
    have hmax : max s.file.numPages p = p := max_eq_right (Nat.le_of_not_le hin)
    have hne : data ≠ [] := by
      rintro rfl
      cases hdata
    have hp1 : p - 1 + 1 = p := by omega
    refine ⟨h.total_eq, h.total_le, ?_, ?_, ?_⟩
    · simpa only [Pager.write, OsFile.write, hmax] using hp
    · intro q hq
      simp only [Pager.write, OsFile.write, hmax] at hq ⊢
      rw [Function.update_of_ne (by omega)]
      exact h.beyond q (by omega)
    · refine ⟨pages ++ List.replicate (p - 1 - pages.length) (List.replicate pageSize 0) ++ [data],
        ?_, ?_, ?_, ?_⟩
      · rw [hb, Nat.add_zero, pwrite_flatten_beyond hlen (by omega) hne]
      · intro page hmem
        simp only [List.mem_append, List.mem_replicate, List.mem_singleton] at hmem
        rcases hmem with (hmem | ⟨-, rfl⟩) | rfl
        · exact hlen page hmem
        · exact List.length_replicate
        · exact hdata
      · simp only [List.length_append, List.length_replicate, List.length_singleton, Pager.write,
          OsFile.write, hmax]
        omega
      · intro k page hk
        simp only [Pager.write, OsFile.write]
        by_cases hlast : k = p - 1
        · subst hlast
          rw [List.getElem?_append_right (by simp; omega)] at hk
          have hsub : p - 1 - (pages ++ List.replicate (p - 1 - pages.length)
              (List.replicate pageSize (0 : Byte))).length = 0 := by simp; omega
          rw [hsub] at hk
          cases hk
          rwa [hp1, Function.update_self]
        · have hlt : k < p - 1 := by
            have hbound := (List.getElem?_eq_some_iff.mp hk).1
            simp only [List.length_append, List.length_replicate, List.length_singleton] at hbound
            omega
          rw [Function.update_of_ne (by omega)]
          rw [List.getElem?_append_left (by simp; omega)] at hk
          by_cases hold : k < pages.length
          · rw [List.getElem?_append_left hold] at hk
            exact hpages k page hk
          · rw [List.getElem?_append_right (by omega), List.getElem?_replicate] at hk
            split_ifs at hk
            cases hk
            rw [h.beyond _ (by omega)]
            exact rfl

theorem length_bytes (h : Spelled n s b) : b.bytes.length = s.file.numPages * pageSize := by
  obtain ⟨pages, hb, hlen, hcount, -⟩ := h.pages
  rw [hb, length_flatten_pages hlen, hcount]

/-- One page more, counted. -/
theorem grow (h : Spelled (n + 1) s b) (hdata : data.length = pageSize) (hg : g.SpelledBy data) :
    Spelled n { s.write (s.file.numPages + 1) g with totalNumPages := s.totalNumPages + 1 }
      { b with bytes := pwrite b.bytes data b.bytes.length,
               totalNumPages := b.totalNumPages + 1 } := by
  have htotal := h.total_le
  have hsize := h.size_le
  have hw := (h.mono (Nat.le_succ n)).write_page (p := s.file.numPages + 1) (by omega)
    (by omega) hdata hg
  rw [Nat.add_zero, Nat.add_sub_cancel, ← h.length_bytes] at hw
  refine ⟨?_, ?_, hw.size_le, hw.beyond, hw.pages⟩
  · exact congrArg (· + 1) h.total_eq
  · change s.totalNumPages + 1 + n ≤ pageLimit
    omega

/-- Padding is not looked at. -/
theorem pad (h : Spelled n s b) (padding : Nat → Byte) : Spelled n s { b with padding := padding } :=
  ⟨h.total_eq, h.total_le, h.size_le, h.beyond, h.pages⟩

end Spelled

end Cpplite
