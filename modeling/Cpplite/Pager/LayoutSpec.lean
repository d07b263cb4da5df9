import Cpplite.Pager.Spelling

/-!
Each struct read back from its own bytes, and what a write of the managers makes the bytes
of a page spell.
-/
namespace Cpplite

open Exec ByteFile LittleEndian Bytes

section Structs

variable {bytes bytes' rest padding : List Byte}

theorem uint32_lt {n : Nat} (h : n < 2 ^ 32) : n % 256 ^ 4 = n := Nat.mod_eq_of_lt (by omega)

theorem uint64_lt {n : Nat} (h : n < 2 ^ 64) : n % 256 ^ 8 = n := Nat.mod_eq_of_lt (by omega)

theorem key_of_field (k : DefaultPagerKey) : Fin.ofNat (2 ^ 32) (k.val % 256 ^ 4) = k := by
  rw [uint32_lt k.isLt]
  exact Fin.ofNat_val_eq_self k

theorem tagged_toBytes (type : PagerPageType) (rest : List Byte) :
    Tagged (type.toBytes ++ rest) type := by
  constructor
  · rw [checksumOf, PagerPageType.toBytes, List.append_assoc, field_here]
    rfl
  · rw [pageTypeOf, PagerPageType.toBytes, List.append_assoc, field_skip (by simp), length_toBytes,
      Nat.sub_self, field_here]
    cases type <;> rfl

/-- The eight bytes of the base header are skipped. -/
theorem field_base {w offset : Nat} (type : PagerPageType) (h : 8 ≤ offset) :
    field w (type.toBytes ++ rest) offset = field w rest (offset - 8) :=
  field_skip (by simpa [PagerPageType.toBytes] using h)

theorem field_uint64 {w offset n : Nat} (h : 8 ≤ offset) :
    field w (uint64 n ++ rest) offset = field w rest (offset - 8) := by
  rw [field_skip (by simpa using h), length_toBytes]

theorem field_uint32 {w offset n : Nat} (h : 4 ≤ offset) :
    field w (uint32 n ++ rest) offset = field w rest (offset - 4) := by
  rw [field_skip (by simpa using h), length_toBytes]

theorem PagerFirstPageHeader.fromBytes_toBytes {h : PagerFirstPageHeader}
    (hn : h.numPages < 2 ^ 64) (hf : h.freePageHead < 2 ^ 64) :
    fromBytes (h.toBytes padding ++ rest) = h := by
  simp only [fromBytes, toBytes, List.append_assoc, field_base, field_uint64, field_here,
    Nat.reduceLeDiff, Nat.reduceSub, uint64_lt hn, uint64_lt hf, key_of_field]

theorem PagerFreePageHeader.fromBytes_toBytes {h : PagerFreePageHeader}
    (hn : h.nextFreePage < 2 ^ 64) : fromBytes (h.toBytes ++ rest) = h := by
  simp only [fromBytes, toBytes, List.append_assoc, field_base, field_here,
    Nat.reduceLeDiff, Nat.reduceSub, uint64_lt hn]

theorem PagerOverflowPageHeader.fromBytes_toBytes {h : PagerOverflowPageHeader}
    (hn : h.nextOverflowPage < 2 ^ 64) (hb : h.numBytes < 2 ^ 32) :
    fromBytes (h.toBytes padding ++ rest) = h := by
  simp only [fromBytes, toBytes, List.append_assoc, field_base, field_uint64, field_here,
    Nat.reduceLeDiff, Nat.reduceSub, uint64_lt hn, uint32_lt hb]

theorem PagerNodePageHeader.fromBytes_toBytes {h : PagerNodePageHeader} (hn : h.numCells < 2 ^ 64)
    (hf : h.totalBytesFree < 2 ^ 64) (hr : h.rightChild < 2 ^ 64) :
    fromBytes (h.toBytes ++ rest) = h := by
  simp only [fromBytes, toBytes, List.append_assoc, field_base, field_uint64, field_here,
    Nat.reduceLeDiff, Nat.reduceSub, uint64_lt hn, uint64_lt hf, uint64_lt hr]

theorem PagerLeafPageHeader.fromBytes_toBytes {h : PagerLeafPageHeader} (hn : h.numCells < 2 ^ 64)
    (hf : h.totalBytesFree < 2 ^ 64) (hx : h.nextPage < 2 ^ 64) (hp : h.prevPage < 2 ^ 64) :
    fromBytes (h.toBytes ++ rest) = h := by
  simp only [fromBytes, toBytes, List.append_assoc, field_base, field_uint64, field_here,
    Nat.reduceLeDiff, Nat.reduceSub, uint64_lt hn, uint64_lt hf, uint64_lt hx, uint64_lt hp]

theorem NodeCell.fromBytes_toBytes {c : NodeCell} (hp : padding.length = 4)
    (hc : c.leftChild < 2 ^ 64) : fromBytes (c.toBytes padding) 0 = c := by
  have hchild : field 8 (c.toBytes padding) 8 = c.leftChild := by
    rw [toBytes, ← List.append_assoc, ← List.append_nil (uint64 c.leftChild)]
    exact field_at (by simp [hp]) hc
  simp only [fromBytes, Nat.zero_add, hchild]
  simp only [toBytes, field_here, key_of_field]

theorem LeafCell.fromBytes_toBytes {c : LeafCell} (hs : c.payloadSize < 2 ^ 32)
    (hr : c.recordPage < 2 ^ 64) : fromBytes c.toBytes 0 = c := by
  have hpage : field 8 c.toBytes 8 = c.recordPage := by
    rw [toBytes, ← List.append_assoc, ← List.append_nil (uint64 c.recordPage)]
    exact field_at (by simp) hr
  simp only [fromBytes, Nat.zero_add, hpage]
  simp only [toBytes, field_uint32, field_here, Nat.reduceLeDiff, Nat.reduceSub, uint32_lt hs,
    key_of_field]

/-! A header depends on the bytes it covers alone. -/

theorem Tagged.prefix {type : PagerPageType} (h : Tagged bytes type)
    (hb : pread bytes' 8 0 = pread bytes 8 0) : Tagged bytes' type := by
  constructor
  · rw [checksumOf, field_prefix hb (by decide)]
    exact h.checksum_eq
  · rw [pageTypeOf, field_prefix hb (by decide)]
    exact h.pageType_eq

theorem within_nodeCell : Within NodeCell.fromBytes sizeofNodeCell := by
  intro bytes offset
  simp only [NodeCell.fromBytes]
  rw [field_pread (by decide), field_pread (by decide)]
  rfl

theorem within_leafCell : Within LeafCell.fromBytes sizeofLeafCell := by
  intro bytes offset
  simp only [LeafCell.fromBytes]
  rw [field_pread (by decide), field_pread (by decide), field_pread (by decide)]
  rfl

end Structs

/-! ### Cells -/

section Cells

variable {α : Type} [Inhabited α] {cellAt : List Byte → Nat → α} {size place i j maxCells : Nat}
  {area cells : List α} {records : List (List Byte)} {page : List Byte}

theorem getElem?_takeD (h : j < i) : (area.takeD i default)[j]? = some (area[j]?.getD default) := by
  induction area generalizing i j with
  | nil =>
    rw [List.takeD_nil, List.getElem?_replicate, if_pos h]
    rfl
  | cons a area ih =>
    obtain ⟨i, rfl⟩ := Nat.exists_eq_succ_of_ne_zero (Nat.ne_zero_of_lt h)
    cases j with
    | zero => rfl
    | succ j => exact ih (Nat.lt_of_succ_lt_succ h)

theorem getD_overwrite : (overwrite area i cells)[j]?.getD default =
    if i ≤ j ∧ j < i + cells.length then cells[j - i]?.getD default else area[j]?.getD default := by
  rw [overwrite, List.append_assoc]
  by_cases hlt : j < i
  · rw [if_neg (by omega), List.getElem?_append_left (by simpa using hlt), getElem?_takeD hlt,
      Option.getD_some]
  · rw [List.getElem?_append_right (by simp; omega), List.takeD_length]
    split_ifs with hin
    · rw [List.getElem?_append_left (by omega)]
    · rw [List.getElem?_append_right (by omega), List.getElem?_drop]
      congr 2
      omega

/-- Cells written over an area of cells. -/
theorem cells_pwrite (hw : Within cellAt size)
    (hlen : ∀ record ∈ records, record.length = size)
    (hcells : List.Forall₂ (fun c record => cellAt record 0 = c) cells records)
    (hpage : place + maxCells * size ≤ page.length)
    (h : ∀ j < maxCells, cellAt page (place + j * size) = area[j]?.getD default) :
    ∀ j < maxCells, cellAt (pwrite page records.flatten (place + i * size)) (place + j * size) =
      (overwrite area i cells)[j]?.getD default := by
  intro j hj
  have hcount : cells.length = records.length := hcells.length_eq
  have hbytes : records.flatten.length = records.length * size := length_flatten_pages hlen
  have hjend : (j + 1) * size ≤ maxCells * size := Nat.mul_le_mul_right size hj
  rw [Nat.succ_mul] at hjend
  rw [getD_overwrite]
  split_ifs with hin
  · obtain ⟨k, rfl⟩ := Nat.exists_eq_add_of_le hin.1
    have hk : k < records.length := by omega
    have hkend : (k + 1) * size ≤ records.length * size := Nat.mul_le_mul_right size hk
    rw [Nat.succ_mul] at hkend
    rw [Nat.add_mul, ← Nat.add_assoc, hw.pwrite (by omega),
      hw.flatten hlen (List.getElem?_eq_getElem hk), Nat.add_sub_cancel_left,
      List.getElem?_eq_getElem (by omega), Option.getD_some]
    exact hcells.get (by omega) hk
  · rw [hw.pwrite_of_disjoint _ (by omega), h j hj]
    rw [hbytes]
    rcases Nat.lt_or_ge j i with hlt | hge
    · left
      have := Nat.mul_le_mul_right size hlt
      rw [Nat.succ_mul] at this
      omega
    · right
      have := Nat.mul_le_mul_right size (show i + records.length ≤ j by omega)
      rw [Nat.add_mul] at this
      omega

end Cells

/-! ### Pages -/

section Pages

variable {page content padding : List Byte} {records : List (List Byte)} {i p : Nat} {type : PagerPageType}

theorem PagerNodePageHeader.length_toBytes (h : PagerNodePageHeader) :
    h.toBytes.length = sizeofNodePageHeader := by
  simp [toBytes, PagerPageType.toBytes, sizeofNodePageHeader]

theorem PagerLeafPageHeader.length_toBytes (h : PagerLeafPageHeader) :
    h.toBytes.length = sizeofLeafPageHeader := by
  simp [toBytes, PagerPageType.toBytes, sizeofLeafPageHeader]

theorem PagerFreePageHeader.length_toBytes (h : PagerFreePageHeader) :
    h.toBytes.length = sizeofFreePageHeader := by
  simp [toBytes, PagerPageType.toBytes, sizeofFreePageHeader]

theorem PagerOverflowPageHeader.length_toBytes (h : PagerOverflowPageHeader)
    (hp : padding.length = 4) : (h.toBytes padding).length = sizeofOverflowPageHeader := by
  simp [toBytes, PagerPageType.toBytes, sizeofOverflowPageHeader, hp]

/-- A header written over the front of a page. -/
theorem pwrite_header (header : List Byte) (hlen : page.length = pageSize)
    (hh : header.length ≤ pageSize) : ∃ rest, pwrite page header 0 = header ++ rest :=
  ⟨page.drop header.length, pwrite_front (by rw [hlen]; exact hh)⟩

/-- The base header is not touched by a write behind it. -/
theorem Tagged.pwrite {data : List Byte} (h : Tagged page type) (hlen : page.length = pageSize)
    (hp : 8 ≤ p) : Tagged (pwrite page data p) type :=
  h.prefix (pread_pwrite_of_disjoint (.inl (by omega)) (by rw [hlen]; decide))

section First

variable {h : PagerFirstPageHeader} {n : Nat} {oid : DefaultPagerKey}

theorem first_fields (hlen : page.length = pageSize) :
    (∀ data k w, data.length ≤ 8 → k + w ≤ 28 → (k + w ≤ p ∨ p + data.length ≤ k) →
      field w (pwrite page data p) k = field w page k) := by
  intro data k w hdata hk hd
  have hsize : pageSize = 4096 := rfl
  exact field_pwrite_of_disjoint hd (by omega)

theorem spelledBy_numPages (hlen : page.length = pageSize) (hs : (Page.first h).SpelledBy page)
    (hn : n ≤ pageLimit) :
    (Page.first { h with numPages := n }).SpelledBy (pwrite page (uint64 n) 8) := by
  obtain ⟨htag, rfl, -, hf⟩ := hs
  refine ⟨htag.pwrite hlen le_rfl, ?_, hn, hf⟩
  have hlt : n < 2 ^ 64 := hn.trans_lt (by decide)
  rw [PagerFirstPageHeader.fromBytes, field_pwrite_toBytes, uint64_lt hlt,
    first_fields hlen _ 16 8 (by simp) (by decide) (.inr (by simp)),
    first_fields hlen _ 24 4 (by simp) (by decide) (.inr (by simp))]
  rfl

theorem spelledBy_freePageHead (hlen : page.length = pageSize) (hs : (Page.first h).SpelledBy page)
    (hn : n ≤ pageLimit) :
    (Page.first { h with freePageHead := n }).SpelledBy (pwrite page (uint64 n) 16) := by
  obtain ⟨htag, rfl, hf, -⟩ := hs
  refine ⟨htag.pwrite hlen (by decide), ?_, hf, hn⟩
  have hlt : n < 2 ^ 64 := hn.trans_lt (by decide)
  rw [PagerFirstPageHeader.fromBytes, field_pwrite_toBytes, uint64_lt hlt,
    first_fields hlen _ 8 8 (by simp) (by decide) (.inl (by decide)),
    first_fields hlen _ 24 4 (by simp) (by decide) (.inr (by simp))]
  rfl

theorem spelledBy_nextOid (hlen : page.length = pageSize) (hs : (Page.first h).SpelledBy page) :
    (Page.first { h with nextOid := oid }).SpelledBy (pwrite page (uint32 oid.val) 24) := by
  obtain ⟨htag, rfl, hn, hf⟩ := hs
  refine ⟨htag.pwrite hlen (by decide), ?_, hn, hf⟩
  rw [PagerFirstPageHeader.fromBytes, field_pwrite_toBytes, key_of_field,
    first_fields hlen _ 8 8 (by simp) (by decide) (.inl (by decide)),
    first_fields hlen _ 16 8 (by simp) (by decide) (.inl (by decide))]
  rfl

end First

section Node

variable {h h' : PagerNodePageHeader} {area cells : List NodeCell}

theorem node_slot {j : Nat} (hj : j < nodeMaxCells) :
    sizeofNodePageHeader + j * sizeofNodeCell + sizeofNodeCell ≤ pageSize := by
  have hmax : nodeMaxCells = 254 := rfl
  simp only [sizeofNodePageHeader, sizeofNodeCell, pageSize]
  omega

theorem spelledBy_node_header (hlen : page.length = pageSize)
    (hs : (Page.node h area).SpelledBy page)
    (hacc : sizeofNodePageHeader + h'.numCells * sizeofNodeCell + h'.totalBytesFree = pageSize)
    (hr : h'.rightChild < 2 ^ 64) : (Page.node h' area).SpelledBy (pwrite page h'.toBytes 0) := by
  obtain ⟨-, -, -, hcells⟩ := hs
  have hnum : h'.numCells < 2 ^ 64 ∧ h'.totalBytesFree < 2 ^ 64 := by
    simp only [sizeofNodePageHeader, sizeofNodeCell, pageSize] at hacc
    omega
  obtain ⟨rest, hrest⟩ := pwrite_header h'.toBytes hlen (by rw [h'.length_toBytes]; decide)
  refine ⟨?_, ?_, hacc, ?_⟩
  · rw [hrest, PagerNodePageHeader.toBytes, List.append_assoc]
    exact tagged_toBytes _ _
  · rw [hrest]
    exact PagerNodePageHeader.fromBytes_toBytes hnum.1 hnum.2 hr
  · intro j hj
    rw [within_nodeCell.pwrite_of_disjoint (.inr _) _, hcells j hj]
    · rw [h'.length_toBytes]
      omega
    · rw [hlen]
      exact node_slot hj

theorem spelledBy_node_cells (hlen : page.length = pageSize)
    (hs : (Page.node h area).SpelledBy page)
    (hrecords : ∀ record ∈ records, record.length = sizeofNodeCell)
    (hcells : List.Forall₂ (fun c record => NodeCell.fromBytes record 0 = c) cells records) :
    (Page.node h (overwrite area i cells)).SpelledBy
      (pwrite page records.flatten (sizeofNodePageHeader + i * sizeofNodeCell)) := by
  obtain ⟨htag, hhead, hacc, harea⟩ := hs
  have hplace : 32 ≤ sizeofNodePageHeader + i * sizeofNodeCell := Nat.le_add_right _ _
  refine ⟨htag.pwrite hlen (by omega), ?_, hacc, ?_⟩
  · have hk : ∀ k, k + 8 ≤ 32 → field 8
        (pwrite page records.flatten (sizeofNodePageHeader + i * sizeofNodeCell)) k =
          field 8 page k := by
      intro k hk
      have hsize : pageSize = 4096 := rfl
      exact field_pwrite_of_disjoint (.inl (by omega)) (by omega)
    rw [← hhead, PagerNodePageHeader.fromBytes, hk 8 (by decide), hk 16 (by decide),
      hk 24 (by decide), PagerNodePageHeader.fromBytes]
  · exact cells_pwrite within_nodeCell hrecords hcells (by rw [hlen]; decide) harea

end Node

section Leaf

variable {h h' : PagerLeafPageHeader} {area cells : List LeafCell}

theorem leaf_slot {j : Nat} (hj : j < leafMaxCells) :
    sizeofLeafPageHeader + j * sizeofLeafCell + sizeofLeafCell ≤ pageSize := by
  have hmax : leafMaxCells = 253 := rfl
  simp only [sizeofLeafPageHeader, sizeofLeafCell, pageSize]
  omega

/-- Any forty bytes that spell a leaf's header, the manager's own or one patched. -/
theorem spelledBy_leaf_header {header : List Byte} (hlen : page.length = pageSize)
    (hs : (Page.leaf h area).SpelledBy page) (hheader : header.length = sizeofLeafPageHeader)
    (htag : Tagged header .leafPage) (hfrom : PagerLeafPageHeader.fromBytes header = h')
    (hacc : sizeofLeafPageHeader + h'.numCells * sizeofLeafCell + h'.totalBytesFree = pageSize) :
    (Page.leaf h' area).SpelledBy (pwrite page header 0) := by
  obtain ⟨-, -, -, hcells⟩ := hs
  have hsize : sizeofLeafPageHeader = 40 := rfl
  have hk : ∀ w k, k + w ≤ 40 → field w (pwrite page header 0) k = field w header k :=
    fun w k hk => field_pwrite_zero (by omega)
  refine ⟨⟨?_, ?_⟩, ?_, hacc, ?_⟩
  · rw [checksumOf, hk 4 0 (by decide)]
    exact htag.checksum_eq
  · rw [pageTypeOf, hk 4 4 (by decide)]
    exact htag.pageType_eq
  · rw [← hfrom, PagerLeafPageHeader.fromBytes, hk 8 8 (by decide), hk 8 16 (by decide),
      hk 8 24 (by decide), hk 8 32 (by decide), PagerLeafPageHeader.fromBytes]
  · intro j hj
    rw [within_leafCell.pwrite_of_disjoint (.inr _) _, hcells j hj]
    · rw [hheader]
      omega
    · rw [hlen]
      exact leaf_slot hj

theorem spelledBy_leaf_cells (hlen : page.length = pageSize)
    (hs : (Page.leaf h area).SpelledBy page)
    (hrecords : ∀ record ∈ records, record.length = sizeofLeafCell)
    (hcells : List.Forall₂ (fun c record => LeafCell.fromBytes record 0 = c) cells records) :
    (Page.leaf h (overwrite area 0 cells)).SpelledBy
      (pwrite page records.flatten sizeofLeafPageHeader) := by
  obtain ⟨htag, hhead, hacc, harea⟩ := hs
  have hhdr : sizeofLeafPageHeader = 40 := rfl
  refine ⟨htag.pwrite hlen (by omega), ?_, hacc, ?_⟩
  · have hk : ∀ k, k + 8 ≤ 40 → field 8 (pwrite page records.flatten sizeofLeafPageHeader) k =
        field 8 page k := by
      intro k hk
      have hsize : pageSize = 4096 := rfl
      exact field_pwrite_of_disjoint (.inl (by omega)) (by omega)
    rw [← hhead, PagerLeafPageHeader.fromBytes, hk 8 (by decide), hk 16 (by decide),
      hk 24 (by decide), hk 32 (by decide), PagerLeafPageHeader.fromBytes]
  · have hall := cells_pwrite (i := 0) within_leafCell hrecords hcells
      (show sizeofLeafPageHeader + leafMaxCells * sizeofLeafCell ≤ page.length by rw [hlen]; decide)
      harea
    rwa [Nat.zero_mul, Nat.add_zero] at hall

/-- The header of a leaf with one link replaced. -/
theorem patched_header {n : Nat} (usePrevPage : Bool) (hlen : page.length = pageSize)
    (htag : Tagged page .leafPage) (hn : n < 2 ^ 64) :
    let header := pwrite (pread page sizeofLeafPageHeader 0) (uint64 n) (if usePrevPage then 32 else 24)
    header.length = sizeofLeafPageHeader ∧ Tagged header .leafPage ∧
      PagerLeafPageHeader.fromBytes header = if usePrevPage then
        { PagerLeafPageHeader.fromBytes page with prevPage := n }
      else { PagerLeafPageHeader.fromBytes page with nextPage := n } := by
  have hold : (pread page sizeofLeafPageHeader 0).length = 40 :=
    length_pread (by rw [hlen]; decide)
  have hplace : (if usePrevPage then 32 else 24 : Nat) = 32 ∨ (if usePrevPage then 32 else 24 : Nat) = 24 := by
    cases usePrevPage
    · exact .inr rfl
    · exact .inl rfl
  have hkeep : ∀ w k, k + w ≤ 40 → k + w ≤ (if usePrevPage then 32 else 24) ∨
      (if usePrevPage then 32 else 24) + 8 ≤ k →
      field w (pwrite (pread page sizeofLeafPageHeader 0) (uint64 n)
        (if usePrevPage then 32 else 24)) k = field w page k := by
    intro w k hk hd
    rw [field_pwrite_of_disjoint (by simpa using hd) (by omega),
      field_pread (show k + w ≤ sizeofLeafPageHeader from hk), Nat.zero_add]
  refine ⟨?_, ⟨?_, ?_⟩, ?_⟩
  · rw [length_pwrite_inside, hold]
    · rfl
    · rw [hold, length_toBytes]
      omega
  · rw [checksumOf, hkeep 4 0 (by decide) (by omega)]
    exact htag.checksum_eq
  · rw [pageTypeOf, hkeep 4 4 (by decide) (by omega)]
    exact htag.pageType_eq
  · rw [PagerLeafPageHeader.fromBytes, hkeep 8 8 (by decide) (by omega),
      hkeep 8 16 (by decide) (by omega)]
    cases usePrevPage with
    | false =>
      rw [hkeep 8 32 (by decide) (.inr (by decide))]
      simp only [Bool.false_eq_true, if_false, field_pwrite_toBytes, uint64_lt hn]
      rfl
    | true =>
      rw [hkeep 8 24 (by decide) (.inl (by decide))]
      simp only [if_true, field_pwrite_toBytes, uint64_lt hn]
      rfl

end Leaf

/-! Pages written whole. -/

theorem length_padTo_page (h : content.length ≤ pageSize) : (padTo content pageSize).length = pageSize := by
  rw [length_padTo]
  exact max_eq_right h

theorem spelledBy_free {h : PagerFreePageHeader} (hn : h.nextFreePage ≤ pageLimit) :
    (Page.free h).SpelledBy (padTo h.toBytes pageSize) := by
  refine ⟨?_, ?_, hn⟩
  · rw [padTo, PagerFreePageHeader.toBytes, List.append_assoc]
    exact tagged_toBytes _ _
  · rw [padTo]
    exact PagerFreePageHeader.fromBytes_toBytes (hn.trans_lt (by decide))

theorem spelledBy_overflow {n : Nat} (hp : padding.length = 4) (hn : n ≤ pageLimit)
    (hc : content.length ≤ chunkSize) :
    (Page.overflow ⟨n, content.length⟩ content).SpelledBy (padTo
      ((PagerOverflowPageHeader.mk n content.length).toBytes padding ++ content) pageSize) := by
  have hchunk : chunkSize = 4072 := rfl
  have hh := (PagerOverflowPageHeader.mk n content.length).length_toBytes hp
  refine ⟨?_, ?_, hn, hc, hc, ?_⟩
  · rw [padTo, PagerOverflowPageHeader.toBytes, List.append_assoc, List.append_assoc]
    exact tagged_toBytes _ _
  · rw [padTo, List.append_assoc]
    exact PagerOverflowPageHeader.fromBytes_toBytes (hn.trans_lt (by decide))
      (show content.length < 2 ^ 32 by omega)
  · rw [padTo, List.append_assoc, List.drop_left' hh, List.length_append, hh, padTo, chunkSize,
      Nat.sub_sub]

theorem nodeCell_zeros {n k : Nat} (hk : content.length ≤ k) :
    NodeCell.fromBytes (content ++ List.replicate n 0) k = default := by
  rw [NodeCell.fromBytes, field_skip hk, field_skip (by omega), field_zeros, field_zeros]
  rfl

theorem leafCell_zeros {n k : Nat} (hk : content.length ≤ k) :
    LeafCell.fromBytes (content ++ List.replicate n 0) k = default := by
  rw [LeafCell.fromBytes, field_skip hk, field_skip (by omega), field_skip (by omega), field_zeros,
    field_zeros, field_zeros]
  rfl

theorem spelledBy_newNode :
    (Page.node ⟨0, pageSize - sizeofNodePageHeader, nullPage⟩ []).SpelledBy
      (padTo (PagerNodePageHeader.mk 0 (pageSize - sizeofNodePageHeader) nullPage).toBytes
        pageSize) := by
  rw [padTo]
  refine ⟨?_, PagerNodePageHeader.fromBytes_toBytes (by decide) (by decide) (by decide), rfl, ?_⟩
  · rw [PagerNodePageHeader.toBytes, List.append_assoc]
    exact tagged_toBytes _ _
  · intro i _
    rw [nodeCell_zeros (by rw [PagerNodePageHeader.length_toBytes]; exact Nat.le_add_right _ _)]
    rfl

theorem spelledBy_newLeaf :
    (Page.leaf ⟨0, pageSize - sizeofLeafPageHeader, nullPage, nullPage⟩ []).SpelledBy
      (padTo (PagerLeafPageHeader.mk 0 (pageSize - sizeofLeafPageHeader) nullPage
        nullPage).toBytes pageSize) := by
  rw [padTo]
  refine ⟨?_, PagerLeafPageHeader.fromBytes_toBytes (by decide) (by decide) (by decide) (by decide),
    rfl, ?_⟩
  · rw [PagerLeafPageHeader.toBytes, List.append_assoc]
    exact tagged_toBytes _ _
  · intro i _
    rw [leafCell_zeros (by rw [PagerLeafPageHeader.length_toBytes]; exact Nat.le_add_right _ _)]
    rfl

end Pages

end Cpplite
