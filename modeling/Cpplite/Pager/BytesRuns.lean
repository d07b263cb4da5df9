import Cpplite.Pager.BytesSpec

/-!
Whole programs on the bytes of the database file. A program calls the pager and the page
managers one after the other and decides by what they returned; run on the bytes it
returns what it returns on the pages, as long as the file has room for the pages it asks
for.
-/
namespace Cpplite

open Exec Search ByteFile LittleEndian Bytes

/-! ### First page -/

section First

variable {n m : Nat} {fpm : FirstPageManager} {oid : DefaultPagerKey}

theorem follows_setNumPages (hf : fpm.Fits) (hm : m ≤ pageLimit) : Follows (Spelled n)
    (Same FirstPageManager.Fits) (fpm.setNumPages m) (Bytes.FirstPageManager.setNumPages fpm m) := by
  refine (follows_writeFirstField ?_ fun hd page hlen hs => spelledBy_numPages hlen hs hm).then ?_
  · rw [length_toBytes]
    decide
  · exact fun _ => follows_pure ⟨rfl, hm, hf.freePageHead_le⟩

theorem follows_setFreePageHead (hf : fpm.Fits) (hm : m ≤ pageLimit) : Follows (Spelled n)
    (Same FirstPageManager.Fits) (fpm.setFreePageHead m)
    (Bytes.FirstPageManager.setFreePageHead fpm m) := by
  refine (follows_writeFirstField ?_ fun hd page hlen hs => spelledBy_freePageHead hlen hs hm).then ?_
  · rw [length_toBytes]
    decide
  · exact fun _ => follows_pure ⟨rfl, hf.numPages_le, hm⟩

theorem follows_setNextOid (hf : fpm.Fits) : Follows (Spelled n)
    (Same FirstPageManager.Fits) (fpm.setNextOid oid) (Bytes.FirstPageManager.setNextOid fpm oid) := by
  refine (follows_writeFirstField ?_ fun hd page hlen hs => spelledBy_nextOid hlen hs).then ?_
  · rw [length_toBytes]
    decide
  · exact fun _ => follows_pure ⟨rfl, hf.numPages_le, hf.freePageHead_le⟩

end First

/-! ### Node pages -/

/-- What a call that may answer false returns. -/
def Answers {M : Type} (Fits : M → Prop) (res : Bool × M) : Prop := Fits res.2

section Node

variable [Build] {n m : Nat} {npm : NodePageManager} {key key' : DefaultPagerKey}

omit [Build] in
theorem node_area {cells : List NodeCell} {free : Nat}
    (h : sizeofNodePageHeader + cells.length * sizeofNodeCell + free = pageSize) :
    sizeofNodePageHeader + (0 + cells.length) * sizeofNodeCell ≤ pageSize := by
  rw [Nat.zero_add]
  omega

theorem follows_insertNodeCell (hf : npm.Fits) : Follows (Spelled n)
    (Same (Answers NodePageManager.Fits)) (npm.insertNodeCell key)
    (Bytes.NodePageManager.insertNodeCell npm key) := by
  refine follows_assert.thenGood fun _ _ => ?_
  by_cases hfull : sizeofNodeCell > npm.totalBytesFree
  · simp only [hfull, if_true]
    exact follows_pure ⟨rfl, hf⟩
  · have hle := (findKey_le NodeCell.key key npm.cells).1
    rcases hfind : findKey NodeCell.key key npm.cells with ⟨found, lo⟩
    rw [hfind] at hle
    simp only [hfull, if_false] at hle ⊢
    cases found with
    | true => exact follows_throw
    | false =>
      have hlen : (npm.cells.insertIdx lo ⟨key, nullPage⟩).length = npm.cells.length + 1 :=
        List.length_insertIdx_of_le_length hle _
      have hcells : ∀ c ∈ npm.cells.insertIdx lo ⟨key, nullPage⟩, c.Fits := by
        intro c hc
        rcases (List.mem_insertIdx hle).mp hc with rfl | hc
        · exact Nat.two_pow_pos 64
        · exact hf.cells c hc
      have hbytes : sizeofNodePageHeader + (npm.cells.insertIdx lo ⟨key, nullPage⟩).length *
          sizeofNodeCell + (npm.totalBytesFree - sizeofNodeCell) = pageSize := by
        have := hf.bytes_eq
        rw [hlen, Nat.succ_mul]
        omega
      refine (follows_writeNodeCells _ hcells (node_area hbytes) (by decide)).then fun _ => ?_
      refine follows_assert.thenGood fun _ _ => ?_
      have hnew : NodePageManager.Fits { npm with
          cells := npm.cells.insertIdx lo ⟨key, nullPage⟩
          totalBytesFree := npm.totalBytesFree - sizeofNodeCell
          numCells := npm.numCells + 1 } :=
        ⟨by rw [hlen, hf.numCells_eq], hbytes, hcells, hf.rightChild_lt⟩
      exact (follows_writeNodeHeader hnew).then fun _ => follows_pure ⟨rfl, hnew⟩

omit [Build] in
/-- The slot of a key that was found. -/
theorem findNodeCellIdx_lt {i : Nat} (h : npm.findNodeCellIdx key = some i) : i < npm.cells.length := by
  have hlt := (findKey_le NodeCell.key key npm.cells).2
  rw [NodePageManager.findNodeCellIdx] at h
  rcases hfind : findKey NodeCell.key key npm.cells with ⟨found, lo⟩
  rw [hfind] at h hlt
  cases found with
  | false => cases h
  | true =>
    cases h
    exact hlt rfl

theorem follows_setCellLeftChild (hf : npm.Fits) (hm : m < 2 ^ 64) : Follows (Spelled n)
    (Same NodePageManager.Fits) (npm.setCellLeftChild key m)
    (Bytes.NodePageManager.setCellLeftChild npm key m) := by
  refine follows_assert.thenGood fun _ _ => ?_
  cases hfind : npm.findNodeCellIdx key with
  | none => exact follows_throw
  | some i =>
    have hi := findNodeCellIdx_lt hfind
    have hmul := Nat.mul_le_mul_right sizeofNodeCell (Nat.succ_le_of_lt hi)
    have hbytes := hf.bytes_eq
    have hcell : 0 < sizeofNodeCell := by decide
    rw [Nat.succ_mul] at hmul
    refine follows_assert.thenGood fun _ _ => ?_
    refine (follows_writeNodeCells { npm with cells := npm.cells.set i ⟨key, m⟩ } ?_ ?_ ?_).then fun _ => ?_
    · intro c hc
      cases List.mem_singleton.mp hc
      exact hm
    · rw [List.length_singleton, Nat.succ_mul]
      omega
    · omega
    · refine follows_pure ⟨rfl, ?_, ?_, ?_, hf.rightChild_lt⟩
      · rw [List.length_set, hf.numCells_eq]
      · rw [List.length_set, hbytes]
      · intro c hc
        rcases List.mem_or_eq_of_mem_set hc with hc | rfl
        · exact hf.cells c hc
        · exact hm

omit [Build] in
theorem follows_setNodeRightChild (hf : npm.Fits) (hm : m < 2 ^ 64) : Follows (Spelled n)
    (Same NodePageManager.Fits) (npm.setNodeRightChild m)
    (Bytes.NodePageManager.setNodeRightChild npm m) := by
  have hnew : NodePageManager.Fits { npm with rightChild := m } :=
    ⟨hf.numCells_eq, hf.bytes_eq, hf.cells, hm⟩
  exact (follows_writeNodeHeader hnew).then fun _ => follows_pure ⟨rfl, hnew⟩

theorem follows_deleteNodeCell (hf : npm.Fits) : Follows (Spelled n)
    (Same NodePageManager.Fits) (npm.deleteNodeCell key)
    (Bytes.NodePageManager.deleteNodeCell npm key) := by
  refine follows_assert.thenGood fun _ _ => ?_
  cases hfind : npm.findNodeCellIdx key with
  | none => exact follows_throw
  | some i =>
    have hi := findNodeCellIdx_lt hfind
    have hlen : (npm.cells.eraseIdx i).length + 1 = npm.cells.length := by
      rw [List.length_eraseIdx_of_lt hi]
      omega
    have hbytes : sizeofNodePageHeader + (npm.cells.eraseIdx i).length * sizeofNodeCell +
        (npm.totalBytesFree + sizeofNodeCell) % 2 ^ 16 = pageSize := by
      have hold := hf.bytes_eq
      have hsize : pageSize < 2 ^ 16 := by decide
      rw [← hlen, Nat.succ_mul] at hold
      rw [Nat.mod_eq_of_lt (by omega)]
      omega
    have hcells : ∀ c ∈ npm.cells.eraseIdx i, c.Fits :=
      fun c hc => hf.cells c (List.mem_of_mem_eraseIdx hc)
    have hnew : NodePageManager.Fits { npm with
        cells := npm.cells.eraseIdx i
        numCells := npm.numCells - 1
        totalBytesFree := (npm.totalBytesFree + sizeofNodeCell) % 2 ^ 16 } :=
      ⟨by rw [hf.numCells_eq, ← hlen]; rfl, hbytes, hcells, hf.rightChild_lt⟩
    refine (follows_writeNodeCells _ hcells (node_area hbytes) (by decide)).then fun _ => ?_
    exact (follows_writeNodeHeader hnew).then fun _ => follows_pure ⟨rfl, hnew⟩

theorem follows_updateCellKey (hf : npm.Fits) : Follows (Spelled n)
    (Same NodePageManager.Fits) (npm.updateCellKey key key')
    (Bytes.NodePageManager.updateCellKey npm key key') := by
  refine follows_assert.thenGood fun _ _ => ?_
  cases hfind : npm.findNodeCellIdx key with
  | none => exact follows_throw
  | some i =>
    have hcells : ∀ c ∈ npm.cells.modify i (fun c => { c with key := key' }), c.Fits := by
      intro c hc
      obtain ⟨j, hj⟩ := List.getElem?_of_mem hc
      rw [List.getElem?_modify] at hj
      obtain ⟨old, hold, rfl⟩ := Option.map_eq_some_iff.mp hj
      have hfits := hf.cells old (List.mem_of_getElem? hold)
      split
      · exact hfits
      · exact hfits
    have hnew : NodePageManager.Fits { npm with
        cells := npm.cells.modify i (fun c => { c with key := key' }) } :=
      ⟨by rw [List.length_modify, hf.numCells_eq], by rw [List.length_modify, hf.bytes_eq], hcells,
        hf.rightChild_lt⟩
    exact (follows_writeNodeCells _ hcells (node_area hnew.bytes_eq) (by decide)).then
      fun _ => follows_pure ⟨rfl, hnew⟩

end Node

/-! ### Leaf pages -/

section Leaf

variable [Build] {n m : Nat} {lpm : LeafPageManager} {key : DefaultPagerKey} {cell : LeafCell}

omit [Build] in
/-- The manager after a cell went in. -/
theorem LeafPageManager.Fits.insert {lo : Nat} (hf : lpm.Fits) (hc : cell.Fits)
    (hlo : lo ≤ lpm.cells.length) (hfull : ¬ sizeofLeafCell > lpm.totalBytesFree) :
    LeafPageManager.Fits { lpm with
      cells := lpm.cells.insertIdx lo cell
      totalBytesFree := lpm.totalBytesFree - sizeofLeafCell
      numCells := lpm.numCells + 1 } where
  numCells_eq := by rw [List.length_insertIdx_of_le_length hlo, hf.numCells_eq]
  bytes_eq := by
    have hbytes := hf.bytes_eq
    simp only [List.length_insertIdx_of_le_length hlo, Nat.succ_mul]
    omega
  cells := by
    intro c h
    rcases (List.mem_insertIdx hlo).mp h with rfl | h
    · exact hc
    · exact hf.cells c h
  prevPage_lt := hf.prevPage_lt
  nextPage_lt := hf.nextPage_lt

theorem follows_writeCell (hf : lpm.Fits) (hc : cell.Fits) : Follows (Spelled n)
    (Same (Answers LeafPageManager.Fits)) (lpm.writeCell cell)
    (Bytes.LeafPageManager.writeCell lpm cell) := by
  refine follows_assert.thenGood fun _ _ => ?_
  by_cases hfull : sizeofLeafCell > lpm.totalBytesFree
  · simp only [hfull, if_true]
    exact follows_pure ⟨rfl, hf⟩
  · have hle := (findKey_le LeafCell.key cell.key lpm.cells).1
    rcases hfind : findKey LeafCell.key cell.key lpm.cells with ⟨found, lo⟩
    rw [hfind] at hle
    simp only [hfull, if_false] at hle ⊢
    cases found with
    | true => exact follows_throw
    | false =>
      have hnew := hf.insert hc hle hfull
      refine follows_assert.thenGood fun _ _ => ?_
      refine (follows_writeLeafCells hnew.cells (by have := hnew.bytes_eq; omega)).then fun _ => ?_
      exact (follows_writeLeafHeader hnew).then fun _ => follows_pure ⟨rfl, hnew⟩

theorem follows_deleteCell (hf : lpm.Fits) : Follows (Spelled n) (Same LeafPageManager.Fits)
    (lpm.deleteCell key) (Bytes.LeafPageManager.deleteCell lpm key) := by
  refine follows_assert.thenGood fun _ _ => ?_
  refine (follows_pure ⟨rfl, hf⟩).ite ?_
  have hlt := (findKey_le LeafCell.key key lpm.cells).2
  rcases hfind : findKey LeafCell.key key lpm.cells with ⟨found, lo⟩
  rw [hfind] at hlt
  cases found with
  | false => exact follows_throw
  | true =>
    have hlo : lo < lpm.cells.length := hlt rfl
    have hlen : (lpm.cells.eraseIdx lo).length + 1 = lpm.cells.length := by
      rw [List.length_eraseIdx_of_lt hlo]
      omega
    have hbytes : sizeofLeafPageHeader + (lpm.cells.eraseIdx lo).length * sizeofLeafCell +
        (lpm.totalBytesFree + sizeofLeafCell) % 2 ^ 16 = pageSize := by
      have hold := hf.bytes_eq
      have hsize : pageSize < 2 ^ 16 := by decide
      rw [← hlen, Nat.succ_mul] at hold
      rw [Nat.mod_eq_of_lt (by omega)]
      omega
    have hnew : LeafPageManager.Fits { lpm with
        cells := lpm.cells.eraseIdx lo
        numCells := lpm.numCells - 1
        totalBytesFree := (lpm.totalBytesFree + sizeofLeafCell) % 2 ^ 16 } :=
      ⟨by rw [hf.numCells_eq, ← hlen]; rfl, hbytes,
        fun c hc => hf.cells c (List.mem_of_mem_eraseIdx hc), hf.prevPage_lt, hf.nextPage_lt⟩
    have hfit : sizeofLeafPageHeader + (lpm.cells.eraseIdx lo).length * sizeofLeafCell ≤ pageSize := by
      omega
    refine (follows_writeLeafCells hnew.cells hfit).then fun _ => ?_
    exact (follows_writeLeafHeader hnew).then fun _ => follows_pure ⟨rfl, hnew⟩

end Leaf

/-! ### Reads -/

section Reads

variable [Build] {n p : Nat} {opm : OverflowPageManager} {lpm : LeafPageManager}
  {key : DefaultPagerKey}

omit [Build] in
theorem take_padTo {content : List Byte} {k m : Nat} (h : k ≤ m) :
    (padTo content m).take k = content.takeD k 0 := by
  apply List.ext_getElem?
  intro j
  by_cases hj : j < k
  · rw [List.getElem?_take_of_lt hj, show content.takeD k 0 = content.takeD k default from rfl,
      getElem?_takeD hj, padTo]
    by_cases hc : j < content.length
    · rw [List.getElem?_append_left hc, List.getElem?_eq_getElem hc]
      rfl
    · rw [List.getElem?_append_right (by omega), List.getElem?_replicate, if_pos (by omega),
        List.getElem?_eq_none (by omega)]
      rfl
  · rw [List.getElem?_eq_none (by simp; omega), List.getElem?_eq_none (by simpa using hj)]

omit [Build] in
theorem follows_getOverflowContent (hf : opm.Fits) : Follows (Spelled n) Eq
    opm.getOverflowContent (Bytes.OverflowPageManager.getOverflowContent opm) := by
  intro s b h a t hrun
  obtain ⟨h0, hrun⟩ := readPage_eq_ok hrun
  cases hr : s.file.read opm.pgno with
  | overflow hd content =>
    rw [hr] at hrun
    cases hrun
    have hne : s.file.read opm.pgno ≠ .blank := by simp [hr]
    have hin := Spelled.le_of_ne_blank hne
    have hlim := hin.trans h.numPages_le
    obtain ⟨page, hlen, hread, hspelled⟩ := h.page_bytes h0 hin
    rw [hr] at hspelled
    obtain ⟨-, -, -, -, -, hcontent⟩ := hspelled
    have hle := hf.numBytes_le
    have hbytes : pread b.bytes opm.numBytes ((opm.pgno - 1) * pageSize + sizeofOverflowPageHeader) =
        content.takeD opm.numBytes 0 := by
      have hfit : sizeofOverflowPageHeader + opm.numBytes ≤ pageSize := by
        have hsum : sizeofOverflowPageHeader + chunkSize = pageSize := by decide
        omega
      rw [← take_padTo hle, ← hcontent, ← pread_pread hfit, hread]
      rfl
    refine ⟨_, b, ?_, rfl, h⟩
    rw [Bytes.OverflowPageManager.getOverflowContent, bind_ok (seek_ok h0 hlim (by decide)),
      bind_ok osRead_eq, pageOffset_eq h0 hlim (by decide), hbytes, padTo_of_le (by simp)]
    rfl
  | _ =>
    rw [hr] at hrun
    cases hrun

theorem follows_readChain (fuel : Nat) : ∀ it, Follows (Spelled n) Eq (readChain fuel it)
    (Bytes.readChain fuel it) := by
  induction fuel with
  | zero => exact fun it => follows_throw
  | succ fuel ih =>
    intro it
    refine (follows_pure rfl).ite ?_
    refine follows_overflowLoad.thenGood fun opm hopm => ?_
    refine (follows_getOverflowContent hopm).then fun content => ?_
    exact (ih _).then fun rest => follows_pure rfl

theorem follows_getPayload : Follows (Spelled n) Eq (lpm.getPayload key)
    (Bytes.LeafPageManager.getPayload lpm key) := by
  unfold LeafPageManager.getPayload Bytes.LeafPageManager.getPayload
  cases lpm.cells.find? (fun c => c.key = key) with
  | none => exact follows_pure rfl
  | some cell =>
    intro s b h a t hrun
    obtain ⟨_, _, hget, hrun⟩ := bind_eq_ok hrun
    cases hget
    have hfuel : b.bytes.length / pageSize = s.file.numPages := by
      rw [h.length_bytes, Nat.mul_div_cancel _ (by decide)]
    have hrest : Follows (Spelled n) Eq
        (do let payload ← readChain (s.file.numPages + 1) cell.recordPage
            assert (payload.length = cell.payloadSize)
            pure (some payload))
        (do let payload ← Bytes.readChain (b.bytes.length / pageSize + 1) cell.recordPage
            assert (payload.length = cell.payloadSize)
            pure (some payload)) := by
      rw [hfuel]
      exact (follows_readChain _ _).then fun payload =>
        follows_assert.thenGood fun _ _ => follows_pure rfl
    exact hrest s b h a t hrun

theorem follows_getPageType : Follows (Spelled n) Eq (getPageType p) (Bytes.getPageType p) := by
  refine follows_assert.thenGood fun _ _ => ?_
  intro s b h a t hrun
  obtain ⟨h0, hrun⟩ := readPage_eq_ok hrun
  have htype : s.file.read p ≠ .blank ∧ a = (s.file.read p).taggedAs ∧ s = t := by
    cases hr : s.file.read p with
    | blank =>
      rw [hr] at hrun
      cases hrun
    | _ =>
      rw [hr] at hrun
      cases hrun
      exact ⟨by simp, rfl, rfl⟩
  obtain ⟨hne, rfl, rfl⟩ := htype
  have hin := Spelled.le_of_ne_blank hne
  have hlim := hin.trans h.numPages_le
  obtain ⟨page, hlen, hread, hspelled⟩ := h.page_bytes h0 hin
  have hhead : pread b.bytes sizeofBasePageHeader ((p - 1) * pageSize + 0) = pread page 8 0 := by
    rw [← hread, pread_pread (by decide), Nat.add_zero]
    rfl
  have hfield : ∀ k, k + 4 ≤ 8 → field 4 (pread page 8 0) k = field 4 page k := by
    intro k hk
    rw [field_pread hk, Nat.zero_add]
  have hlen8 : (pread page 8 0).length = 8 := length_pread (by rw [hlen]; decide)
  have hsum : checksumOf (pread page 8 0) = checksum :=
    (hfield 0 (by decide)).trans (hspelled.checksum_eq hne)
  have htag : pageTypeOf (pread page 8 0) = (s.file.read p).taggedAs.tag :=
    (hfield 4 (by decide)).trans hspelled.pageType_eq
  refine ⟨_, b, ?_, rfl, h⟩
  rw [bind_ok (seek_ok h0 hlim (by decide)), bind_ok osRead_eq, pageOffset_eq h0 hlim (by decide),
    hhead, padTo_of_le (by rw [hlen8]; decide)]
  simp only [hsum, htag, if_true]
  rw [PagerPageType.ofTag_tag]
  rfl

/-- The manager `seek_page` leaves behind. -/
def PageManager.Fits : PageManager → Prop
  | .first fpm => fpm.Fits
  | .node npm => npm.Fits
  | .leaf lpm => lpm.Fits
  | .free fpm => fpm.Fits
  | .overflow opm => opm.Fits

theorem follows_seekPage : Follows (Spelled n) (Same PageManager.Fits) (seekPage p)
    (Bytes.seekPage p) := by
  refine (follows_firstLoad.thenGood fun fpm hf => follows_pure ⟨rfl, hf⟩).ite ?_
  intro s b h a t hrun
  obtain ⟨h0, hrun⟩ := readPage_eq_ok hrun
  have hne : s.file.read p ≠ .blank := by
    intro hblank
    rw [hblank] at hrun
    obtain ⟨fpm, u, hload, -⟩ := bind_eq_ok hrun
    obtain ⟨-, hload⟩ := readPage_eq_ok hload
    rw [hblank] at hload
    cases hload
  obtain ⟨page, hread, hlen, hspelled⟩ := h.read_kept h0 hne "[Pager:seek_page]: Failed to seek"
  rw [bind_ok hread]
  simp only [hspelled.pageType_eq, PagerPageType.ofTag_tag]
  cases hr : s.file.read p with
  | blank => exact absurd hr hne
  | first hd =>
    rw [hr] at hrun
    exact (follows_firstLoad.thenGood fun fpm hf => follows_pure ⟨rfl, hf⟩) s b h a t hrun
  | node hd area =>
    rw [hr] at hrun
    exact (follows_nodeLoad.thenGood fun npm hf => follows_pure ⟨rfl, hf⟩) s b h a t hrun
  | leaf hd area =>
    rw [hr] at hrun
    exact (follows_leafLoad.thenGood fun lpm hf => follows_pure ⟨rfl, hf⟩) s b h a t hrun
  | free hd =>
    rw [hr] at hrun
    exact (follows_freeLoad.thenGood fun fpm hf => follows_pure ⟨rfl, hf⟩) s b h a t hrun
  | overflow hd content =>
    rw [hr] at hrun
    exact (follows_overflowLoad.thenGood fun opm hf => follows_pure ⟨rfl, hf⟩) s b h a t hrun

end Reads

/-! ### The free list -/

section FreeList

variable {n p : Nat} {msg : String}

theorem follows_getNumPages : Follows (Spelled n) (Same (· ≤ pageLimit)) getNumPages
    Bytes.getNumPages :=
  follows_firstLoad.thenGood fun _ hf => follows_pure ⟨rfl, hf.numPages_le⟩

theorem follows_peekFreelist : Follows (Spelled n) (Same (· ≤ pageLimit)) peekFreelist
    Bytes.peekFreelist :=
  follows_firstLoad.thenGood fun _ hf => follows_pure ⟨rfl, hf.freePageHead_le⟩

/-- A read of any page a seek can reach, be it behind the end. -/
theorem follows_readPage (hp : p ≤ pageLimit) : Follows (Spelled n)
    (fun page res => page.SpelledBy res.1) (readPage p msg) (Bytes.readPage p msg) := by
  intro s b h page t hrun
  by_cases h0 : p = 0
  · subst h0
    cases hrun
  · rw [readPage_ok h0] at hrun
    cases hrun
    obtain ⟨bytes, bytesRead, hread, -, hspelled, -⟩ := h.read_page h0 msg hp
    exact ⟨_, b, hread, hspelled, h⟩

theorem follows_popFreelist : Follows (Spelled n) (Same (· ≤ pageLimit)) popFreelist
    Bytes.popFreelist := by
  refine follows_firstLoad.thenGood fun fpm hf => ?_
  refine (follows_pure ⟨rfl, Nat.zero_le _⟩).ite ?_
  refine (follows_readPage hf.freePageHead_le).bind ?_
  rintro page ⟨bytes, bytesRead⟩ hspelled
  obtain ⟨hfield, hle⟩ := hspelled.firstField
  simp only [hfield]
  exact (follows_setFreePageHead hf hle).thenGood fun _ _ => follows_pure ⟨rfl, hf.freePageHead_le⟩

theorem follows_insertFreelist [Build] (hp : p + n ≤ pageLimit) : Follows (Spelled n) Eq (insertFreelist p)
    (Bytes.insertFreelist p) := by
  refine follows_assert.thenGood fun _ _ => ?_
  refine follows_firstLoad.thenGood fun fpm hf => ?_
  refine (follows_setFreePageHead hf (by omega)).thenGood fun _ _ => ?_
  refine follows_writePage _ _ hp (length_padTo_page ?_) (spelledBy_free hf.freePageHead_le)
  rw [PagerFreePageHeader.length_toBytes]
  decide

end FreeList

/-! ### New pages -/

section Growth

variable [Build] {n p : Nat} {s t : Pager} {b : BytePager} {header payload : List Byte} {page : Page}
  {type : PagerPageType} {fpm : FirstPageManager} {a : Nat}

omit [Build] in
theorem osAppend_bytes (h : header.length ≤ pageSize) : Bytes.osAppend header pageSize b =
    .ok () { b with bytes := pwrite b.bytes (padTo header pageSize) b.bytes.length } := by
  have htake : (padTo header pageSize).take pageSize = padTo header pageSize :=
    List.take_of_length_le (length_padTo_page h).le
  change EStateM.Result.ok () { b with
    bytes := pwrite b.bytes ((padTo header pageSize).take pageSize) b.bytes.length } = _
  rw [htake]

/-- The call returned, with room for `n` pages left, a page number a seek can reach. -/
def ReturnsSpelled {α : Type} (G : α → Prop) (n : Nat) (a : α) (t : Pager) (y : BytePagerM α)
    (b : BytePager) : Prop :=
  ∃ b', y b = .ok a b' ∧ G a ∧ Spelled n t b'

section ReturnsSpelled

variable {α β : Type} {G : α → Prop} {G' : β → Prop} {y : BytePagerM α} {f : PagerM β}
  {g : α → BytePagerM β} {b' : BytePager} {a : α} {c : β}

omit [Build] in
theorem ReturnsSpelled.of_ok (hy : y b = .ok a b') (hg : ReturnsSpelled G' n c t (g a) b') :
    ReturnsSpelled G' n c t (y >>= g) b := by
  obtain ⟨b'', hrun, hc, h⟩ := hg
  exact ⟨b'', by rw [bind_ok hy, hrun], hc, h⟩

omit [Build] in
/-- What follows asks for no page more. -/
theorem ReturnsSpelled.bind (hy : ReturnsSpelled G n a s y b)
    (hf : G a → Follows (Spelled n) (Same G') f (g a)) (hrun : f s = .ok c t) :
    ReturnsSpelled G' n c t (y >>= g) b := by
  obtain ⟨b', hyrun, ha, h⟩ := hy
  exact .of_ok hyrun ((hf ha).same h hrun)

end ReturnsSpelled

omit [Build] in
theorem createFreePage_spelled (h : Spelled (n + 1) s b) (hrun : createFreePage s = .ok a t) :
    ReturnsSpelled (· ≤ pageLimit) n a t Bytes.createFreePage b := by
  obtain ⟨fpm, s₁, hload, hrun⟩ := bind_eq_ok hrun
  obtain ⟨b₁, hbytes, hf, h₁⟩ := follows_firstLoad.same h hload
  have hhead : (PagerFreePageHeader.mk fpm.freePageHead).toBytes.length ≤ pageSize := by
    rw [PagerFreePageHeader.length_toBytes]
    decide
  have hgrown := h₁.grow (length_padTo_page hhead) (spelledBy_free hf.freePageHead_le)
  have htotal : s₁.totalNumPages + 1 ≤ pageLimit := by
    have := h₁.total_le
    omega
  have hrest : Follows (Spelled n) (Same (· ≤ pageLimit))
      (do let _ ← fpm.setFreePageHead (s₁.totalNumPages + 1); pure (s₁.totalNumPages + 1))
      (do let _ ← Bytes.FirstPageManager.setFreePageHead fpm (b₁.totalNumPages + 1)
          pure (b₁.totalNumPages + 1)) := by
    rw [h₁.total_eq]
    exact (follows_setFreePageHead hf htotal).thenGood fun _ _ => follows_pure ⟨rfl, htotal⟩
  obtain ⟨b', hrun', hle, h'⟩ := hrest.same hgrown hrun
  refine ⟨b', ?_, hle, h'⟩
  rw [Bytes.createFreePage, bind_ok hbytes]
  refine (bind_ok (t := { b₁ with totalNumPages := b₁.totalNumPages + 1 }) rfl).trans ?_
  rw [bind_ok get_ok, bind_ok (osAppend_bytes hhead)]
  exact hrun'

omit [Build] in
theorem appendPage_spelled (h : Spelled (n + 1) s b) (hlen : header.length ≤ pageSize)
    (hpage : page.SpelledBy (padTo header pageSize)) (hrun : appendPage page s = .ok a t) :
    ReturnsSpelled (· ≤ pageLimit) n a t (Bytes.appendPage header) b := by
  have hgrown := h.grow (length_padTo_page hlen) hpage
  have htotal : s.totalNumPages + 1 ≤ pageLimit := by
    have := h.total_le
    omega
  have hrest : Follows (Spelled n) (Same (· ≤ pageLimit))
      (do let fpm ← FirstPageManager.load
          let _ ← fpm.setNumPages (s.totalNumPages + 1)
          pure (s.totalNumPages + 1))
      (do let fpm ← Bytes.FirstPageManager.load
          let _ ← Bytes.FirstPageManager.setNumPages fpm (b.totalNumPages + 1)
          pure (b.totalNumPages + 1)) := by
    rw [h.total_eq]
    exact follows_firstLoad.thenGood fun fpm hf =>
      (follows_setNumPages hf htotal).thenGood fun _ _ => follows_pure ⟨rfl, htotal⟩
  obtain ⟨b', hrun', hle, h'⟩ := hrest.same hgrown hrun
  refine ⟨b', ?_, hle, h'⟩
  rw [Bytes.appendPage, bind_ok get_ok, bind_ok (osAppend_bytes hlen)]
  exact hrun'

theorem createPage_spelled (h : Spelled (n + 1) s b) (hrun : createPage type s = .ok a t) :
    ReturnsSpelled (· ≤ pageLimit) n a t (Bytes.createPage type) b := by
  cases type with
  | freePage => exact createFreePage_spelled h hrun
  | nodePage => exact appendPage_spelled h (by decide) spelledBy_newNode hrun
  | leafPage => exact appendPage_spelled h (by decide) spelledBy_newLeaf hrun
  | _ =>
    obtain ⟨_, u, -, hthrow⟩ := bind_eq_ok hrun
    cases hthrow

/-! ### Overflow chains -/

/-- A page that a manager took is a page of the file. -/
theorem le_of_freeLoad {tmp : FreePageManager} (hrun : FreePageManager.load p s = .ok tmp t) :
    p ≤ s.file.numPages := by
  refine Spelled.le_of_ne_blank fun hblank => ?_
  obtain ⟨-, hrun⟩ := readPage_eq_ok hrun
  rw [hblank] at hrun
  cases hrun

/-- One page of room for each page number asked for. -/
theorem takePages_spelled (k : Nat) : ∀ {s b fpm head pages}, Spelled (n + k) s b →
    FirstPageManager.Fits fpm → takePages k fpm head s = .ok pages t →
    ReturnsSpelled (fun pages => ∀ p ∈ pages, p + n ≤ pageLimit) n pages t
      (Bytes.takePages k fpm head) b := by
  induction k with
  | zero =>
    intro s b fpm head pages h _ hrun
    cases hrun
    exact ⟨b, rfl, by simp, h⟩
  | succ k ih =>
    intro s b fpm head pages h hf hrun
    by_cases hhead : head ≠ nullPage
    · rw [takePages, if_pos hhead] at hrun
      obtain ⟨tmp, s₁, hload, hrun⟩ := bind_eq_ok hrun
      obtain ⟨fpm', s₂, hset, hrun⟩ := bind_eq_ok hrun
      obtain ⟨rest, s₃, htake, hrun⟩ := bind_eq_ok hrun
      cases hrun
      have hin := le_of_freeLoad hload
      have hroom := h.size_le
      obtain ⟨b₁, hload', htmp, h₁⟩ := follows_freeLoad.same h hload
      obtain ⟨b₂, hset', hfpm', h₂⟩ := (follows_setFreePageHead hf htmp).same h₁ hset
      obtain ⟨b₃, htake', hrest, h₃⟩ := ih (h₂.mono (by omega)) hfpm' htake
      refine ⟨b₃, ?_, ?_, h₃⟩
      · rw [Bytes.takePages, if_pos hhead, bind_ok hload', bind_ok hset', bind_ok htake']
        rfl
      · intro p hp
        rcases List.mem_cons.mp hp with rfl | hp
        · omega
        · exact hrest p hp
    · rw [takePages, if_neg hhead] at hrun
      have hblank : (List.replicate pageSize (0 : Byte)).length = pageSize := List.length_replicate
      have hgrown : Spelled (n + k) _ _ := h.grow (g := .blank) hblank rfl
      have hroom := h.total_le
      obtain ⟨rest, s₁, htake, hrun⟩ := bind_eq_ok (x := takePages k fpm head)
        (f := fun rest => pure ((s.totalNumPages + 1) :: rest)) hrun
      cases hrun
      obtain ⟨b₁, htake', hrest, h₁⟩ := ih hgrown hf htake
      refine ⟨b₁, ?_, ?_, h₁⟩
      · rw [Bytes.takePages, if_neg hhead]
        refine (bind_ok (t := { b with totalNumPages := b.totalNumPages + 1 }) rfl).trans ?_
        rw [bind_ok get_ok, bind_ok (osAppend_bytes hblank.le), padTo_of_le hblank.ge, h.total_eq]
        rw [h.total_eq] at htake'
        exact bind_ok htake'
      · intro p hp
        rcases List.mem_cons.mp hp with rfl | hp
        · omega
        · exact hrest p hp

omit [Build] in
theorem chunkLoop_length {size : Nat} : ∀ {fuel offset chunks},
    chunkLoop payload size fuel offset = some chunks → ∀ c ∈ chunks, c.length ≤ chunkSize := by
  intro fuel
  induction fuel with
  | zero =>
    intro offset chunks h
    cases h
  | succ fuel ih =>
    intro offset chunks h
    rw [chunkLoop] at h
    split_ifs at h
    · obtain ⟨rest, hrest, rfl⟩ := Option.map_eq_some_iff.mp h
      intro c hc
      rcases List.mem_cons.mp hc with rfl | hc
      · rw [List.length_take]
        omega
      · exact ih hrest c hc
    · cases h
      simp

omit [Build] in
theorem follows_writeChunks : ∀ {ps : List (Nat × List Byte)},
    (∀ q ∈ ps, q.1 + n ≤ pageLimit ∧ q.2.length ≤ chunkSize) →
    Follows (Spelled n) Eq (writeChunks ps) (Bytes.writeChunks ps)
  | [], _ => follows_pure rfl
  | (p, chunk) :: rest, hps => by
    obtain ⟨⟨hp, hchunk⟩, hrest⟩ := List.forall_mem_cons.mp hps
    have hnext : (rest.head?.map (·.1)).getD nullPage ≤ pageLimit := by
      cases rest with
      | nil => exact Nat.zero_le _
      | cons q rest =>
        have := (hrest q List.mem_cons_self).1
        simp only [List.head?_cons, Option.map_some, Option.getD_some]
        omega
    intro s b h a t hrun
    have hpad : indeterminate 4 b = .ok ((List.range 4).map b.padding)
      { b with padding := fun i => b.padding (i + 4) } := rfl
    have hlen : ((List.range 4).map b.padding).length = 4 := by simp
    have hdata : ((PagerOverflowPageHeader.mk ((rest.head?.map (·.1)).getD nullPage)
        chunk.length).toBytes ((List.range 4).map b.padding) ++ chunk).length ≤ pageSize := by
      rw [List.length_append, PagerOverflowPageHeader.length_toBytes _ hlen]
      have hsum : sizeofOverflowPageHeader + chunkSize = pageSize := by decide
      have hle : chunk.length ≤ chunkSize := hchunk
      omega
    have hstep := (follows_writePage "[Pager::_write_overflow_chain]: Failed to seek"
      "[Pager::_write_overflow_chain]: Failed to seek" hp (length_padTo_page hdata)
      (spelledBy_overflow hlen hnext hchunk)).then fun _ => follows_writeChunks hrest
    obtain ⟨a', b', hbytes, heq, h'⟩ := hstep _ _ (h.pad _) a t hrun
    refine ⟨a', b', ?_, heq, h'⟩
    rw [Bytes.writeChunks, bind_ok hpad]
    exact hbytes

/-- How many pages the record of a payload takes. -/
def pagesTaken (payload : List Byte) : Nat := ((payloadChunks payload).getD []).length

theorem createOverflowPage_spelled (h : Spelled (n + pagesTaken payload) s b)
    (hrun : createOverflowPage payload s = .ok a t) :
    ReturnsSpelled (· ≤ pageLimit) n a t (Bytes.createOverflowPage payload) b := by
  rw [createOverflowPage, writeOverflowChain] at hrun
  rw [pagesTaken] at h
  rw [Bytes.createOverflowPage, Bytes.writeOverflowChain]
  cases hch : payloadChunks payload with
  | none =>
    rw [hch] at hrun
    cases hrun
  | some chunks =>
    rw [hch] at hrun h
    cases chunks with
    | nil =>
      cases hrun
      exact ⟨b, rfl, Nat.zero_le _, h.mono (Nat.le_add_right _ _)⟩
    | cons chunk chunks =>
      obtain ⟨fpm, s₁, hload, hrun⟩ := bind_eq_ok hrun
      obtain ⟨pages, s₂, htake, hrun⟩ := bind_eq_ok hrun
      obtain ⟨_, s₃, hwrite, hrun⟩ := bind_eq_ok hrun
      obtain ⟨b₁, hload', hf, h₁⟩ := follows_firstLoad.same h hload
      obtain ⟨b₂, htake', hpages, h₂⟩ := takePages_spelled _ h₁ hf htake
      have hps : ∀ q ∈ pages.zip (chunk :: chunks), q.1 + n ≤ pageLimit ∧ q.2.length ≤ chunkSize := by
        rintro ⟨p, c⟩ hq
        obtain ⟨hp, hc⟩ := List.of_mem_zip hq
        exact ⟨hpages p hp, chunkLoop_length hch c hc⟩
      obtain ⟨_, b₃, hwrite', -, h₃⟩ := follows_writeChunks hps _ _ h₂ _ _ hwrite
      cases pages with
      | nil => cases hrun
      | cons p pages =>
        cases hrun
        have hp := hpages _ List.mem_cons_self
        refine ⟨b₃, ?_, by omega, h₃⟩
        exact (bind_ok hload').trans ((bind_ok htake').trans (bind_ok hwrite'))

theorem insertCell_spelled {lpm : LeafPageManager} {key : DefaultPagerKey}
    {res : Bool × LeafPageManager} (hf : lpm.Fits) (h : Spelled (n + pagesTaken payload) s b)
    (hrun : lpm.insertCell key payload s = .ok res t) :
    ReturnsSpelled (Answers LeafPageManager.Fits) n res t
      (Bytes.LeafPageManager.insertCell lpm key payload) b := by
  obtain ⟨_, s₀, hassert, hrun⟩ := bind_eq_ok hrun
  obtain ⟨b₀, hassert', -, h₀⟩ := follows_assert.same h hassert
  by_cases hfull : sizeofLeafCell > lpm.totalBytesFree
  · simp only [hfull, if_true] at hrun
    cases hrun
    refine ⟨b₀, ?_, hf, h₀.mono (Nat.le_add_right _ _)⟩
    rw [Bytes.LeafPageManager.insertCell, bind_ok hassert']
    simp only [hfull, if_true]
    rfl
  · have hle := (findKey_le LeafCell.key key lpm.cells).1
    rcases hfind : findKey LeafCell.key key lpm.cells with ⟨found, lo⟩
    rw [hfind] at hle
    simp only [hfull, if_false, hfind] at hle hrun
    cases found with
    | true => cases hrun
    | false =>
      simp only [Bool.false_eq_true, if_false] at hrun
      obtain ⟨recordPage, s₁, hcreate, hrun⟩ := bind_eq_ok hrun
      refine .of_ok hassert' ?_
      simp only [hfull, if_false, hfind, Bool.false_eq_true]
      refine (createOverflowPage_spelled h₀ hcreate).bind (fun hrecord => ?_) hrun
      have hcell : LeafCell.Fits ⟨payload.length % 2 ^ 32, key, recordPage⟩ :=
        ⟨Nat.mod_lt _ (by decide), hrecord.trans_lt (by decide)⟩
      have hnew := hf.insert hcell hle hfull
      have hfit : sizeofLeafPageHeader + (lpm.cells.insertIdx lo
          ⟨payload.length % 2 ^ 32, key, recordPage⟩).length * sizeofLeafCell ≤ pageSize := by
        have := hnew.bytes_eq
        simp only at this
        omega
      exact (follows_writeLeafCells hnew.cells hfit).then fun _ => follows_assert.thenGood fun _ _ =>
        (follows_writeLeafHeader hnew).then fun _ => follows_pure ⟨rfl, hnew⟩

end Growth

/-! ### Programs -/

/-- The calls of the pager and its page managers that reach the file. -/
inductive FileCall : Type → Type where
  | reopen : FileCall Unit
  | seekPage (pgno : Nat) : FileCall PageManager
  | getPageType (pgno : Nat) : FileCall PagerPageType
  | createPage (type : PagerPageType) : FileCall Nat
  | createOverflowPage (payload : List Byte) : FileCall Nat
  | insertFreelist (pgno : Nat) : FileCall Unit
  | popFreelist : FileCall Nat
  | peekFreelist : FileCall Nat
  | getNumPages : FileCall Nat
  | loadFirst : FileCall FirstPageManager
  | setNumPages (fpm : FirstPageManager) (n : Nat) : FileCall FirstPageManager
  | setFreePageHead (fpm : FirstPageManager) (pgno : Nat) : FileCall FirstPageManager
  | setNextOid (fpm : FirstPageManager) (oid : DefaultPagerKey) : FileCall FirstPageManager
  | loadFree (pgno : Nat) : FileCall FreePageManager
  | loadOverflow (pgno : Nat) : FileCall OverflowPageManager
  | getOverflowContent (opm : OverflowPageManager) : FileCall (List Byte)
  | loadNode (pgno : Nat) : FileCall NodePageManager
  | insertNodeCell (npm : NodePageManager) (key : DefaultPagerKey) :
      FileCall (Bool × NodePageManager)
  | setCellLeftChild (npm : NodePageManager) (key : DefaultPagerKey) (leftChild : Nat) :
      FileCall NodePageManager
  | setNodeRightChild (npm : NodePageManager) (rightChild : Nat) : FileCall NodePageManager
  | deleteNodeCell (npm : NodePageManager) (key : DefaultPagerKey) : FileCall NodePageManager
  | updateCellKey (npm : NodePageManager) (oldKey newKey : DefaultPagerKey) :
      FileCall NodePageManager
  | loadLeaf (pgno : Nat) : FileCall LeafPageManager
  | insertCell (lpm : LeafPageManager) (key : DefaultPagerKey) (cellData : List Byte) :
      FileCall (Bool × LeafPageManager)
  | writeCell (lpm : LeafPageManager) (cell : LeafCell) : FileCall (Bool × LeafPageManager)
  | deleteCell (lpm : LeafPageManager) (key : DefaultPagerKey) : FileCall LeafPageManager
  | getPayload (lpm : LeafPageManager) (key : DefaultPagerKey) : FileCall (Option (List Byte))
  | setPrevPage (lpm : LeafPageManager) (pgno : Nat) : FileCall LeafPageManager
  | setNextPage (lpm : LeafPageManager) (pgno : Nat) : FileCall LeafPageManager

namespace FileCall

variable {α : Type}

/-- Room a call has to find in the file. -/
def pages : FileCall α → Nat
  | reopen => 1
  | createPage _ => 1
  | createOverflowPage payload => pagesTaken payload
  | insertCell _ _ cellData => pagesTaken cellData
  | _ => 0

/-- What a call is given comes from earlier calls, and `room` pages are left after it. -/
def Fits (room : Nat) : FileCall α → Prop
  | insertFreelist pgno => pgno + room ≤ pageLimit
  | setNumPages fpm n => fpm.Fits ∧ n ≤ pageLimit
  | setFreePageHead fpm pgno => fpm.Fits ∧ pgno ≤ pageLimit
  | setNextOid fpm _ => fpm.Fits
  | getOverflowContent opm => opm.Fits
  | insertNodeCell npm _ => npm.Fits
  | setCellLeftChild npm _ leftChild => npm.Fits ∧ leftChild < 2 ^ 64
  | setNodeRightChild npm rightChild => npm.Fits ∧ rightChild < 2 ^ 64
  | deleteNodeCell npm _ => npm.Fits
  | updateCellKey npm _ _ => npm.Fits
  | insertCell lpm _ _ => lpm.Fits
  | writeCell lpm cell => lpm.Fits ∧ cell.Fits
  | deleteCell lpm _ => lpm.Fits
  | setPrevPage lpm pgno => lpm.Fits ∧ pgno < 2 ^ 64
  | setNextPage lpm pgno => lpm.Fits ∧ pgno < 2 ^ 64
  | _ => True

/-- What later calls may count on. -/
def Gives : FileCall α → α → Prop
  | seekPage _, pm => pm.Fits
  | createPage _, pgno => pgno ≤ pageLimit
  | createOverflowPage _, pgno => pgno ≤ pageLimit
  | popFreelist, pgno => pgno ≤ pageLimit
  | peekFreelist, pgno => pgno ≤ pageLimit
  | getNumPages, n => n ≤ pageLimit
  | loadFirst, fpm => fpm.Fits
  | setNumPages _ _, fpm => fpm.Fits
  | setFreePageHead _ _, fpm => fpm.Fits
  | setNextOid _ _, fpm => fpm.Fits
  | loadFree _, fpm => fpm.Fits
  | loadOverflow _, opm => opm.Fits
  | loadNode _, npm => npm.Fits
  | insertNodeCell _ _, res => Answers NodePageManager.Fits res
  | setCellLeftChild _ _ _, npm => npm.Fits
  | setNodeRightChild _ _, npm => npm.Fits
  | deleteNodeCell _ _, npm => npm.Fits
  | updateCellKey _ _ _, npm => npm.Fits
  | loadLeaf _, lpm => lpm.Fits
  | insertCell _ _ _, res => Answers LeafPageManager.Fits res
  | writeCell _ _, res => Answers LeafPageManager.Fits res
  | deleteCell _ _, lpm => lpm.Fits
  | setPrevPage _ _, lpm => lpm.Fits
  | setNextPage _ _, lpm => lpm.Fits
  | _, _ => True

variable [Build]

/-- The call on the pages of the file. -/
def run : FileCall α → PagerM α
  | reopen => modify (fun s => Pager.reopen s.file)
  | seekPage pgno => Cpplite.seekPage pgno
  | getPageType pgno => Cpplite.getPageType pgno
  | createPage type => Cpplite.createPage type
  | createOverflowPage payload => Cpplite.createOverflowPage payload
  | insertFreelist pgno => Cpplite.insertFreelist pgno
  | popFreelist => Cpplite.popFreelist
  | peekFreelist => Cpplite.peekFreelist
  | getNumPages => Cpplite.getNumPages
  | loadFirst => FirstPageManager.load
  | setNumPages fpm n => fpm.setNumPages n
  | setFreePageHead fpm pgno => fpm.setFreePageHead pgno
  | setNextOid fpm oid => fpm.setNextOid oid
  | loadFree pgno => FreePageManager.load pgno
  | loadOverflow pgno => OverflowPageManager.load pgno
  | getOverflowContent opm => opm.getOverflowContent
  | loadNode pgno => NodePageManager.load pgno
  | insertNodeCell npm key => npm.insertNodeCell key
  | setCellLeftChild npm key leftChild => npm.setCellLeftChild key leftChild
  | setNodeRightChild npm rightChild => npm.setNodeRightChild rightChild
  | deleteNodeCell npm key => npm.deleteNodeCell key
  | updateCellKey npm oldKey newKey => npm.updateCellKey oldKey newKey
  | loadLeaf pgno => LeafPageManager.load pgno
  | insertCell lpm key cellData => lpm.insertCell key cellData
  | writeCell lpm cell => lpm.writeCell cell
  | deleteCell lpm key => lpm.deleteCell key
  | getPayload lpm key => lpm.getPayload key
  | setPrevPage lpm pgno => lpm.setPrevPage pgno
  | setNextPage lpm pgno => lpm.setNextPage pgno

/-- The call on its bytes. -/
def runBytes : FileCall α → BytePagerM α
  | reopen => Bytes.Pager.reopen
  | seekPage pgno => Bytes.seekPage pgno
  | getPageType pgno => Bytes.getPageType pgno
  | createPage type => Bytes.createPage type
  | createOverflowPage payload => Bytes.createOverflowPage payload
  | insertFreelist pgno => Bytes.insertFreelist pgno
  | popFreelist => Bytes.popFreelist
  | peekFreelist => Bytes.peekFreelist
  | getNumPages => Bytes.getNumPages
  | loadFirst => Bytes.FirstPageManager.load
  | setNumPages fpm n => Bytes.FirstPageManager.setNumPages fpm n
  | setFreePageHead fpm pgno => Bytes.FirstPageManager.setFreePageHead fpm pgno
  | setNextOid fpm oid => Bytes.FirstPageManager.setNextOid fpm oid
  | loadFree pgno => Bytes.FreePageManager.load pgno
  | loadOverflow pgno => Bytes.OverflowPageManager.load pgno
  | getOverflowContent opm => Bytes.OverflowPageManager.getOverflowContent opm
  | loadNode pgno => Bytes.NodePageManager.load pgno
  | insertNodeCell npm key => Bytes.NodePageManager.insertNodeCell npm key
  | setCellLeftChild npm key leftChild => Bytes.NodePageManager.setCellLeftChild npm key leftChild
  | setNodeRightChild npm rightChild => Bytes.NodePageManager.setNodeRightChild npm rightChild
  | deleteNodeCell npm key => Bytes.NodePageManager.deleteNodeCell npm key
  | updateCellKey npm oldKey newKey => Bytes.NodePageManager.updateCellKey npm oldKey newKey
  | loadLeaf pgno => Bytes.LeafPageManager.load pgno
  | insertCell lpm key cellData => Bytes.LeafPageManager.insertCell lpm key cellData
  | writeCell lpm cell => Bytes.LeafPageManager.writeCell lpm cell
  | deleteCell lpm key => Bytes.LeafPageManager.deleteCell lpm key
  | getPayload lpm key => Bytes.LeafPageManager.getPayload lpm key
  | setPrevPage lpm pgno => Bytes.LeafPageManager.setPrevPage lpm pgno
  | setNextPage lpm pgno => Bytes.LeafPageManager.setNextPage lpm pgno

end FileCall

section Calls

variable {n : Nat} {s t : Pager} {b : BytePager}

/-- A file that is not there yet. -/
theorem spelled_empty (padding : Nat → Byte) (hn : n ≤ pageLimit) :
    Spelled n ⟨⟨fun _ => .blank, 0⟩, 0⟩ ⟨[], 0, padding⟩ where
  total_eq := rfl
  total_le := by simpa using hn
  size_le := by simpa using hn
  beyond := fun _ _ => rfl
  pages := ⟨[], rfl, by simp, rfl, by simp⟩

/-- A new `Pager` on the file, with anything at all behind its header. -/
theorem reopen_spelled (h : Spelled (n + 1) s b) :
    ReturnsSpelled (fun _ => True) n () (Pager.reopen s.file) Bytes.Pager.reopen b := by
  let tail := (List.range (pageSize - sizeofFirstPageHeader + 4)).map b.padding
  have htail : tail.length = pageSize - sizeofFirstPageHeader + 4 := by simp [tail]
  have hdata : ((PagerFirstPageHeader.mk 1 nullPage 1).toBytes tail).length = pageSize := by
    simp [PagerFirstPageHeader.toBytes, PagerPageType.toBytes, htail, pageSize,
      sizeofFirstPageHeader]
  have hspelled : (Page.first ⟨1, nullPage, 1⟩).SpelledBy
      ((PagerFirstPageHeader.mk 1 nullPage 1).toBytes tail) := by
    refine ⟨tagged_toBytes _ _, ?_, by decide, by decide⟩
    rw [← List.append_nil (PagerFirstPageHeader.toBytes _ _)]
    exact PagerFirstPageHeader.fromBytes_toBytes (by decide) (by decide)
  have hsize := h.size_le
  have hw := (h.mono (Nat.le_succ n)).write_page Nat.one_ne_zero (by omega) hdata hspelled
  rw [Nat.sub_self, Nat.zero_mul, Nat.add_zero] at hw
  refine ⟨_, rfl, trivial, rfl, ?_, hw.size_le, hw.beyond, hw.pages⟩
  change 1 + n ≤ pageLimit
  omega

section Outcomes

variable {α : Type} {a : α} {G : α → Prop} {x : PagerM α} {y : BytePagerM α}

theorem ReturnsSpelled.of_follows (hf : Follows (Spelled n) (Same G) x y) (h : Spelled n s b)
    (hrun : x s = .ok a t) : ReturnsSpelled G n a t y b :=
  hf.same h hrun

theorem ReturnsSpelled.of_eq (hf : Follows (Spelled n) Eq x y) (h : Spelled n s b)
    (hrun : x s = .ok a t) : ReturnsSpelled (fun _ => True) n a t y b := by
  obtain ⟨_, b', hy, rfl, h'⟩ := hf s b h a t hrun
  exact ⟨b', hy, trivial, h'⟩

end Outcomes

/-- One call. -/
theorem FileCall.returnsSpelled {α : Type} {a : α} [Build] (c : FileCall α) (hc : c.Fits n)
    (h : Spelled (n + c.pages) s b) (hrun : c.run s = .ok a t) :
    ReturnsSpelled (c.Gives) n a t c.runBytes b := by
  cases c with
  | reopen =>
    cases hrun
    exact reopen_spelled h
  | seekPage pgno => exact .of_follows follows_seekPage h hrun
  | getPageType pgno => exact .of_eq follows_getPageType h hrun
  | createPage type => exact createPage_spelled h hrun
  | createOverflowPage payload => exact createOverflowPage_spelled h hrun
  | insertFreelist pgno => exact .of_eq (follows_insertFreelist hc) h hrun
  | popFreelist => exact .of_follows follows_popFreelist h hrun
  | peekFreelist => exact .of_follows follows_peekFreelist h hrun
  | getNumPages => exact .of_follows follows_getNumPages h hrun
  | loadFirst => exact .of_follows follows_firstLoad h hrun
  | setNumPages fpm m => exact .of_follows (follows_setNumPages hc.1 hc.2) h hrun
  | setFreePageHead fpm pgno => exact .of_follows (follows_setFreePageHead hc.1 hc.2) h hrun
  | setNextOid fpm oid => exact .of_follows (follows_setNextOid hc) h hrun
  | loadFree pgno => exact .of_follows follows_freeLoad h hrun
  | loadOverflow pgno => exact .of_follows follows_overflowLoad h hrun
  | getOverflowContent opm => exact .of_eq (follows_getOverflowContent hc) h hrun
  | loadNode pgno => exact .of_follows follows_nodeLoad h hrun
  | insertNodeCell npm key => exact .of_follows (follows_insertNodeCell hc) h hrun
  | setCellLeftChild npm key leftChild =>
    exact .of_follows (follows_setCellLeftChild hc.1 hc.2) h hrun
  | setNodeRightChild npm rightChild =>
    exact .of_follows (follows_setNodeRightChild hc.1 hc.2) h hrun
  | deleteNodeCell npm key => exact .of_follows (follows_deleteNodeCell hc) h hrun
  | updateCellKey npm oldKey newKey => exact .of_follows (follows_updateCellKey hc) h hrun
  | loadLeaf pgno => exact .of_follows follows_leafLoad h hrun
  | insertCell lpm key cellData => exact insertCell_spelled hc h hrun
  | writeCell lpm cell => exact .of_follows (follows_writeCell hc.1 hc.2) h hrun
  | deleteCell lpm key => exact .of_follows (follows_deleteCell hc) h hrun
  | getPayload lpm key => exact .of_eq follows_getPayload h hrun
  | setPrevPage lpm pgno => exact .of_follows (follows_setLeafPagePointers hc.1 hc.2) h hrun
  | setNextPage lpm pgno => exact .of_follows (follows_setLeafPagePointers hc.1 hc.2) h hrun

end Calls

/-- Calls one after the other, each chosen by what those before returned. -/
inductive Program (α : Type) : Type 1 where
  | done (a : α)
  | fail (e : Error)
  | call {β : Type} (c : FileCall β) (next : β → Program α)

namespace Program

variable {α : Type}

/-- A program that passes on only what it was given, on a file with room for `room` pages. -/
def Fits : Nat → Program α → Prop
  | _, done _ => True
  | _, fail _ => True
  | room, call c next => c.pages ≤ room ∧ c.Fits (room - c.pages) ∧
      ∀ b, c.Gives b → (next b).Fits (room - c.pages)

variable [Build]

def run : Program α → PagerM α
  | done a => pure a
  | fail e => throw e
  | call c next => c.run >>= fun b => (next b).run

def runBytes : Program α → BytePagerM α
  | done a => pure a
  | fail e => throw e
  | call c next => c.runBytes >>= fun b => (next b).runBytes

/-- Every program that returns on the pages of a file returns the same on its bytes, and leaves bytes
that spell the pages it leaves: whatever the padding held, however the calls are mixed and wherever a
new `Pager` was put on the file. -/
theorem spelled {s t : Pager} {b : BytePager} {a : α} : ∀ {p : Program α} {n : Nat}, p.Fits n →
    Spelled n s b → p.run s = .ok a t → ∃ b', p.runBytes b = .ok a b' ∧ Spelled 0 t b' := by
  intro p
  induction p generalizing s b with
  | done a =>
    intro n _ h hrun
    cases hrun
    exact ⟨b, rfl, h.mono (Nat.zero_le n)⟩
  | fail e =>
    intro n _ _ hrun
    cases hrun
  | call c next ih =>
    rintro n ⟨hroom, hc, hnext⟩ h hrun
    obtain ⟨x, u, hcall, hrun⟩ := bind_eq_ok hrun
    rw [← Nat.sub_add_cancel hroom] at h
    obtain ⟨b₁, hbytes, hx, h₁⟩ := c.returnsSpelled hc h hcall
    obtain ⟨b', hrest, h'⟩ := ih x (hnext x hx) h₁ hrun
    exact ⟨b', (bind_ok hbytes).trans hrest, h'⟩

/-- A leaf page made, a cell written to it, and the page read again. -/
def writeReadLeaf (cell : LeafCell) : Program (List LeafCell) :=
  .call .reopen fun _ => .call (.createPage .leafPage) fun pgno => .call (.loadLeaf pgno) fun lpm =>
    .call (.writeCell lpm cell) fun _ => .call (.loadLeaf pgno) fun lpm => .done lpm.cells

omit [Build] in
theorem writeReadLeaf_fits {cell : LeafCell} (hc : cell.Fits) : (writeReadLeaf cell).Fits 2 :=
  ⟨by decide, trivial, fun _ _ => ⟨by decide, trivial, fun _ _ => ⟨Nat.zero_le _, trivial,
    fun _ hlpm => ⟨Nat.zero_le _, ⟨hlpm, hc⟩, fun _ _ => ⟨Nat.zero_le _, trivial, fun _ _ => trivial⟩⟩⟩⟩⟩

omit [Build] in
theorem spelled_cell : letI : Build := ⟨true⟩; ∃ b',
    (writeReadLeaf ⟨5, 7, 0⟩).runBytes ⟨[], 0, fun _ => 255⟩ = .ok [⟨5, 7, 0⟩] b' := by
  let _ : Build := ⟨true⟩
  have hempty := spelled_empty (n := 2) (fun _ => 255) (by decide)
  have hfits : (writeReadLeaf ⟨5, 7, 0⟩).Fits 2 := writeReadLeaf_fits ⟨by decide, by decide⟩
  obtain ⟨b', hrun, -⟩ := spelled hfits hempty (a := [⟨5, 7, 0⟩]) rfl
  exact ⟨b', hrun⟩

end Program

end Cpplite
