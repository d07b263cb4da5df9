import Cpplite.Pager.LayoutSpec
import Cpplite.Pager.ManagerRuns

/-!
The calls of the page managers on pages and on bytes. Where the call on pages returns, the
one on the bytes that spell them returns the same and leaves bytes that spell the result,
as long as it is given what earlier calls returned: managers whose byte counts add up and
page numbers a seek can reach.
-/
namespace Cpplite

open Exec Search ByteFile LittleEndian Bytes

/-! ### What the calls pass on -/

structure FirstPageManager.Fits (fpm : FirstPageManager) : Prop where
  numPages_le : fpm.numPages ≤ pageLimit
  freePageHead_le : fpm.freePageHead ≤ pageLimit

def FreePageManager.Fits (fpm : FreePageManager) : Prop := fpm.nextFreePage ≤ pageLimit

structure OverflowPageManager.Fits (opm : OverflowPageManager) : Prop where
  next_le : opm.nextOverflowPage ≤ pageLimit
  numBytes_le : opm.numBytes ≤ chunkSize

def NodeCell.Fits (c : NodeCell) : Prop := c.leftChild < 2 ^ 64

structure LeafCell.Fits (c : LeafCell) : Prop where
  payloadSize_lt : c.payloadSize < 2 ^ 32
  recordPage_lt : c.recordPage < 2 ^ 64

/-- The manager of a node page whose cells and free bytes make up the page. -/
structure NodePageManager.Fits (npm : NodePageManager) : Prop where
  numCells_eq : npm.numCells = npm.cells.length
  bytes_eq : sizeofNodePageHeader + npm.cells.length * sizeofNodeCell + npm.totalBytesFree = pageSize
  cells : ∀ c ∈ npm.cells, c.Fits
  rightChild_lt : npm.rightChild < 2 ^ 64

/-- The manager of a leaf page whose cells and free bytes make up the page. -/
structure LeafPageManager.Fits (lpm : LeafPageManager) : Prop where
  numCells_eq : lpm.numCells = lpm.cells.length
  bytes_eq : sizeofLeafPageHeader + lpm.cells.length * sizeofLeafCell + lpm.totalBytesFree = pageSize
  cells : ∀ c ∈ lpm.cells, c.Fits
  prevPage_lt : lpm.prevPage < 2 ^ 64
  nextPage_lt : lpm.nextPage < 2 ^ 64

section Loads

variable {n p : Nat} {s t : Pager} {b : BytePager} {page : List Byte} {α : Type} {a : α}
  {f : Page → PagerM α} {msg : String}

/-- A page has been read. -/
theorem readPage_eq_ok (h : (readPage p msg >>= f) s = .ok a t) :
    p ≠ 0 ∧ f (s.file.read p) s = .ok a t := by
  by_cases h0 : p = 0
  · subst h0
    rw [bind_error (show readPage 0 msg s = .error (.runtimeError msg) s from rfl)] at h
    cases h
  · exact ⟨h0, by rwa [bind_ok (readPage_ok h0 msg)] at h⟩

/-- Such a page has its bytes. -/
theorem Spelled.read_kept (h : Spelled n s b) (h0 : p ≠ 0) (hne : s.file.read p ≠ .blank)
    (msg : String) : ∃ page, Bytes.readPage p msg b = .ok (page, pageSize) b ∧
      page.length = pageSize ∧ (s.file.read p).SpelledBy page := by
  have hp : p ≤ pageLimit := (Spelled.le_of_ne_blank hne).trans h.numPages_le
  obtain ⟨page, bytesRead, hread, hlen, hspelled, hcount⟩ := h.read_page h0 msg hp
  rw [hcount hne] at hread
  exact ⟨page, hread, hlen, hspelled⟩

/-- The type whose tag stands in the page; a blank page carries tag 0. -/
def Page.taggedAs : Page → PagerPageType
  | .blank | .free _ => .freePage
  | .first _ => .firstPage
  | .node _ _ => .nodePage
  | .leaf _ _ => .leafPage
  | .overflow _ _ => .overflowPage

theorem Page.SpelledBy.pageType_eq {g : Page} (h : g.SpelledBy page) :
    pageTypeOf page = g.taggedAs.tag := by
  cases g with
  | blank =>
    rw [show page = List.replicate pageSize 0 from h, pageTypeOf, field_zeros]
    rfl
  | _ => exact h.1.pageType_eq

theorem Page.SpelledBy.checksum_eq {g : Page} (h : g.SpelledBy page) (hg : g ≠ .blank) :
    checksumOf page = checksum := by
  cases g with
  | blank => exact absurd rfl hg
  | _ => exact h.1.checksum_eq

/-- What an unchecked read of a free page's header takes for its link. -/
theorem Page.SpelledBy.firstField {g : Page} (h : g.SpelledBy page) :
    (PagerFreePageHeader.fromBytes page).nextFreePage = g.firstField ∧ g.firstField ≤ pageLimit := by
  have hcount : ∀ {k m sz fr : Nat}, k + m * sz + fr = pageSize → 0 < sz → m ≤ pageLimit := by
    intro k m sz fr hk hsz
    have hmul : m ≤ m * sz := Nat.le_mul_of_pos_right m hsz
    have hlim : pageSize ≤ pageLimit := by decide
    omega
  cases g with
  | blank =>
    rw [show page = List.replicate pageSize 0 from h, PagerFreePageHeader.fromBytes, field_zeros]
    exact ⟨rfl, Nat.zero_le _⟩
  | first hd =>
    obtain ⟨-, rfl, hn, -⟩ := h
    exact ⟨rfl, hn⟩
  | node hd area =>
    obtain ⟨-, rfl, hacc, -⟩ := h
    exact ⟨rfl, hcount hacc (by decide)⟩
  | leaf hd area =>
    obtain ⟨-, rfl, hacc, -⟩ := h
    exact ⟨rfl, hcount hacc (by decide)⟩
  | free hd =>
    obtain ⟨-, rfl, hn⟩ := h
    exact ⟨rfl, hn⟩
  | overflow hd content =>
    obtain ⟨-, rfl, hn, -⟩ := h
    exact ⟨rfl, hn⟩

variable [Build]

omit [Build] in
theorem load_first {hd : PagerFirstPageHeader} (h : Spelled n s b) (hr : s.file.read 1 = .first hd) :
    Bytes.FirstPageManager.load b = .ok ⟨hd.numPages, hd.freePageHead, hd.nextOid⟩ b ∧
      hd.numPages ≤ pageLimit ∧ hd.freePageHead ≤ pageLimit := by
  have hne : s.file.read 1 ≠ .blank := by simp [hr]
  obtain ⟨page, hlen, hread, hspelled⟩ := h.page_bytes Nat.one_ne_zero (Spelled.le_of_ne_blank hne)
  rw [hr] at hspelled
  obtain ⟨htag, rfl, hn, hf⟩ := hspelled
  refine ⟨?_, hn, hf⟩
  rw [Nat.sub_self, Nat.zero_mul] at hread
  rw [Bytes.FirstPageManager.load, bind_ok osRead_eq, hread, padTo_of_le hlen.ge]
  simp only [htag.checksum_eq, if_true]
  rfl

omit [Build] in
theorem follows_firstLoad : Follows (Spelled n) (Same FirstPageManager.Fits)
    FirstPageManager.load Bytes.FirstPageManager.load := by
  intro s b h fpm t hrun
  rw [FirstPageManager.load, bind_ok get_ok] at hrun
  cases hr : s.file.read 1 with
  | first hd =>
    rw [hr] at hrun
    cases hrun
    obtain ⟨hload, hn, hf⟩ := load_first h hr
    exact ⟨_, b, hload, ⟨rfl, hn, hf⟩, h⟩
  | _ =>
    rw [hr] at hrun
    cases hrun

theorem follows_freeLoad : Follows (Spelled n) (Same FreePageManager.Fits)
    (FreePageManager.load p) (Bytes.FreePageManager.load p) := by
  intro s b h fpm t hrun
  obtain ⟨h0, hrun⟩ := readPage_eq_ok hrun
  have hload : s.file.read p ≠ .blank → (Build.ndebug = true ∨ (s.file.read p).taggedAs = .freePage) →
      Bytes.FreePageManager.load p b = .ok ⟨p, (s.file.read p).firstField⟩ b ∧
        (s.file.read p).firstField ≤ pageLimit := by
    intro hne hassert
    obtain ⟨page, hread, hlen, hspelled⟩ := h.read_kept h0 hne "[FreePageManager]: Failed to seek"
    obtain ⟨hfield, hle⟩ := hspelled.firstField
    refine ⟨?_, hle⟩
    rw [Bytes.FreePageManager.load, bind_ok hread]
    have hsize : sizeofFreePageHeader ≤ pageSize := by decide
    simp only [hspelled.checksum_eq hne, hsize, and_self, if_true, hfield]
    exact bind_ok (assert_ok (hassert.imp_right (fun ht => by rw [hspelled.pageType_eq, ht])))
  cases hr : s.file.read p with
  | blank =>
    rw [hr] at hrun
    cases hrun
  | free hd =>
    rw [hr] at hrun hload
    cases hrun
    obtain ⟨hb, hle⟩ := hload (by simp) (.inr rfl)
    exact ⟨_, b, hb, ⟨rfl, hle⟩, h⟩
  | _ =>
    -- the tag is looked at by the assertion alone
    rw [hr] at hrun hload
    obtain ⟨_, u, hassert, hrun⟩ := bind_eq_ok hrun
    cases hnd : Build.ndebug with
    | false =>
      rw [assert_fails hnd id] at hassert
      cases hassert
    | true =>
      rw [assert_ok (.inl hnd)] at hassert
      cases hassert
      cases hrun
      obtain ⟨hb, hle⟩ := hload (by simp) (.inl hnd)
      exact ⟨_, _, hb, ⟨rfl, hle⟩, h⟩

theorem follows_overflowLoad : Follows (Spelled n) (Same OverflowPageManager.Fits)
    (OverflowPageManager.load p) (Bytes.OverflowPageManager.load p) := by
  intro s b h opm t hrun
  obtain ⟨h0, hrun⟩ := readPage_eq_ok hrun
  cases hr : s.file.read p with
  | overflow hd content =>
    rw [hr] at hrun
    cases hrun
    have hne : s.file.read p ≠ .blank := by simp [hr]
    obtain ⟨page, hread, hlen, hspelled⟩ :=
      h.read_kept h0 hne "[OverflowPageManager]: Failed to seek"
    rw [hr] at hspelled
    obtain ⟨htag, rfl, hnext, -, hbytes, -⟩ := hspelled
    refine ⟨_, b, ?_, ⟨rfl, hnext, hbytes⟩, h⟩
    rw [Bytes.OverflowPageManager.load, bind_ok hread]
    have hsize : sizeofOverflowPageHeader ≤ pageSize := by decide
    simp only [htag.checksum_eq, hsize, and_self, if_true]
    exact bind_ok (assert_ok (.inr htag.pageType_eq))
  | blank =>
    rw [hr] at hrun
    cases hrun
  | _ =>
    rw [hr] at hrun
    exact absurd hrun refuse_ne_ok

omit [Build] in
/-- The cells of a page as they are copied out of its bytes. -/
theorem copyCells_eq [Inhabited α] {cellAt : List Byte → Nat → α} {place size k maxCells : Nat}
    {area : List α} (h : ∀ j < maxCells, cellAt page (place + j * size) = area[j]?.getD default)
    (hk : k ≤ maxCells) (hlen : place + k * size ≤ page.length) :
    copyCells cellAt page place size k b = .ok (area.takeD k default) b := by
  have heq : (List.range k).map (fun i => cellAt page (place + i * size)) =
      area.takeD k default := by
    apply List.ext_getElem?
    intro j
    by_cases hj : j < k
    · rw [List.getElem?_map, List.getElem?_range hj, getElem?_takeD hj, Option.map_some,
        h j (by omega)]
    · rw [List.getElem?_eq_none (by simpa using hj), List.getElem?_eq_none (by simpa using hj)]
  rw [copyCells, if_pos hlen, heq]
  rfl

theorem follows_nodeLoad : Follows (Spelled n) (Same NodePageManager.Fits)
    (NodePageManager.load p) (Bytes.NodePageManager.load p) := by
  intro s b h npm t hrun
  obtain ⟨h0, hrun⟩ := readPage_eq_ok hrun
  cases hr : s.file.read p with
  | node hd area =>
    rw [hr] at hrun
    cases hrun
    have hne : s.file.read p ≠ .blank := by simp [hr]
    obtain ⟨page, hread, hlen, hspelled⟩ := h.read_kept h0 hne "[NodePageManager]: Failed to seek"
    rw [hr] at hspelled
    obtain ⟨htag, rfl, hacc, hcells⟩ := hspelled
    have hsizes : sizeofNodePageHeader = 32 ∧ sizeofNodeCell = 16 ∧ pageSize = 4096 ∧
        nodeMaxCells = 254 := ⟨rfl, rfl, rfl, rfl⟩
    have hmax : (PagerNodePageHeader.fromBytes page).numCells ≤ nodeMaxCells := by
      simp only [hsizes] at hacc ⊢
      omega
    have hfree : (PagerNodePageHeader.fromBytes page).totalBytesFree < 2 ^ 16 := by
      simp only [hsizes] at hacc
      omega
    have hcopy := copyCells_eq (b := b) hcells hmax (by omega)
    refine ⟨_, b, ?_, ⟨rfl, ?_, ?_, ?_, ?_⟩, h⟩
    · rw [Bytes.NodePageManager.load, bind_ok hread]
      simp only [htag.checksum_eq, if_true]
      rw [bind_ok (assert_ok (.inr htag.pageType_eq)), bind_ok hcopy]
      rfl
    · exact (List.takeD_length _ _ _).symm
    · simpa only [List.takeD_length, Nat.mod_eq_of_lt hfree] using hacc
    · intro c hc
      obtain ⟨j, hj⟩ := List.getElem?_of_mem hc
      have hlt : j < (PagerNodePageHeader.fromBytes page).numCells := by
        simpa using (List.getElem?_eq_some_iff.mp hj).1
      rw [getElem?_takeD hlt, ← hcells j (by omega)] at hj
      cases hj
      exact field_lt 8 page _
    · exact field_lt 8 page _
  | blank =>
    rw [hr] at hrun
    cases hrun
  | _ =>
    rw [hr] at hrun
    exact absurd hrun refuse_ne_ok

theorem follows_leafLoad : Follows (Spelled n) (Same LeafPageManager.Fits)
    (LeafPageManager.load p) (Bytes.LeafPageManager.load p) := by
  intro s b h lpm t hrun
  obtain ⟨h0, hrun⟩ := readPage_eq_ok hrun
  cases hr : s.file.read p with
  | leaf hd area =>
    rw [hr] at hrun
    cases hrun
    have hne : s.file.read p ≠ .blank := by simp [hr]
    obtain ⟨page, hread, hlen, hspelled⟩ := h.read_kept h0 hne "[LeafPageManager]: Failed to seek"
    rw [hr] at hspelled
    obtain ⟨htag, rfl, hacc, hcells⟩ := hspelled
    have hsizes : sizeofLeafPageHeader = 40 ∧ sizeofLeafCell = 16 ∧ pageSize = 4096 ∧
        leafMaxCells = 253 := ⟨rfl, rfl, rfl, rfl⟩
    have hmax : (PagerLeafPageHeader.fromBytes page).numCells ≤ leafMaxCells := by
      simp only [hsizes] at hacc ⊢
      omega
    have hfree : (PagerLeafPageHeader.fromBytes page).totalBytesFree < 2 ^ 16 := by
      simp only [hsizes] at hacc
      omega
    have hcopy := copyCells_eq (b := b) hcells hmax (by omega)
    refine ⟨_, b, ?_, ⟨rfl, ?_, ?_, ?_, ?_, ?_⟩, h⟩
    · rw [Bytes.LeafPageManager.load, bind_ok hread]
      have hsize : sizeofLeafPageHeader ≤ pageSize := by decide
      simp only [htag.checksum_eq, hsize, and_self, if_true]
      rw [bind_ok (assert_ok (.inr htag.pageType_eq)), bind_ok hcopy]
      rfl
    · exact (List.takeD_length _ _ _).symm
    · simpa only [List.takeD_length, Nat.mod_eq_of_lt hfree] using hacc
    · intro c hc
      obtain ⟨j, hj⟩ := List.getElem?_of_mem hc
      have hlt : j < (PagerLeafPageHeader.fromBytes page).numCells := by
        simpa using (List.getElem?_eq_some_iff.mp hj).1
      rw [getElem?_takeD hlt, ← hcells j (by omega)] at hj
      cases hj
      exact ⟨field_lt 4 page _, field_lt 8 page _⟩
    · exact field_lt 8 page _
    · exact field_lt 8 page _
  | blank =>
    rw [hr] at hrun
    cases hrun
  | _ =>
    rw [hr] at hrun
    exact absurd hrun refuse_ne_ok

end Loads

/-! ### Writes -/

section Writes

variable {n p i place : Nat} {s t : Pager} {b : BytePager} {data : List Byte} {msg msg' : String}

theorem follows_assert {S : Pager → BytePager → Prop} [Build] {c : Prop} [Decidable c] :
    Follows S (Same (fun _ => Build.ndebug = true ∨ c)) (assert c) (assert c) := by
  by_cases hc : Build.ndebug = true ∨ c
  · intro s b h a t hrun
    rw [assert_ok hc] at hrun
    cases hrun
    exact ⟨(), b, assert_ok hc, ⟨rfl, hc⟩, h⟩
  · refine follows_of_never fun s a t hrun => ?_
    rw [assert_fails (by simpa using fun h => hc (.inl h)) (fun h => hc (.inr h))] at hrun
    cases hrun

/-- A field of the first page's header. -/
theorem follows_writeFirstField {f : PagerFirstPageHeader → PagerFirstPageHeader}
    (hdata : place + data.length ≤ pageSize)
    (hf : ∀ hd page, page.length = pageSize → (Page.first hd).SpelledBy page →
      (Page.first (f hd)).SpelledBy (pwrite page data place)) :
    Follows (Spelled n) Eq (writeFirstField f) (Bytes.writeFirstField place data msg) := by
  intro s b h a t hrun
  rw [writeFirstField, bind_ok get_ok] at hrun
  cases hr : s.file.read 1 with
  | first hd =>
    rw [hr] at hrun
    cases hrun
    have hne : s.file.read 1 ≠ .blank := by simp [hr]
    have hplace : place < 2 ^ 63 := by
      have hsize : pageSize = 4096 := rfl
      omega
    refine ⟨(), _, (bind_ok (osSeek_ok hplace)).trans osWrite_eq, rfl, ?_⟩
    have hw := h.write_within (g := .first (f hd)) Nat.one_ne_zero (Spelled.le_of_ne_blank hne) hdata
      (fun page hlen hspelled => hf hd page hlen (hr ▸ hspelled))
    rwa [Nat.sub_self, Nat.zero_mul, Nat.zero_add] at hw
  | _ =>
    rw [hr] at hrun
    cases hrun

/-- A write into a page that was found in the file. -/
theorem follows_writeAt {x : PagerM Unit} (hdata : place + data.length ≤ pageSize)
    (hplace : place < pageSize)
    (hx : ∀ s a t, x s = .ok a t → p ≠ 0 ∧ s.file.read p ≠ .blank ∧ ∃ g, t = s.write p g ∧
      ∀ page, page.length = pageSize → (s.file.read p).SpelledBy page →
        g.SpelledBy (pwrite page data place)) :
    Follows (Spelled n) Eq x (writeAt p place data msg) := by
  intro s b h a t hrun
  obtain ⟨h0, hne, g, rfl, hg⟩ := hx s a t hrun
  have hin := Spelled.le_of_ne_blank hne
  exact ⟨(), _, writeAt_ok h0 (hin.trans h.numPages_le) hplace, rfl,
    h.write_within h0 hin hdata hg⟩

theorem writePage_eq_ok {a : Unit} {g : Page} (h0 : p ≠ 0) (h : writePage p g msg s = .ok a t) :
    t = s.write p g := by
  rw [writePage_ok h0] at h
  cases h
  rfl

/-- A page written whole. -/
theorem follows_writePage {g : Page} (msg msg' : String) (hp : p + n ≤ pageLimit)
    (hdata : data.length = pageSize) (hg : g.SpelledBy data) :
    Follows (Spelled n) Eq (writePage p g msg) (writeAt p 0 data msg') := by
  intro s b h a t hrun
  by_cases h0 : p = 0
  · subst h0
    cases hrun
  · rw [writePage_ok h0] at hrun
    cases hrun
    exact ⟨(), _, writeAt_ok h0 (by omega) (by decide), rfl, h.write_page h0 hp hdata hg⟩

/-! ### Node pages -/

section Node

variable {npm : NodePageManager} {cells : List NodeCell}

theorem nodeCellBytes_eq (b : BytePager) (h : ∀ c ∈ cells, c.Fits) : ∃ records padding,
    nodeCellBytes cells b = .ok records.flatten { b with padding := padding } ∧
      (∀ record ∈ records, record.length = sizeofNodeCell) ∧
      List.Forall₂ (fun c record => NodeCell.fromBytes record 0 = c) cells records := by
  induction cells generalizing b with
  | nil => exact ⟨[], b.padding, rfl, by simp, .nil⟩
  | cons c cells ih =>
    obtain ⟨hc, hcells⟩ := List.forall_mem_cons.mp h
    have hpad : indeterminate 4 b = .ok ((List.range 4).map b.padding)
      { b with padding := fun i => b.padding (i + 4) } := rfl
    obtain ⟨records, padding, hrun, hlen, hread⟩ :=
      ih { b with padding := fun i => b.padding (i + 4) } hcells
    refine ⟨c.toBytes ((List.range 4).map b.padding) :: records, padding, ?_, ?_, ?_⟩
    · rw [nodeCellBytes, bind_ok hpad, bind_ok hrun]
      rfl
    · intro record hr
      rcases List.mem_cons.mp hr with rfl | hr
      · simp [NodeCell.toBytes, sizeofNodeCell]
      · exact hlen record hr
    · exact .cons (NodeCell.fromBytes_toBytes (by simp) hc) hread

theorem writeNodeCells_eq_ok {a : Unit} (h : npm.writeCells i cells msg s = .ok a t) :
    npm.pgno ≠ 0 ∧ ∃ hd area, s.file.read npm.pgno = .node hd area ∧
      t = s.write npm.pgno (.node hd (overwrite area i cells)) := by
  obtain ⟨h0, hrun⟩ := readPage_eq_ok h
  cases hr : s.file.read npm.pgno with
  | node hd area =>
    rw [hr] at hrun
    exact ⟨h0, hd, area, rfl, writePage_eq_ok h0 hrun⟩
  | _ =>
    rw [hr] at hrun
    cases hrun

theorem follows_writeNodeCells (npm : NodePageManager) (hc : ∀ c ∈ cells, c.Fits)
    (hfit : sizeofNodePageHeader + (i + cells.length) * sizeofNodeCell ≤ pageSize)
    (hi : sizeofNodePageHeader + i * sizeofNodeCell < pageSize) :
    Follows (Spelled n) Eq (npm.writeCells i cells msg)
      (Bytes.NodePageManager.writeCells npm i cells msg) := by
  intro s b h a t hrun
  obtain ⟨h0, hd, area, hr, rfl⟩ := writeNodeCells_eq_ok hrun
  have hin := Spelled.le_of_ne_blank (show s.file.read npm.pgno ≠ .blank by simp [hr])
  obtain ⟨records, padding, hbytes, hlen, hread⟩ := nodeCellBytes_eq b hc
  have hplace : sizeofNodePageHeader + i * sizeofNodeCell + records.flatten.length ≤ pageSize := by
    rw [length_flatten_pages hlen, ← hread.length_eq, Nat.add_assoc, ← Nat.add_mul]
    exact hfit
  refine ⟨(), _, ?_, rfl, (h.pad padding).write_within h0 hin hplace ?_⟩
  · rw [Bytes.NodePageManager.writeCells, bind_ok hbytes]
    exact writeAt_ok h0 (hin.trans h.numPages_le) hi
  · intro page hsize hold
    rw [hr] at hold
    exact spelledBy_node_cells hsize hold hlen hread

theorem follows_writeNodeHeader (hf : npm.Fits) : Follows (Spelled n) Eq (npm.writeHeader msg)
    (Bytes.NodePageManager.writeHeader npm msg') := by
  refine follows_writeAt ?_ (by decide) ?_
  · rw [PagerNodePageHeader.length_toBytes]
    decide
  · intro s a t hrun
    obtain ⟨h0, hrun⟩ := readPage_eq_ok hrun
    cases hr : s.file.read npm.pgno with
    | node hd area =>
      rw [hr] at hrun
      refine ⟨h0, by simp, _, writePage_eq_ok h0 hrun, ?_⟩
      intro page hlen hold
      refine spelledBy_node_header hlen hold ?_ hf.rightChild_lt
      simpa only [hf.numCells_eq] using hf.bytes_eq
    | _ =>
      rw [hr] at hrun
      cases hrun

end Node

/-! ### Leaf pages -/

section Leaf

variable {lpm : LeafPageManager}

theorem leafCells_records (h : ∀ c ∈ lpm.cells, c.Fits) :
    (∀ record ∈ lpm.cells.map LeafCell.toBytes, record.length = sizeofLeafCell) ∧
      List.Forall₂ (fun c record => LeafCell.fromBytes record 0 = c) lpm.cells
        (lpm.cells.map LeafCell.toBytes) := by
  constructor
  · intro record hr
    obtain ⟨c, -, rfl⟩ := List.mem_map.mp hr
    simp [LeafCell.toBytes, sizeofLeafCell]
  · rw [List.forall₂_map_right_iff, List.forall₂_same]
    exact fun c hc => LeafCell.fromBytes_toBytes (h c hc).payloadSize_lt (h c hc).recordPage_lt

theorem follows_writeLeafCells (hc : ∀ c ∈ lpm.cells, c.Fits)
    (hfit : sizeofLeafPageHeader + lpm.cells.length * sizeofLeafCell ≤ pageSize) :
    Follows (Spelled n) Eq (lpm.writeCells msg) (Bytes.LeafPageManager.writeCells lpm msg') := by
  obtain ⟨hlen, hread⟩ := leafCells_records hc
  refine follows_writeAt ?_ (by decide) ?_
  · rw [List.flatMap_def, length_flatten_pages hlen, List.length_map]
    exact hfit
  · intro s a t hrun
    obtain ⟨h0, hrun⟩ := readPage_eq_ok hrun
    cases hr : s.file.read lpm.pgno with
    | leaf hd area =>
      rw [hr] at hrun
      refine ⟨h0, by simp, _, writePage_eq_ok h0 hrun, ?_⟩
      intro page hsize hold
      rw [List.flatMap_def]
      exact spelledBy_leaf_cells hsize hold hlen hread
    | _ =>
      rw [hr] at hrun
      cases hrun

theorem follows_writeLeafHeader (hf : lpm.Fits) : Follows (Spelled n) Eq (lpm.writeHeader msg)
    (Bytes.LeafPageManager.writeHeader lpm msg') := by
  have hacc : sizeofLeafPageHeader + lpm.numCells * sizeofLeafCell + lpm.totalBytesFree = pageSize := by
    simpa only [hf.numCells_eq] using hf.bytes_eq
  have hnum : lpm.numCells < 2 ^ 64 ∧ lpm.totalBytesFree < 2 ^ 64 := by
    simp only [sizeofLeafPageHeader, sizeofLeafCell, pageSize] at hacc
    omega
  refine follows_writeAt ?_ (by decide) ?_
  · rw [PagerLeafPageHeader.length_toBytes]
    decide
  · intro s a t hrun
    obtain ⟨h0, hrun⟩ := readPage_eq_ok hrun
    cases hr : s.file.read lpm.pgno with
    | leaf hd area =>
      rw [hr] at hrun
      refine ⟨h0, by simp, _, writePage_eq_ok h0 hrun, ?_⟩
      intro page hlen hold
      refine spelledBy_leaf_header hlen hold (PagerLeafPageHeader.length_toBytes _)
        (tagged_toBytes _ _) ?_ hacc
      rw [← List.append_nil (PagerLeafPageHeader.toBytes _)]
      exact PagerLeafPageHeader.fromBytes_toBytes hnum.1 hnum.2 hf.nextPage_lt hf.prevPage_lt
    | _ =>
      rw [hr] at hrun
      cases hrun

theorem follows_setLeafPagePointers {q : Nat} {usePrevPage : Bool} (hf : lpm.Fits)
    (hq : q < 2 ^ 64) : Follows (Spelled n) (Same LeafPageManager.Fits)
    (lpm.setLeafPagePointers q usePrevPage)
    (Bytes.LeafPageManager.setLeafPagePointers lpm q usePrevPage) := by
  intro s b h a t hrun
  obtain ⟨h0, hrun⟩ := readPage_eq_ok hrun
  cases hr : s.file.read lpm.pgno with
  | leaf hd area =>
    rw [hr] at hrun
    have hne : s.file.read lpm.pgno ≠ .blank := by simp [hr]
    have hin := Spelled.le_of_ne_blank hne
    have hlim := hin.trans h.numPages_le
    obtain ⟨u, t', hw, hrun⟩ := bind_eq_ok hrun
    cases writePage_eq_ok h0 hw
    cases hrun
    obtain ⟨page, hlen, hread, hspelled⟩ := h.page_bytes h0 hin
    rw [hr] at hspelled
    obtain ⟨htag, rfl, hacc, -⟩ := hspelled
    obtain ⟨hhead, htagged, hfrom⟩ := patched_header usePrevPage hlen htag hq
    have hold : pread b.bytes sizeofLeafPageHeader ((lpm.pgno - 1) * pageSize + 0) =
        pread page sizeofLeafPageHeader 0 := by
      rw [← hread, pread_pread (by decide), Nat.add_zero]
    have hsize : (pread page sizeofLeafPageHeader 0).length = sizeofLeafPageHeader :=
      length_pread (by rw [hlen]; decide)
    have hfit := h.write_within (g := .leaf (if usePrevPage then
      { PagerLeafPageHeader.fromBytes page with prevPage := q }
      else { PagerLeafPageHeader.fromBytes page with nextPage := q }) area) h0 hin
      (show 0 + _ ≤ pageSize by rw [Nat.zero_add, hhead]; decide)
      (fun bytes hbytes hspelled => spelledBy_leaf_header hbytes (hr ▸ hspelled) hhead htagged hfrom
        (by cases usePrevPage <;> exact hacc))
    refine ⟨_, _, ?_, ⟨rfl, ?_⟩, hfit⟩
    · rw [Bytes.LeafPageManager.setLeafPagePointers, bind_ok (seek_ok h0 hlim (by decide)),
        bind_ok osRead_eq, pageOffset_eq h0 hlim (by decide), hold, padTo_of_le hsize.ge]
      exact bind_ok (writeAt_ok h0 hlim (by decide))
    · cases usePrevPage
      · exact ⟨hf.numCells_eq, hf.bytes_eq, hf.cells, hf.prevPage_lt, hq⟩
      · exact ⟨hf.numCells_eq, hf.bytes_eq, hf.cells, hq, hf.nextPage_lt⟩
  | _ =>
    rw [hr] at hrun
    cases hrun

end Leaf

end Writes

end Cpplite
