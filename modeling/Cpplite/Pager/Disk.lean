import Cpplite.Pager.Pager

/-!
The file one level up: each page as the fields and live cells a manager would load,
with the byte accounting checked once. Slots left over from deleted cells are not
part of it, so every write of the managers is one update of one page here.
-/
namespace Cpplite

open Exec Search

inductive LogicalPage where
  | none
  | first (header : PagerFirstPageHeader)
  | node (cells : List NodeCell) (right : Nat)
  | leaf (cells : List LeafCell) (prev next : Nat)
  | free (next : Nat)
  | overflow (next : Nat) (content : List Byte)
deriving DecidableEq, Repr

/-- `total_bytes_free` of a node page with `n` cells. -/
def nodeFree (n : Nat) : Nat := pageSize - sizeofNodePageHeader - n * sizeofNodeCell

/-- `total_bytes_free` of a leaf page with `n` cells. -/
def leafFree (n : Nat) : Nat := pageSize - sizeofLeafPageHeader - n * sizeofLeafCell

def Page.logical : Page → LogicalPage
  | .blank => .none
  | .first h => .first h
  | .node h area =>
    if h.numCells ≤ nodeMaxCells ∧ h.totalBytesFree = nodeFree h.numCells then
      .node (area.takeD h.numCells default) h.rightChild
    else .none
  | .leaf h area =>
    if h.numCells ≤ leafMaxCells ∧ h.totalBytesFree = leafFree h.numCells then
      .leaf (area.takeD h.numCells default) h.prevPage h.nextPage
    else .none
  | .free h => .free h.nextFreePage
  | .overflow h content => .overflow h.nextOverflowPage (content.takeD h.numBytes 0)

/-- The logical file: pages, `total_num_pages_`, and the length in pages. -/
@[ext] structure Disk where
  page : Nat → LogicalPage
  total : Nat
  size : Nat

def Pager.disk (s : Pager) : Disk where
  page p := if p = 0 then .none else (s.file.read p).logical
  total := s.totalNumPages
  size := s.file.numPages

namespace Disk

variable {d : Disk} {p q : Nat} {l l' : LogicalPage}

def set (d : Disk) (p : Nat) (l : LogicalPage) : Disk :=
  { d with page := Function.update d.page p l }

/-- One page more at the end of the file. -/
def append (d : Disk) (l : LogicalPage) : Disk :=
  { d with page := Function.update d.page (d.size + 1) l, size := d.size + 1 }

@[simp] theorem set_page_self : (d.set p l).page p = l := by simp [set]

theorem set_page_of_ne (h : q ≠ p) : (d.set p l).page q = d.page q := by
  simp [set, Function.update_of_ne h]

theorem set_page : (d.set p l).page q = if q = p then l else d.page q := by
  simp [set, Function.update_apply]

@[simp] theorem set_total : (d.set p l).total = d.total := rfl

@[simp] theorem set_size : (d.set p l).size = d.size := rfl

@[simp] theorem set_set : (d.set p l).set p l' = d.set p l' := by simp [set]

theorem set_comm (h : p ≠ q) : (d.set p l).set q l' = (d.set q l').set p l := by
  simp [set, Function.update_comm h]

theorem set_self (h : d.page p = l) : d.set p l = d := by
  subst h
  simp [set]

theorem append_page : (d.append l).page q = if q = d.size + 1 then l else d.page q := by
  simp [append, Function.update_apply]

@[simp] theorem append_total : (d.append l).total = d.total := rfl

@[simp] theorem append_size : (d.append l).size = d.size + 1 := rfl

end Disk

section Raw

variable {s : Pager} {p : Nat} {l : LogicalPage} {page : Page}

theorem disk_page_ne_zero (h : s.disk.page p ≠ .none) : p ≠ 0 := by
  rintro rfl
  simp [Pager.disk] at h

theorem disk_page_le (h : s.disk.page p ≠ .none) : p ≤ s.file.numPages := by
  by_contra hp
  have : s.file.read p = .blank := by simp [OsFile.read, hp]
  simp [Pager.disk, this, Page.logical] at h

theorem read_logical (h : s.disk.page p ≠ .none) :
    (s.file.read p).logical = s.disk.page p := by
  simp [Pager.disk, disk_page_ne_zero h]

theorem readPage_ok (h : p ≠ 0) (msg : String) :
    readPage p msg s = .ok (s.file.read p) s := by
  simp only [readPage, h, if_false]
  rfl

/-- The state after one page was written in place. -/
def Pager.write (s : Pager) (p : Nat) (page : Page) : Pager :=
  { s with file := s.file.write p page }

theorem writePage_ok (h : p ≠ 0) (msg : String) :
    writePage p page msg s = .ok () (s.write p page) := by
  simp only [writePage, h, if_false]
  rfl

theorem read_write : (s.write p page).file.read p = page := by
  simp [Pager.write, OsFile.write, OsFile.read]

@[simp] theorem write_write {page' : Page} : (s.write p page).write p page' = s.write p page' := by
  simp [Pager.write, OsFile.write]

theorem disk_write {g : Page} (h0 : p ≠ 0) (hp : p ≤ s.file.numPages) :
    (s.write p g).disk = s.disk.set p g.logical := by
  have hm : max s.file.numPages p = s.file.numPages := by omega
  ext q
  · by_cases hq : q = p
    · subst hq
      simp [Pager.disk, h0, read_write]
    · simp [Pager.disk, Disk.set_page_of_ne hq, Pager.write, OsFile.write, OsFile.read, hm,
        Function.update_of_ne hq]
  · rfl
  · simp [Pager.disk, Pager.write, OsFile.write, hm]

theorem disk_osAppend :
    Returns (osAppend page) s (fun _ t => t.disk = s.disk.append page.logical) := by
  refine ⟨(), s.write (s.file.numPages + 1) page, rfl, ?_⟩
  ext q
  · simp only [Disk.append_page]
    by_cases hq : q = s.file.numPages + 1
    · subst hq
      simp [Pager.disk, Pager.write, OsFile.write, OsFile.read]
    · have hiff : q ≤ s.file.numPages + 1 ↔ q ≤ s.file.numPages := by omega
      simp [Pager.disk, Pager.write, OsFile.write, OsFile.read, hq, hiff]
  · rfl
  · simp [Pager.disk, Pager.write, OsFile.write]

end Raw

/-- The program returns `a` and leaves the logical file `d`. -/
def Yields {α : Type} (x : PagerM α) (s : Pager) (a : α) (d : Disk) : Prop :=
  Returns x s (fun b t => b = a ∧ t.disk = d)

theorem Yields.bind {α β : Type} {x : PagerM α} {s : Pager} {a : α} {d : Disk}
    {f : α → PagerM β} {Q : β → Pager → Prop} (hx : Yields x s a d)
    (hf : ∀ t, t.disk = d → Returns (f a) t Q) : Returns (x >>= f) s Q :=
  Returns.bind hx (by rintro b t ⟨rfl, ht⟩; exact hf t ht)

/-! ### Cell areas -/

section Area

variable {α : Type} [Inhabited α] {area cells : List α} {i : Nat}

@[simp] theorem length_overwrite_takeD (area cells : List α) :
    (overwrite area 0 cells).takeD cells.length default = cells := by
  have h : overwrite area 0 cells = cells ++ area.drop cells.length := by simp [overwrite]
  rw [h, List.takeD_eq_take _ (by simp)]
  simp

/-- Overwriting one live slot changes that cell alone. -/
theorem takeD_overwrite_single {n : Nat} (a : α) (hi : i < n) :
    (overwrite area i [a]).takeD n default = (area.takeD n default).set i a := by
  apply List.ext_getElem?
  intro j
  have get : ∀ (l : List α) (m k : Nat), (l.takeD m default)[k]? =
      if k < m then some (l[k]?.getD default) else none := by
    intro l
    induction l with
    | nil =>
      intro m k
      simp [List.takeD_nil, List.getElem?_replicate]
    | cons x l ih =>
      intro m k
      cases m with
      | zero => simp
      | succ m =>
        cases k with
        | zero => simp [List.takeD]
        | succ k => simp [List.takeD, ih]
  rw [List.getElem?_set, get, get]
  by_cases hj : i = j
  · subst hj
    simp [hi, overwrite]
  · by_cases hjn : j < n
    · simp only [hjn, if_true, hj, if_false, Option.some.injEq]
      rcases lt_or_gt_of_ne hj with hlt | hgt
      · simp only [overwrite, List.append_assoc]
        rw [List.getElem?_append_right (by simp; omega)]
        simp only [List.takeD_length]
        rw [List.getElem?_append_right (by simp; omega)]
        simp [List.getElem?_drop]
        congr 2
        omega
      · simp only [overwrite, List.append_assoc]
        rw [List.getElem?_append_left (by simpa using hgt), get]
        simp [hgt]
    · simp [hj, hjn]

end Area

end Cpplite
