import Cpplite.Pager.ManagerSpec
import Cpplite.Lib.Chain

/-!
What `pager.cpp` does to the logical file: page types, page creation, the free list
as a chain through free pages, and overflow chains with the payload they carry.
-/
namespace Cpplite

open Exec Search Linked

/-! ### Reading -/

/-- The type tag of a page that carries one. -/
def LogicalPage.type? : LogicalPage → Option PagerPageType
  | .none => Option.none
  | .first _ => some .firstPage
  | .node _ _ => some .nodePage
  | .leaf _ _ _ => some .leafPage
  | .free _ => some .freePage
  | .overflow _ _ => some .overflowPage

section Reading

variable {s : Pager} {p : Nat} {hd : PagerFirstPageHeader}

theorem page_first (h : s.disk.page 1 = .first hd) :
    s.file.read 1 = .first hd ∧ 1 ≤ s.file.numPages := by
  have hne : s.disk.page 1 ≠ .none := by simp [h]
  have hl := read_logical hne
  rw [h] at hl
  refine ⟨?_, disk_page_le hne⟩
  cases hr : s.file.read 1 with
  | first hd' => rw [hr] at hl; cases hl; rfl
  | node h area | leaf h area =>
    rw [hr] at hl
    simp only [Page.logical] at hl
    split at hl <;> cases hl
  | _ => rw [hr] at hl; cases hl

theorem page_free {q : Nat} (h : s.disk.page p = .free q) :
    s.file.read p = .free ⟨q⟩ ∧ p ≠ 0 ∧ p ≤ s.file.numPages := by
  have hne : s.disk.page p ≠ .none := by simp [h]
  have hl := read_logical hne
  rw [h] at hl
  refine ⟨?_, disk_page_ne_zero hne, disk_page_le hne⟩
  cases hr : s.file.read p with
  | free hd' => rw [hr] at hl; cases hl; rfl
  | node h area | leaf h area =>
    rw [hr] at hl
    simp only [Page.logical] at hl
    split at hl <;> cases hl
  | _ => rw [hr] at hl; cases hl

theorem page_overflow {q : Nat} {content : List Byte} (h : s.disk.page p = .overflow q content) :
    ∃ n raw, s.file.read p = .overflow ⟨q, n⟩ raw ∧ raw.takeD n 0 = content ∧ p ≠ 0 ∧
      p ≤ s.file.numPages := by
  have hne : s.disk.page p ≠ .none := by simp [h]
  have hl := read_logical hne
  rw [h] at hl
  cases hr : s.file.read p with
  | overflow hd raw =>
    rw [hr] at hl
    cases hl
    exact ⟨hd.numBytes, raw, rfl, rfl, disk_page_ne_zero hne, disk_page_le hne⟩
  | node h area | leaf h area =>
    rw [hr] at hl
    simp only [Page.logical] at hl
    split at hl <;> cases hl
  | _ => rw [hr] at hl; cases hl

theorem FirstPageManager.load_ok (h : s.disk.page 1 = .first hd) :
    FirstPageManager.load s = .ok ⟨hd.numPages, hd.freePageHead, hd.nextOid⟩ s := by
  rw [FirstPageManager.load, bind_ok get_ok, (page_first h).1]
  rfl

theorem writeFirstField_yields (h : s.disk.page 1 = .first hd)
    (f : PagerFirstPageHeader → PagerFirstPageHeader) :
    Yields (writeFirstField f) s () (s.disk.set 1 (.first (f hd))) := by
  obtain ⟨hr, hp⟩ := page_first h
  refine ⟨(), s.write 1 (.first (f hd)), ?_, rfl, disk_write (by decide) hp⟩
  rw [writeFirstField, bind_ok get_ok, hr]
  rfl

theorem setFreePageHead_yields (h : s.disk.page 1 = .first hd) (fpm : FirstPageManager) :
    Yields (fpm.setFreePageHead p) s { fpm with freePageHead := p }
      (s.disk.set 1 (.first { hd with freePageHead := p })) :=
  (writeFirstField_yields h _).bind (fun _ ht => returns_pure.mpr ⟨rfl, ht⟩)

theorem setNumPages_yields (h : s.disk.page 1 = .first hd) (fpm : FirstPageManager) (n : Nat) :
    Yields (fpm.setNumPages n) s { fpm with numPages := n }
      (s.disk.set 1 (.first { hd with numPages := n })) :=
  (writeFirstField_yields h _).bind (fun _ ht => returns_pure.mpr ⟨rfl, ht⟩)

theorem setNextOid_yields (h : s.disk.page 1 = .first hd) (fpm : FirstPageManager)
    (oid : DefaultPagerKey) :
    Yields (fpm.setNextOid oid) s { fpm with nextOid := oid }
      (s.disk.set 1 (.first { hd with nextOid := oid })) :=
  (writeFirstField_yields h _).bind (fun _ ht => returns_pure.mpr ⟨rfl, ht⟩)

variable [Build]

theorem getPageType_ok {ty : PagerPageType} (h : (s.disk.page p).type? = some ty) :
    getPageType p s = .ok ty s := by
  have hne : s.disk.page p ≠ .none := by
    intro hn
    simp [hn, LogicalPage.type?] at h
  have h0 := disk_page_ne_zero hne
  rw [getPageType, bind_ok (assert_ok (c := p ≠ nullPage) (.inr h0)), bind_ok (readPage_ok h0 _)]
  rw [← read_logical hne] at h
  cases hr : s.file.read p with
  | node hd area | leaf hd area =>
    rw [hr] at h
    simp only [Page.logical] at h
    split at h
    · cases h
      rfl
    · cases h
  | blank => rw [hr] at h; cases h
  | first _ | free _ | overflow _ _ => rw [hr] at h; cases h; rfl

theorem assertPageType_ok {ty : PagerPageType} (h : (s.disk.page p).type? = some ty) :
    assertPageType p ty s = .ok () s := by
  unfold assertPageType
  split
  · rfl
  · rw [bind_ok (getPageType_ok h)]
    exact assert_ok (.inr rfl)

theorem seekPage_node {cells : List NodeCell} {r : Nat} (h : s.disk.page p = .node cells r)
    (h1 : p ≠ 1) : seekPage p s = .ok (.node (nodeManager p cells r)) s := by
  obtain ⟨area, hr, -, -, h0, -⟩ := page_node h
  simp only [seekPage, h1, if_false]
  rw [bind_ok (readPage_ok h0 _), hr]
  exact bind_ok (NodePageManager.load_ok h)

theorem seekPage_leaf {cells : List LeafCell} {prev next : Nat}
    (h : s.disk.page p = .leaf cells prev next) (h1 : p ≠ 1) :
    seekPage p s = .ok (.leaf (leafManager p cells prev next)) s := by
  obtain ⟨area, hr, -, -, h0, -⟩ := page_leaf h
  simp only [seekPage, h1, if_false]
  rw [bind_ok (readPage_ok h0 _), hr]
  exact bind_ok (LeafPageManager.load_ok h)

end Reading

/-! ### Page creation and the free list -/

/-- The counter agrees with the file and the first page is in place. -/
structure Disk.Sound (d : Disk) : Prop where
  size_eq : d.size = d.total
  first : ∃ hd, d.page 1 = .first hd
  bounded : ∀ p, d.page p ≠ .none → p ≤ d.total

namespace Disk

variable {d : Disk} {l : LogicalPage} {p q : Nat} {hd : PagerFirstPageHeader}

/-- The file after `create_page` of a node or leaf page. -/
def create (d : Disk) (l : LogicalPage) (hd : PagerFirstPageHeader) : Disk where
  page := Function.update (Function.update d.page (d.total + 1) l) 1
    (.first { hd with numPages := d.total + 1 })
  total := d.total + 1
  size := d.size + 1

theorem Sound.pos (h : d.Sound) : 1 ≤ d.total := by
  obtain ⟨hd, h1⟩ := h.first
  exact h.bounded 1 (by simp [h1])

theorem Sound.page_fresh (h : d.Sound) (hp : d.total < p) : d.page p = .none := by
  by_contra hne
  exact absurd (h.bounded p hne) (not_le.mpr hp)

theorem Sound.set (h : d.Sound) (hp : p ≠ 1) (hb : p ≤ d.total) : (d.set p l).Sound := by
  obtain ⟨hd, h1⟩ := h.first
  refine ⟨h.size_eq, ⟨hd, by rw [set_page_of_ne (Ne.symm hp), h1]⟩, ?_⟩
  intro q hq
  by_cases hqp : q = p
  · subst hqp
    exact hb
  · rw [set_page_of_ne hqp] at hq
    exact h.bounded q hq

theorem Sound.set_first (h : d.Sound) : (d.set 1 (.first hd)).Sound := by
  refine ⟨h.size_eq, ⟨hd, by simp⟩, ?_⟩
  intro q hq
  by_cases hqp : q = 1
  · subst hqp
    exact h.pos
  · rw [set_page_of_ne hqp] at hq
    exact h.bounded q hq

@[simp] theorem create_total : (d.create l hd).total = d.total + 1 := rfl

@[simp] theorem create_size : (d.create l hd).size = d.size + 1 := rfl

@[simp] theorem create_page_one :
    (d.create l hd).page 1 = .first { hd with numPages := d.total + 1 } := by
  simp [create]

theorem Sound.create_page_new (h : d.Sound) : (d.create l hd).page (d.total + 1) = l := by
  have := h.pos
  simp [create, Function.update_of_ne (show d.total + 1 ≠ 1 by omega)]

theorem create_page_of_ne (h1 : q ≠ 1) (hq : q ≠ d.total + 1) :
    (d.create l hd).page q = d.page q := by
  simp [create, Function.update_of_ne h1, Function.update_of_ne hq]

theorem Sound.create (h : d.Sound) : (d.create l hd).Sound := by
  refine ⟨by simp [h.size_eq], ⟨_, create_page_one⟩, ?_⟩
  intro q hq
  by_cases h1 : q = 1
  · subst h1
    simp
  by_cases hn : q = d.total + 1
  · simp [hn]
  · rw [create_page_of_ne h1 hn] at hq
    have := h.bounded q hq
    rw [create_total]
    omega

end Disk

section Creation

variable {s : Pager} {p : Nat} {hd : PagerFirstPageHeader} {page : Page} [Build]

omit [Build] in
theorem appendPage_yields (hs : s.disk.Sound) (h : s.disk.page 1 = .first hd) :
    Yields (appendPage page) s (s.disk.total + 1) (s.disk.create page.logical hd) := by
  have hpos := hs.pos
  have hsz := hs.size_eq
  rw [Yields, appendPage]
  refine Returns.bind_eq get_ok ?_
  refine disk_osAppend.bind ?_
  intro _ t ht
  refine Returns.bind_eq (a := ()) (t := { t with totalNumPages := s.totalNumPages + 1 }) rfl ?_
  have ht' : ({ t with totalNumPages := s.totalNumPages + 1 } : Pager).disk =
      { s.disk.append page.logical with total := s.disk.total + 1 } := by
    rw [← ht]
    rfl
  generalize ({ t with totalNumPages := s.totalNumPages + 1 } : Pager) = u at ht'
  have h1 : u.disk.page 1 = .first hd := by
    rw [ht']
    simp only [Disk.append_page, show (1 : Nat) ≠ s.disk.size + 1 by omega, if_false, h]
  refine Returns.bind_eq (FirstPageManager.load_ok h1) ?_
  refine (setNumPages_yields h1 _ _).bind ?_
  intro v hv
  refine returns_pure.mpr ⟨rfl, ?_⟩
  rw [hv, ht']
  simp only [Disk.set, Disk.create, Disk.append, hsz]
  rfl

theorem createLeafPage_yields (hs : s.disk.Sound) (h : s.disk.page 1 = .first hd) :
    Yields (createPage .leafPage) s (s.disk.total + 1)
      (s.disk.create (.leaf [] nullPage nullPage) hd) :=
  appendPage_yields hs h

theorem createNodePage_yields (hs : s.disk.Sound) (h : s.disk.page 1 = .first hd) :
    Yields (createPage .nodePage) s (s.disk.total + 1) (s.disk.create (.node [] nullPage) hd) :=
  appendPage_yields hs h

theorem insertFreelist_yields (h : s.disk.page 1 = .first hd) (h1 : p ≠ 1) (h0 : p ≠ 0)
    (hp : p ≤ s.disk.size) :
    Yields (insertFreelist p) s ()
      ((s.disk.set 1 (.first { hd with freePageHead := p })).set p (.free hd.freePageHead)) := by
  rw [Yields, insertFreelist]
  refine Returns.bind_eq (assert_ok (.inr h1)) ?_
  refine Returns.bind_eq (FirstPageManager.load_ok h) ?_
  refine (setFreePageHead_yields h _).bind ?_
  intro t ht
  refine ⟨(), _, writePage_ok h0 _, rfl, ?_⟩
  have hpt : p ≤ t.file.numPages := by
    have : t.disk.size = s.disk.size := by rw [ht]; rfl
    exact hp.trans this.symm.le
  rw [disk_write h0 hpt, ht]
  rfl

end Creation

/-! ### Chains through pages -/

/-- `q` is the free page after `p`. -/
def Disk.FreeNext (d : Disk) (p q : Nat) : Prop := d.page p = .free q

/-- `q` is the overflow page after `p`. -/
def Disk.OverflowNext (d : Disk) (p q : Nat) : Prop := ∃ content, d.page p = .overflow q content

/-- The payload bytes of one page. -/
def Disk.content (d : Disk) (p : Nat) : List Byte :=
  match d.page p with
  | .overflow _ content => content
  | _ => []

/-- The free list the first page's header starts. -/
def Disk.FreeList (d : Disk) (l : List Nat) : Prop :=
  ∃ hd, d.page 1 = .first hd ∧ Chain d.FreeNext nullPage hd.freePageHead l

/-- The chain at `p` runs through `pages` and spells `payload`. -/
def Disk.OverflowChain (d : Disk) (p : Nat) (pages : List Nat) (payload : List Byte) : Prop :=
  Chain d.OverflowNext nullPage p pages ∧ pages.flatMap d.content = payload

section Frames

variable {d d' : Disk} {p : Nat} {l pages : List Nat} {payload : List Byte}

theorem Disk.OverflowChain.frame (h : d.OverflowChain p pages payload)
    (hf : ∀ q ∈ pages, d'.page q = d.page q) : d'.OverflowChain p pages payload := by
  refine ⟨h.1.congr ?_, ?_⟩
  · rintro a ha q ⟨c, hc⟩
    exact ⟨c, by rw [hf a ha, hc]⟩
  · rw [← h.2]
    refine List.flatMap_congr ?_
    intro a ha
    simp only [Disk.content, hf a ha]

theorem freeChain_frame (h : Chain d.FreeNext nullPage p l)
    (hf : ∀ q ∈ l, d'.page q = d.page q) : Chain d'.FreeNext nullPage p l := by
  refine h.congr ?_
  intro a ha q hq
  rw [Disk.FreeNext, hf a ha]
  exact hq

end Frames

end Cpplite
