import Cpplite.Pager.Good

/-!
Whole runs of a `Pager`: when the page count in the header tells the truth, and what a
second `Pager` on the same file makes of it.
-/
namespace Cpplite

open Exec Search Linked

namespace Pager

section Runs

variable [Build]

/-- The calls that change the file below the page managers. -/
inductive Op where
  | createPage (type : PagerPageType)
  | createOverflowPage (payload : List Byte)
  | insertFreelist (pgno : Nat)
  | popFreelist
  | setNextOid (oid : DefaultPagerKey)
deriving DecidableEq, Repr

def Op.run : Op → PagerM Unit
  | .createPage type => do
    let _ ← Cpplite.createPage type
    pure ()
  | .createOverflowPage payload => do
    let _ ← Cpplite.createOverflowPage payload
    pure ()
  | .insertFreelist pgno => Cpplite.insertFreelist pgno
  | .popFreelist => do
    let _ ← Cpplite.popFreelist
    pure ()
  | .setNextOid oid => do
    let fpm ← FirstPageManager.load
    let _ ← fpm.setNextOid oid
    pure ()

/-- The pager after a run; a call that throws leaves what it had already done. -/
def runOps (ops : List Op) (s : Pager) : Pager :=
  ops.foldl (fun t op => after op.run t) s

end Runs

end Pager

/-! ### The page count -/

/-- The page is one of those a list of pages can run through. -/
def Page.chained : Page → Bool
  | .free _ | .overflow _ _ => true
  | _ => false

/-- A link that leads nowhere or to a page with a link of its own. -/
def OsFile.Link (f : OsFile) (p : Nat) : Prop := p = nullPage ∨ (f.read p).chained = true

namespace Pager

/-- The header, the counter and the file agree on the number of pages. -/
def CountAgrees (s : Pager) : Prop :=
  getNumPages s = .ok s.totalNumPages s ∧ s.file.numPages = s.totalNumPages

/-- What keeps the count: no link leads to the first page, where an overflow chain written over the
free list would destroy the header. -/
structure Counted (s : Pager) : Prop where
  header : ∃ hd, s.file.read 1 = .first hd ∧ hd.numPages = s.totalNumPages ∧
    s.file.Link hd.freePageHead
  size_eq : s.file.numPages = s.totalNumPages
  next : ∀ p, (s.file.read p).chained = true → s.file.Link (s.file.read p).firstField

section Counting

variable {s : Pager} {p n : Nat} {page : Page} {hd : PagerFirstPageHeader}

theorem load_eq (hr : s.file.read 1 = .first hd) :
    FirstPageManager.load s = .ok ⟨hd.numPages, hd.freePageHead, hd.nextOid⟩ s := by
  rw [FirstPageManager.load, bind_ok get_ok, hr]
  rfl

theorem writeFirstField_eq (hr : s.file.read 1 = .first hd)
    (f : PagerFirstPageHeader → PagerFirstPageHeader) :
    writeFirstField f s = .ok () (s.write 1 (.first (f hd))) := by
  rw [writeFirstField, bind_ok get_ok, hr]
  rfl

theorem setFreePageHead_eq (hr : s.file.read 1 = .first hd) (fpm : FirstPageManager) :
    fpm.setFreePageHead p s =
      .ok { fpm with freePageHead := p } (s.write 1 (.first { hd with freePageHead := p })) :=
  bind_ok (writeFirstField_eq hr _)

theorem Counted.countAgrees (h : s.Counted) : s.CountAgrees := by
  obtain ⟨hd, h1, hn, -⟩ := h.header
  refine ⟨?_, h.size_eq⟩
  rw [getNumPages, bind_ok (load_eq h1), ← hn]
  rfl

theorem counted_fresh : fresh.Counted := by
  refine ⟨⟨⟨1, nullPage, 1⟩, rfl, rfl, .inl rfl⟩, rfl, ?_⟩
  intro p hp
  by_cases h1 : p = 1
  · subst h1
    cases hp
  · have hblank : fresh.file.read p = .blank := by
      simp [fresh, OsFile.read, Function.update_of_ne h1]
    rw [hblank] at hp
    cases hp

theorem Counted.pos (h : s.Counted) : 1 ≤ s.file.numPages := by
  obtain ⟨hd, h1, -⟩ := h.header
  by_contra hn
  rw [OsFile.read, if_neg hn] at h1
  cases h1

theorem read_write_of_ne {q : Nat} (hq : q ≠ p) (hp : p ≤ s.file.numPages) :
    (s.write p page).file.read q = s.file.read q := by
  simp [write, OsFile.write, OsFile.read, Function.update_of_ne hq, max_eq_left hp]

theorem le_of_chained (h : (s.file.read p).chained = true) : p ≤ s.file.numPages := by
  by_contra hn
  rw [OsFile.read, if_neg hn] at h
  cases h

/-- A write that does not take a link away from a page keeps every link. -/
theorem link_write {q : Nat} (hp : p ≤ s.file.numPages)
    (hc : (s.file.read p).chained = true → page.chained = true) (h : s.file.Link q) :
    (s.write p page).file.Link q := by
  rcases h with h | h
  · exact .inl h
  · by_cases hq : q = p
    · subst hq
      exact .inr (by rw [read_write]; exact hc h)
    · exact .inr (by rw [read_write_of_ne hq hp]; exact h)

theorem Counted.write_chained (h : s.Counted) (h1 : p ≠ 1) (hp : p ≤ s.file.numPages)
    (hc : page.chained = true) (hl : s.file.Link page.firstField ∨ page.firstField = p) :
    (s.write p page).Counted := by
  obtain ⟨hd, hr, hn, hh⟩ := h.header
  have hkeep : ∀ {q}, s.file.Link q → (s.write p page).file.Link q :=
    fun hq => link_write hp (fun _ => hc) hq
  refine ⟨⟨hd, by rw [read_write_of_ne (Ne.symm h1) hp, hr], hn, hkeep hh⟩, ?_, ?_⟩
  · simp only [write, OsFile.write, max_eq_left hp]
    exact h.size_eq
  · intro q hq
    by_cases hqp : q = p
    · subst hqp
      rw [read_write]
      rcases hl with hl | hl
      · exact hkeep hl
      · rw [hl]
        exact .inr (by rw [read_write]; exact hc)
    · rw [read_write_of_ne hqp hp] at hq ⊢
      exact hkeep (h.next q hq)

theorem write_comm {q : Nat} {page' : Page} (h : p ≠ q) :
    (s.write p page).write q page' = (s.write q page').write p page := by
  simp only [write, OsFile.write, Function.update_comm h, max_right_comm]

theorem Counted.write_header (h : s.Counted) (hn : hd.numPages = s.totalNumPages)
    (hl : s.file.Link hd.freePageHead) : (s.write 1 (.first hd)).Counted := by
  obtain ⟨hd', hr, -⟩ := h.header
  have hkeep : ∀ {q}, s.file.Link q → (s.write 1 (.first hd)).file.Link q :=
    fun hq => link_write h.pos (by rw [hr]; intro hc; cases hc) hq
  refine ⟨⟨hd, read_write, hn, hkeep hl⟩, ?_, ?_⟩
  · simp only [write, OsFile.write, max_eq_left h.pos]
    exact h.size_eq
  · intro q hq
    by_cases hq1 : q = 1
    · subst hq1
      rw [read_write] at hq
      cases hq
    · rw [read_write_of_ne hq1 h.pos] at hq ⊢
      exact hkeep (h.next q hq)

theorem Counted.ne_one (h : s.Counted) (hc : (s.file.read p).chained = true) : p ≠ 1 := by
  rintro rfl
  obtain ⟨hd, hr, -⟩ := h.header
  rw [hr] at hc
  cases hc

/-- A node or leaf page more at the end, counted in memory and in the header. -/
theorem Counted.append (h : s.Counted) (hl : s.file.Link hd.freePageHead)
    (hc : page.chained = false) :
    ({ s.write (s.file.numPages + 1) page with
      totalNumPages := s.totalNumPages + 1 }.write 1
        (.first { hd with numPages := s.totalNumPages + 1 })).Counted := by
  have hpos := h.pos
  have hread : ∀ q, q ≠ s.file.numPages + 1 →
      (s.write (s.file.numPages + 1) page).file.read q = s.file.read q := by
    intro q hq
    have hiff : q ≤ s.file.numPages + 1 ↔ q ≤ s.file.numPages := by omega
    simp [write, OsFile.write, OsFile.read, Function.update_of_ne hq, hiff]
  have hread' : ∀ q, q ≠ 1 → q ≠ s.file.numPages + 1 →
      ({ s.write (s.file.numPages + 1) page with
        totalNumPages := s.totalNumPages + 1 }.write 1
          (.first { hd with numPages := s.totalNumPages + 1 })).file.read q = s.file.read q := by
    intro q h1 hq
    rw [read_write_of_ne h1 (by simp [write, OsFile.write])]
    exact hread q hq
  have hlink : ∀ {q}, s.file.Link q → ({ s.write (s.file.numPages + 1) page with
        totalNumPages := s.totalNumPages + 1 }.write 1
          (.first { hd with numPages := s.totalNumPages + 1 })).file.Link q := by
    rintro q (hq | hq)
    · exact .inl hq
    · have hle := le_of_chained hq
      exact .inr (by rw [hread' q (h.ne_one hq) (by omega)]; exact hq)
  refine ⟨⟨_, read_write, rfl, hlink hl⟩, ?_, ?_⟩
  · simp [write, OsFile.write, h.size_eq]
  · intro q hq
    by_cases h1 : q = 1
    · subst h1
      rw [read_write] at hq
      cases hq
    · by_cases hn : q = s.file.numPages + 1
      · subst hn
        rw [read_write_of_ne h1 (by simp [write, OsFile.write])] at hq
        have hp : (s.write (s.file.numPages + 1) page).file.read (s.file.numPages + 1) = page :=
          read_write
        rw [show ({ s.write (s.file.numPages + 1) page with
          totalNumPages := s.totalNumPages + 1 } : Pager).file.read (s.file.numPages + 1) = page
          from hp, hc] at hq
        cases hq
      · rw [hread' q h1 hn] at hq ⊢
        exact hlink (h.next q hq)

end Counting

end Pager

section Conditions

variable [Build]

/-- `FreePageManager` takes the page: the tag is looked at by an `assert` only. -/
def Page.readsAsFree : Page → Bool
  | .free _ => true
  | .blank => false
  | _ => Build.ndebug

/-- `n` pages are taken from the list at `p` before it ends. -/
def OsFile.FreeRun (f : OsFile) : Nat → Nat → Prop
  | 0, _ => True
  | n + 1, p => p ≠ nullPage ∧
      ((f.read p).readsAsFree = true → f.FreeRun n (f.read p).firstField)

/-- The call appends no page but a node or leaf page, and writes no page outside the file or over
the header. -/
def Pager.Op.KeepsCount (s : Pager) : Op → Prop
  | .createPage type => type ≠ .freePage
  | .createOverflowPage payload => ∀ chunks hd, payloadChunks payload = some chunks →
      s.file.read 1 = .first hd → s.file.FreeRun chunks.length hd.freePageHead
  | .insertFreelist pgno => (pgno = 1 → Build.ndebug = false) ∧ pgno ≤ s.file.numPages
  | .popFreelist => True
  | .setNextOid _ => True

def Pager.KeepsCountAll : Pager → List Pager.Op → Prop
  | _, [] => True
  | s, op :: ops => op.KeepsCount s ∧ KeepsCountAll (after op.run s) ops

end Conditions

namespace Pager

section Steps

variable {s : Pager} {p n : Nat} {page : Page} {hd : PagerFirstPageHeader} [Build]

theorem freeRun_congr {f g : OsFile} (hfg : ∀ q, q ≠ 1 → g.read q = f.read q)
    (h1 : (f.read 1).chained = false)
    (hnext : ∀ q, (f.read q).chained = true → f.Link (f.read q).firstField) :
    ∀ n p, f.Link p → f.FreeRun n p → g.FreeRun n p := by
  intro n
  induction n with
  | zero => exact fun _ _ _ => trivial
  | succ n ih =>
    rintro p hl ⟨h0, hrun⟩
    have hc : (f.read p).chained = true := by
      rcases hl with hl | hl
      · exact absurd hl h0
      · exact hl
    have hp1 : p ≠ 1 := by
      rintro rfl
      rw [h1] at hc
      cases hc
    refine ⟨h0, ?_⟩
    rw [hfg p hp1]
    intro hfree
    exact ih _ (hnext p hc) (hrun hfree)

theorem freePageManager_load (h0 : p ≠ nullPage) (hc : (s.file.read p).chained = true) :
    FreePageManager.load p s = if (s.file.read p).readsAsFree = true then
      .ok ⟨p, (s.file.read p).firstField⟩ s else .error .assertion s := by
  rw [FreePageManager.load, bind_ok (readPage_ok h0 _)]
  cases hr : s.file.read p with
  | free h => rfl
  | overflow h c =>
    cases hb : Build.ndebug with
    | true =>
      simp only [Page.readsAsFree, hb, if_true]
      exact bind_ok (assert_ok (.inl hb))
    | false =>
      simp only [Page.readsAsFree, hb, Bool.false_eq_true, if_false]
      exact bind_error (assert_fails hb id)
  | _ =>
    rw [hr] at hc
    cases hc

theorem takePages_ends (n : Nat) : ∀ (s : Pager) (fpm : FirstPageManager) (p : Nat),
    s.Counted → s.file.Link p → s.file.FreeRun n p →
    Ends (takePages n fpm p) s (fun pages t => t.Counted ∧
      (∀ q, q ≠ 1 → t.file.read q = s.file.read q) ∧
      ∀ q ∈ pages, q ≠ 0 ∧ (s.file.read q).chained = true) Counted := by
  induction n with
  | zero =>
    intro s fpm p hs _ _
    exact .of_eq rfl ⟨hs, fun _ _ => rfl, by simp⟩
  | succ n ih =>
    rintro s fpm p hs hl ⟨h0, hrun⟩
    have hc : (s.file.read p).chained = true := by
      rcases hl with hl | hl
      · exact absurd hl h0
      · exact hl
    obtain ⟨hd, hr, hn, hh⟩ := hs.header
    rw [takePages, if_pos h0]
    have hload := freePageManager_load h0 hc
    by_cases hfree : (s.file.read p).readsAsFree = true
    · rw [if_pos hfree] at hload
      refine Ends.bind_eq hload (Ends.bind_eq (setFreePageHead_eq hr _) ?_)
      have hnext := hs.next p hc
      have ht : (s.write 1 (.first { hd with
          freePageHead := (s.file.read p).firstField })).Counted := hs.write_header hn hnext
      have hsame : ∀ q, q ≠ 1 → (s.write 1 (.first { hd with
          freePageHead := (s.file.read p).firstField })).file.read q = s.file.read q :=
        fun q hq => read_write_of_ne hq hs.pos
      refine (ih _ _ _ ht ?_ ?_).bind ?_
      · exact link_write hs.pos (by rw [hr]; intro hc; cases hc) hnext
      · exact freeRun_congr hsame (by rw [hr]; rfl) hs.next n _ hnext (hrun hfree)
      · rintro pages u ⟨hu, husame, hpages⟩
        refine .of_eq rfl ⟨hu, fun q hq => (husame q hq).trans (hsame q hq), ?_⟩
        intro q hq
        rcases List.mem_cons.mp hq with rfl | hq
        · exact ⟨h0, hc⟩
        · obtain ⟨hq0, hqc⟩ := hpages q hq
          have hq1 := ht.ne_one hqc
          rw [hsame q hq1] at hqc
          exact ⟨hq0, hqc⟩
    · rw [if_neg hfree] at hload
      exact .of_error (bind_error hload) hs

omit [Build] in
theorem writeChunks_counted : ∀ (ps : List (Nat × List Byte)) (s : Pager), s.Counted →
    (∀ q ∈ ps.map (·.1), q ≠ 0 ∧ (s.file.read q).chained = true) →
    Returns (writeChunks ps) s (fun _ t => t.Counted)
  | [], s, hs, _ => returns_pure.mpr hs
  | (p, chunk) :: rest, s, hs, hb => by
    obtain ⟨h0, hc⟩ := hb p (by simp)
    rw [writeChunks]
    refine Returns.bind_eq (writePage_ok h0 _) ?_
    refine writeChunks_counted rest _ (hs.write_chained (hs.ne_one hc) (le_of_chained hc) rfl ?_) ?_
    · left
      cases rest with
      | nil => exact .inl rfl
      | cons x rest => exact .inr (hb x.1 (by simp)).2
    · intro q hq
      obtain ⟨hq0, hqc⟩ := hb q (by simp only [List.map_cons, List.mem_cons]; exact .inr hq)
      refine ⟨hq0, ?_⟩
      by_cases hqp : q = p
      · subst hqp
        rw [read_write]
        rfl
      · rw [read_write_of_ne hqp (le_of_chained hc)]
        exact hqc

omit [Build] in
/-- The number handed out is the counter's, the place written the file's end. -/
theorem appendPage_eq (h1 : 1 ≤ s.file.numPages) (hr : s.file.read 1 = .first hd) :
    appendPage page s = .ok (s.totalNumPages + 1)
      ({ s.write (s.file.numPages + 1) page with totalNumPages := s.totalNumPages + 1 }.write 1
        (.first { hd with numPages := s.totalNumPages + 1 })) := by
  have hr' : ({ s.write (s.file.numPages + 1) page with
      totalNumPages := s.totalNumPages + 1 } : Pager).file.read 1 = .first hd := by
    have hne : (1 : Nat) ≠ s.file.numPages + 1 := by omega
    rw [OsFile.read, if_pos h1] at hr
    simpa [write, OsFile.write, OsFile.read, Function.update_of_ne hne] using hr
  rw [appendPage, bind_ok get_ok]
  rw [bind_ok (show osAppend page s = .ok () (s.write (s.file.numPages + 1) page) from rfl)]
  refine (bind_ok (t := { s.write (s.file.numPages + 1) page with
    totalNumPages := s.totalNumPages + 1 }) rfl).trans ?_
  exact (bind_ok (load_eq hr')).trans (bind_ok (bind_ok (writeFirstField_eq hr' _)))

omit [Build] in
theorem appendPage_counted (h : s.Counted) (hc : page.chained = false) :
    Returns (appendPage page) s (fun _ t => t.Counted) := by
  obtain ⟨hd, hr, -, hl⟩ := h.header
  exact ⟨_, _, appendPage_eq h.pos hr, h.append hl hc⟩

theorem createPage_counted (h : s.Counted) {type : PagerPageType} (ht : type ≠ .freePage) :
    Ends (createPage type) s (fun _ t => t.Counted) Counted := by
  have hno : Ends (do
      assert False
      throw (Error.runtimeError "[Pager:create_page]: Can only create free or node pages") :
        PagerM Nat) s (fun _ t => t.Counted) Counted := by
    cases hb : Build.ndebug with
    | true => exact .bind_eq (assert_ok (.inl hb)) (.of_error rfl h)
    | false => exact .of_error (bind_error (assert_fails hb id)) h
  cases type with
  | freePage => exact absurd rfl ht
  | nodePage => exact (appendPage_counted h rfl).ends
  | leafPage => exact (appendPage_counted h rfl).ends
  | firstPage => exact hno
  | overflowPage => exact hno

theorem createOverflowPage_counted (h : s.Counted) {payload : List Byte}
    (hk : (Op.createOverflowPage payload).KeepsCount s) :
    Ends (createOverflowPage payload) s (fun _ t => t.Counted) Counted := by
  obtain ⟨hd, hr, hn, hl⟩ := h.header
  rw [createOverflowPage, writeOverflowChain]
  cases hch : payloadChunks payload with
  | none => exact .of_error rfl h
  | some chunks =>
    cases chunks with
    | nil => exact .of_eq rfl h
    | cons chunk chunks =>
      refine Ends.bind_eq (load_eq hr) ?_
      refine (takePages_ends _ s _ _ h hl (hk _ hd hch hr)).bind ?_
      rintro pages t ⟨ht, hsame, hpages⟩
      have hw := writeChunks_counted (pages.zip (chunk :: chunks)) t ht (by
        intro q hq
        obtain ⟨x, hx, rfl⟩ := List.mem_map.mp hq
        obtain ⟨hq0, hqc⟩ := hpages x.1 (List.of_mem_zip hx).1
        rw [hsame x.1 (h.ne_one hqc)]
        exact ⟨hq0, hqc⟩)
      refine hw.ends.bind ?_
      intro _ u hu
      cases hi : pages[0]? with
      | none => exact .of_error (by rw [index, hi]; rfl) hu
      | some a => exact .of_eq (index_ok hi) hu

theorem insertFreelist_counted (h : s.Counted)
    (hk : (Op.insertFreelist p).KeepsCount s) :
    Ends (insertFreelist p) s (fun _ t => t.Counted) Counted := by
  obtain ⟨hd, hr, hn, hl⟩ := h.header
  obtain ⟨hone, hle⟩ := hk
  rw [insertFreelist]
  by_cases h1 : p = 1
  · exact .of_error (bind_error (assert_fails (hone h1) (not_not.mpr h1))) h
  refine Ends.bind_eq (assert_ok (.inr h1)) (Ends.bind_eq (load_eq hr)
    (Ends.bind_eq (setFreePageHead_eq hr _) ?_))
  by_cases h0 : p = 0
  · -- the seek to page 0 fails after the list was cut off
    subst h0
    exact .of_error rfl (h.write_header hn (.inl rfl))
  · refine .of_eq (writePage_ok h0 _) ?_
    rw [write_comm (Ne.symm h1)]
    have hw : (s.write p (.free ⟨hd.freePageHead⟩)).Counted :=
      h.write_chained h1 hle rfl (.inl hl)
    exact hw.write_header hn (.inr (by rw [read_write]; rfl))

omit [Build] in
theorem popFreelist_counted (h : s.Counted) :
    Returns popFreelist s (fun _ t => t.Counted) := by
  obtain ⟨hd, hr, hn, hl⟩ := h.header
  rw [popFreelist]
  refine Returns.bind_eq (load_eq hr) ?_
  by_cases h0 : hd.freePageHead = nullPage
  · rw [if_pos h0]
    exact returns_pure.mpr h
  · rw [if_neg h0]
    refine Returns.bind_eq (readPage_ok h0 _) ?_
    refine Returns.bind_eq (setFreePageHead_eq hr _) ?_
    refine returns_pure.mpr (h.write_header hn ?_)
    rcases hl with hl | hl
    · exact absurd hl h0
    · exact h.next _ hl

/-- One call that keeps the count keeps everything the next one relies on. -/
theorem Op.run_counted {op : Op} (h : s.Counted) (hk : op.KeepsCount s) :
    (after op.run s).Counted := by
  cases op with
  | createPage type =>
    exact Ends.after ((createPage_counted h hk).bind (fun _ _ ht => .of_eq rfl ht))
  | createOverflowPage payload =>
    exact Ends.after ((createOverflowPage_counted h hk).bind (fun _ _ ht => .of_eq rfl ht))
  | insertFreelist pgno => exact Ends.after (insertFreelist_counted h hk)
  | popFreelist =>
    exact Ends.after ((popFreelist_counted h).ends.bind (fun _ _ ht => .of_eq rfl ht))
  | setNextOid oid =>
    obtain ⟨hd, hr, hn, hl⟩ := h.header
    have hset : Ends (Op.setNextOid oid).run s (fun _ t => t.Counted) Counted :=
      .bind_eq (load_eq hr) (.bind_eq (bind_ok (writeFirstField_eq hr _))
        (.of_eq rfl (h.write_header hn hl)))
    exact hset.after

theorem runOps_counted {ops : List Op} (h : s.Counted) (hk : KeepsCountAll s ops) :
    (runOps ops s).Counted := by
  induction ops generalizing s with
  | nil => exact h
  | cons op ops ih => exact ih (op.run_counted h hk.1) hk.2

theorem KeepsCountAll.take {ops : List Op} (hk : KeepsCountAll s ops) (n : Nat) :
    KeepsCountAll s (ops.take n) := by
  induction ops generalizing s n with
  | nil => simp [KeepsCountAll]
  | cons op ops ih =>
    cases n with
    | zero => trivial
    | succ n => exact ⟨hk.1, ih hk.2 n⟩

/-- In every state of a run whose calls append only node and leaf pages, the page count in the
header is that of the file. -/
theorem runOps_countAgrees (ops : List Op) (hk : KeepsCountAll fresh ops) (n : Nat) :
    (runOps (ops.take n) fresh).CountAgrees :=
  (runOps_counted counted_fresh (hk.take n)).countAgrees

end Steps

theorem runOps_countAgrees_reuse :
    letI : Build := ⟨false⟩
    KeepsCountAll fresh [.createPage .leafPage, .insertFreelist 2, .createOverflowPage [1, 2, 3]] ∧
    (runOps [.createPage .leafPage, .insertFreelist 2, .createOverflowPage [1, 2, 3]]
      fresh).CountAgrees := by
  let _ : Build := ⟨false⟩
  have hchunks : payloadChunks [1, 2, 3] = some [[1, 2, 3]] := by rfl
  have hk : KeepsCountAll fresh
      [.createPage .leafPage, .insertFreelist 2, .createOverflowPage [1, 2, 3]] := by
    refine ⟨nofun, ⟨nofun, by decide⟩, ?_, trivial⟩
    intro chunks hd hc hr
    rw [hchunks] at hc
    cases hc
    have hhead : (runOps [.createPage .leafPage, .insertFreelist 2] fresh).file.read 1 =
        .first ⟨2, 2, 1⟩ := rfl
    have hhd : hd = ⟨2, 2, 1⟩ := by
      have := hr.symm.trans hhead
      cases this
      rfl
    subst hhd
    exact ⟨by decide, fun _ => trivial⟩
  exact ⟨hk, runOps_countAgrees _ hk 3⟩

/-- A page appended for the free list is not counted in the header. -/
theorem runOps_countAgrees_fails :
    letI : Build := ⟨false⟩
    ¬ ∀ ops : List Op, (runOps ops fresh).CountAgrees := by
  let _ : Build := ⟨false⟩
  intro h
  have hcount := (h [.createPage .freePage]).1
  have hcode : ∃ t, getNumPages (runOps [.createPage .freePage] fresh) = .ok 1 t ∧
      (runOps [.createPage .freePage] fresh).totalNumPages = 2 := ⟨_, rfl, rfl⟩
  obtain ⟨t, hget, htotal⟩ := hcode
  rw [hget, htotal] at hcount
  cases hcount

end Pager

/-! ### Opening the file again -/

/-- The header `FirstPageManager` reads. -/
def OsFile.header? (f : OsFile) : Option PagerFirstPageHeader :=
  match f.read 1 with
  | .first hd => some hd
  | _ => none

/-- The pages met along a list, at most `n` of them. -/
def OsFile.walk (f : OsFile) : Nat → Nat → List Nat
  | 0, _ => []
  | n + 1, p => if p = nullPage then [] else p :: f.walk n (f.read p).firstField

/-- The free list; a walk longer than the file repeats itself. -/
def OsFile.freeList (f : OsFile) : Option (List Nat) :=
  f.header?.map (fun hd => f.walk f.numPages hd.freePageHead)

namespace Pager

section Reopening

variable [Build]

/-- The page `create_page(type)` writes, `head` being the free list before it. -/
def newPage (head : Nat) : PagerPageType → LogicalPage
  | .freePage => .free head
  | .nodePage => .node [] nullPage
  | .leafPage => .leaf [] nullPage nullPage
  | _ => .none

/-- A new `Pager` on the file finds the database that is in it: the header fields, every page, and
room for the next page of each kind behind the last one. -/
structure Survives (f : OsFile) : Prop where
  num_pages : (reopen f).file.header?.map (·.numPages) = f.header?.map (·.numPages)
  free_list : (reopen f).file.freeList = f.freeList
  next_oid : (reopen f).file.header?.map (·.nextOid) = f.header?.map (·.nextOid)
  size : (reopen f).file.numPages = f.numPages
  pages : ∀ p, 1 ≤ p → (reopen f).file.read p = f.read p
  create_page : ∀ type ∈ [PagerPageType.freePage, .nodePage, .leafPage],
    Returns (createPage type) (reopen f) (fun p t => f.numPages < p ∧
      ∃ head, t.disk.page p = newPage head type)
  create_overflow : ∀ payload chunks, payloadChunks payload = some chunks → chunks ≠ [] →
    Returns (createOverflowPage payload) (reopen f) (fun p t => f.numPages < p ∧
      ∃ pages, t.disk.OverflowChain p pages chunks.flatten)

variable {f : OsFile}

omit [Build] in
theorem reopen_header : (reopen f).file.read 1 = .first ⟨1, nullPage, 1⟩ := by
  simp [reopen, OsFile.write, OsFile.read]

omit [Build] in
theorem reopen_read {p : Nat} (hp : p ≠ 1) (h1 : 1 ≤ f.numPages) :
    (reopen f).file.read p = f.read p := by
  simp [reopen, OsFile.write, OsFile.read, Function.update_of_ne hp, max_eq_left h1]

omit [Build] in
theorem createFreePage_yields {s : Pager} {hd : PagerFirstPageHeader} (hs : s.disk.Sound)
    (h : s.disk.page 1 = .first hd) :
    Yields createFreePage s (s.disk.total + 1) (s.disk.appendFree hd) := by
  have hpos := hs.pos
  have hsz := hs.size_eq
  rw [Yields, createFreePage]
  refine Returns.bind_eq (FirstPageManager.load_ok h) ?_
  apply returns_bind.mpr
  apply returns_modify.mpr
  refine Returns.bind_eq get_ok ?_
  refine disk_osAppend.bind ?_
  intro _ t ht
  have ht' : t.disk = { s.disk.append (.free hd.freePageHead) with total := s.disk.total + 1 } := by
    rw [ht]
    rfl
  have h1 : t.disk.page 1 = .first hd := by
    rw [ht']
    exact (Function.update_of_ne (show (1 : Nat) ≠ s.disk.size + 1 by omega) ..).trans h
  refine (setFreePageHead_yields h1 _).bind ?_
  intro u hu
  refine returns_pure.mpr ⟨rfl, ?_⟩
  rw [hu, ht']
  rfl

omit [Build] in
/-- A file as `Pager::Pager` first leaves it is the one kind that comes back whole. -/
theorem reopen_sound (h1 : f.numPages = 1) : (reopen f).disk.Sound := by
  have hsize : (reopen f).file.numPages = 1 := by simp [reopen, OsFile.write, h1]
  refine ⟨hsize, ⟨⟨1, nullPage, 1⟩, ?_⟩, ?_⟩
  · simp [disk, reopen_header, Page.logical]
  · intro p hp
    exact (disk_page_le hp).trans hsize.le

theorem survives_of_fresh (h1 : f.numPages = 1) (hh : f.header? = some ⟨1, nullPage, 1⟩) :
    Survives f := by
  have hr : f.read 1 = .first ⟨1, nullPage, 1⟩ := by
    cases hr : f.read 1 with
    | first hd =>
      simp only [OsFile.header?, hr, Option.some.injEq] at hh
      rw [hh]
    | _ => simp [OsFile.header?, hr] at hh
  have hhead : (reopen f).file.header? = f.header? := by
    rw [hh, OsFile.header?, reopen_header]
  have hs := reopen_sound h1
  have hd1 : (reopen f).disk.page 1 = .first ⟨1, nullPage, 1⟩ := by
    simp [disk, reopen_header, Page.logical]
  have hfl : (reopen f).disk.FreeList [] := ⟨_, hd1, rfl⟩
  have htotal : (reopen f).disk.total = 1 := rfl
  refine ⟨by rw [hhead], ?_, by rw [hhead], ?_, ?_, ?_, ?_⟩
  · have hnil : ∀ (g : OsFile) (n : Nat), g.walk n nullPage = [] := by
      intro g n
      cases n <;> simp [OsFile.walk]
    simp only [OsFile.freeList, hhead, hh, Option.map_some, hnil]
  · simp [reopen, OsFile.write, h1]
  · intro p hp
    by_cases hp1 : p = 1
    · subst hp1
      rw [reopen_header, hr]
    · exact reopen_read hp1 h1.ge
  · intro type htype
    simp only [List.mem_cons, List.not_mem_nil, or_false] at htype
    rcases htype with rfl | rfl | rfl
    · refine (createFreePage_yields hs hd1).mono ?_
      rintro p t ⟨rfl, ht⟩
      refine ⟨by omega, nullPage, ?_⟩
      have hsz := hs.size_eq
      have hpos := hs.pos
      rw [ht, Disk.appendFree, Disk.set_page_of_ne (by omega), ← hsz]
      exact Function.update_self ..
    · refine (createNodePage_yields hs hd1).mono ?_
      rintro p t ⟨rfl, ht⟩
      exact ⟨by omega, 0, by rw [ht, hs.create_page_new]; rfl⟩
    · refine (createLeafPage_yields hs hd1).mono ?_
      rintro p t ⟨rfl, ht⟩
      exact ⟨by omega, 0, by rw [ht, hs.create_page_new]; rfl⟩
  · intro payload chunks hch hne
    refine (createOverflowPage_spec hs hfl hch).mono ?_
    intro p t ht
    refine ⟨?_, _, ht.chain⟩
    rw [ht.chain.1.head_eq]
    cases chunks with
    | nil => exact absurd rfl hne
    | cons chunk chunks =>
      rw [h1]
      simp [takenPages, htotal, List.range'_succ]

/-- Opening the file a second time keeps the database only while there is nothing in it. -/
theorem survives_iff (f : OsFile) :
    Survives f ↔ f.numPages = 1 ∧ f.header? = some ⟨1, nullPage, 1⟩ := by
  constructor
  · intro h
    have hr : f.read 1 = .first ⟨1, nullPage, 1⟩ := by
      rw [← h.pages 1 le_rfl, reopen_header]
    have hpos : 1 ≤ f.numPages := by
      by_contra hn
      rw [OsFile.read, if_neg hn] at hr
      cases hr
    have hpos' : 1 ≤ (reopen f).file.numPages := by rw [h.size]; exact hpos
    obtain ⟨p, t, hrun, hlt, -⟩ := h.create_page .leafPage (by simp)
    have hp : p = 2 := by
      have := hrun.symm.trans (appendPage_eq hpos' reopen_header)
      cases this
      rfl
    exact ⟨by omega, by rw [OsFile.header?, hr]⟩
  · rintro ⟨h1, hh⟩
    exact survives_of_fresh h1 hh

/-- Of all files a run leaves, a new `Pager` preserves exactly those that are still as the first
`Pager` made them. -/
theorem runOps_survives_iff (ops : List Op) :
    Survives (runOps ops fresh).file ↔ (runOps ops fresh).file.numPages = 1 ∧
      (runOps ops fresh).file.header? = some ⟨1, nullPage, 1⟩ :=
  survives_iff _

end Reopening

/-- A second `Pager` forgets the one page there is, and hands its number out again. -/
theorem runOps_survives_fails :
    letI : Build := ⟨false⟩
    ¬ ∀ ops : List Op, Survives (runOps ops fresh).file := by
  let _ : Build := ⟨false⟩
  intro h
  have hsize := ((survives_iff _).mp (h [.createPage .leafPage])).1
  have hcode : (runOps [.createPage .leafPage] fresh).file.numPages = 2 := rfl
  omega

end Pager

end Cpplite
