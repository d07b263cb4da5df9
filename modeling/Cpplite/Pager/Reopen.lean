import Cpplite.Lib.Transfer
import Cpplite.Pager.FileRuns

/-!
The same file under another `Pager`. The constructor writes a new first page over the old
one and touches no other page, so whatever reads pages other than the first one and
returns does so again, with what it returned before. The file may also have grown.
-/
namespace Cpplite

open Exec Search

/-- What stands at a page is still there; the first page may say something else. -/
inductive Page.Lasts : Page → Page → Prop where
  | blank {page : Page} : Lasts .blank page
  | first {h h' : PagerFirstPageHeader} : Lasts (.first h) (.first h')
  | same {page : Page} : Lasts page page

theorem Page.Lasts.trans {page page' page'' : Page} (h : page.Lasts page') (h' : page'.Lasts page'') :
    page.Lasts page'' := by
  cases h with
  | blank => exact .blank
  | first => cases h' <;> exact .first
  | same => exact h'

structure Pager.Lasts (s s' : Pager) : Prop where
  page : ∀ p, (s.file.read p).Lasts (s'.file.read p)
  size : s.file.numPages ≤ s'.file.numPages

inductive PageManager.Lasts : PageManager → PageManager → Prop where
  | first {fpm fpm' : FirstPageManager} : Lasts (.first fpm) (.first fpm')
  | free {fpm fpm' : FreePageManager} : Lasts (.free fpm) (.free fpm')
  | same {pm : PageManager} : Lasts pm pm

namespace Pager

variable {s s' s'' : Pager}

theorem Lasts.refl : s.Lasts s := ⟨fun _ => .same, le_rfl⟩

theorem Lasts.trans (h : s.Lasts s') (h' : s'.Lasts s'') : s.Lasts s'' :=
  ⟨fun p => (h.page p).trans (h'.page p), h.size.trans h'.size⟩

theorem numPages_pos {hd : PagerFirstPageHeader} (h1 : s.file.read 1 = .first hd) :
    1 ≤ s.file.numPages := by
  by_contra hn
  rw [OsFile.read, if_neg hn] at h1
  cases h1

theorem Lasts.first {hd : PagerFirstPageHeader} (h : s.Lasts s') (h1 : s.file.read 1 = .first hd) :
    ∃ hd', s'.file.read 1 = .first hd' := by
  have hp := h.page 1
  rw [h1] at hp
  generalize s'.file.read 1 = page at hp
  cases hp with
  | first => exact ⟨_, rfl⟩
  | same => exact ⟨hd, rfl⟩

/-- A new pager on the file. -/
theorem lasts_reopen {hd : PagerFirstPageHeader} (h1 : s.file.read 1 = .first hd) :
    s.Lasts (reopen s.file) := by
  have hpos := numPages_pos h1
  refine ⟨fun p => ?_, le_max_left _ _⟩
  by_cases hp : p = 1
  · subst hp
    rw [h1, reopen_header]
    exact .first
  · rw [reopen_read hp hpos]
    exact .same

variable [Build]

/-- A new leaf goes past the end of the file, whatever number it is given. -/
theorem createLeafPage_lasts {hd : PagerFirstPageHeader} (h1 : s.file.read 1 = .first hd) :
    Returns (createPage .leafPage) s (fun p t => p = s.totalNumPages + 1 ∧ s.Lasts t ∧
      t.file.read 1 = .first { hd with numPages := s.totalNumPages + 1 }) := by
  have hpos := numPages_pos h1
  refine ⟨_, _, appendPage_eq hpos h1, rfl, ⟨fun q => ?_, ?_⟩, read_write⟩
  · by_cases hq1 : q = 1
    · subst hq1
      rw [h1, read_write]
      exact .first
    · rw [read_write_of_ne hq1 (hpos.trans (by simp [write, OsFile.write]))]
      by_cases hle : q ≤ s.file.numPages
      · have hne : q ≠ s.file.numPages + 1 := by omega
        have hsame : (s.write (s.file.numPages + 1)
            (.leaf ⟨0, pageSize - sizeofLeafPageHeader, nullPage, nullPage⟩ [])).file.read q =
            s.file.read q := by
          simp [write, OsFile.write, OsFile.read, Function.update_of_ne hne, hle, Nat.le_succ_of_le]
        exact hsame ▸ .same
      · rw [OsFile.read, if_neg hle]
        exact .blank
  · simp only [write, OsFile.write]
    omega

end Pager

/-! ### What is read on both -/

section Reads

variable {p : Nat}

theorem readPage_lasts {msg : String} :
    Follows Pager.Lasts Page.Lasts (readPage p msg) (readPage p msg) := by
  refine .ite follows_throw ?_
  exact follows_get.bind (fun _ _ h => follows_pure (h.page p))

/-- A page is read and then looked at: what a blank or a first page is good for, and that the
rest depends on the page alone. -/
theorem readPage_then {α : Type} {R : α → α → Prop} {msg : String} {f : Page → PagerM α}
    (hblank : ∀ page, Follows Pager.Lasts R (f .blank) (f page))
    (hfirst : ∀ h h', Follows Pager.Lasts R (f (.first h)) (f (.first h')))
    (hsame : ∀ page, Follows Pager.Lasts R (f page) (f page)) :
    Follows Pager.Lasts R (readPage p msg >>= f) (readPage p msg >>= f) := by
  refine readPage_lasts.bind fun page page' h => ?_
  cases h with
  | blank => exact hblank page'
  | first => exact hfirst _ _
  | same => exact hsame page

theorem firstPageManager_load_lasts :
    Follows Pager.Lasts (fun _ _ => True) FirstPageManager.load FirstPageManager.load := by
  refine follows_get.bind fun s s' h => ?_
  have h1 := h.page 1
  generalize s.file.read 1 = page at h1
  generalize s'.file.read 1 = page' at h1
  cases h1 with
  | blank => exact follows_throw
  | first => exact follows_pure trivial
  | same =>
    cases page with
    | first hd => exact follows_pure trivial
    | _ => exact follows_throw

theorem seekFirst_lasts : Follows Pager.Lasts PageManager.Lasts
    (do let fpm ← FirstPageManager.load; pure (PageManager.first fpm))
    (do let fpm ← FirstPageManager.load; pure (PageManager.first fpm)) :=
  firstPageManager_load_lasts.bind fun _ _ _ => follows_pure .first

theorem getNode_lasts {pm pm' : PageManager} (h : pm.Lasts pm') :
    Follows Pager.Lasts Eq pm.getNode pm'.getNode := by
  cases h with
  | first => exact follows_throw
  | free => exact follows_throw
  | same =>
    cases pm with
    | node npm => exact follows_pure rfl
    | _ => exact follows_throw

theorem getLeaf_lasts {pm pm' : PageManager} (h : pm.Lasts pm') :
    Follows Pager.Lasts Eq pm.getLeaf pm'.getLeaf := by
  cases h with
  | first => exact follows_throw
  | free => exact follows_throw
  | same =>
    cases pm with
    | leaf lpm => exact follows_pure rfl
    | _ => exact follows_throw

theorem getOverflowContent_lasts {opm : OverflowPageManager} :
    Follows Pager.Lasts Eq opm.getOverflowContent opm.getOverflowContent := by
  refine readPage_then (fun _ => follows_throw) (fun _ _ => follows_throw) fun page => ?_
  cases page with
  | overflow hd content => exact follows_pure rfl
  | _ => exact follows_throw

variable [Build]

theorem assert_lasts {σ σ' : Type} {S : σ → σ' → Prop} {c : Prop} [Decidable c] :
    Follows S Eq (assert c) (assert c) :=
  .ite (follows_pure rfl) follows_throw

/-- A page of the wrong kind stops the first run. -/
theorem refuse_lasts {α : Type} {R : α → α → Prop} {y : PagerM α} :
    Follows Pager.Lasts R (do assert False; throw .undefined) y := by
  intro s s' hs a t ha
  obtain ⟨b, u, -, hthrow⟩ := bind_eq_ok ha
  cases hthrow

theorem getPageType_lasts : Follows Pager.Lasts Eq (getPageType p) (getPageType p) := by
  refine assert_lasts.then fun _ => ?_
  refine readPage_then (fun _ => follows_throw) (fun _ _ => follows_pure rfl) fun page => ?_
  cases page with
  | blank => exact follows_throw
  | _ => exact follows_pure rfl

theorem assertPageType_lasts {type : PagerPageType} :
    Follows Pager.Lasts Eq (assertPageType p type) (assertPageType p type) :=
  .ite (follows_pure rfl) (getPageType_lasts.then fun _ => assert_lasts)

theorem overflowPageManager_load_lasts :
    Follows Pager.Lasts Eq (OverflowPageManager.load p) (OverflowPageManager.load p) := by
  refine readPage_then (fun _ => follows_throw) (fun _ _ => refuse_lasts) fun page => ?_
  cases page with
  | overflow hd content => exact follows_pure rfl
  | blank => exact follows_throw
  | _ => exact refuse_lasts

theorem nodePageManager_load_lasts :
    Follows Pager.Lasts Eq (NodePageManager.load p) (NodePageManager.load p) := by
  refine readPage_then (fun _ => follows_throw) (fun _ _ => refuse_lasts) fun page => ?_
  cases page with
  | node hd area => exact follows_pure rfl
  | blank => exact follows_throw
  | _ => exact refuse_lasts

theorem leafPageManager_load_lasts :
    Follows Pager.Lasts Eq (LeafPageManager.load p) (LeafPageManager.load p) := by
  refine readPage_then (fun _ => follows_throw) (fun _ _ => refuse_lasts) fun page => ?_
  cases page with
  | leaf hd area => exact follows_pure rfl
  | blank => exact follows_throw
  | _ => exact refuse_lasts

/-- Of a free page, or one that is taken for it, the first field is read. -/
theorem freePageManager_load_lasts : Follows Pager.Lasts (fun _ _ => True)
    (FreePageManager.load p) (FreePageManager.load p) := by
  refine readPage_then (fun _ => follows_throw)
    (fun _ _ => assert_lasts.then fun _ => follows_pure trivial) fun page => ?_
  cases page with
  | free hd => exact follows_pure trivial
  | blank => exact follows_throw
  | _ => exact assert_lasts.then fun _ => follows_pure trivial

/-- What the page is now decides which manager reads it again. -/
theorem seekPage_lasts : Follows Pager.Lasts PageManager.Lasts (seekPage p) (seekPage p) := by
  refine .ite seekFirst_lasts ?_
  intro s s' hs a t ha
  obtain ⟨page, u, hread, hrest⟩ := bind_eq_ok ha
  obtain ⟨page', u', hread', hpage, hu⟩ := readPage_lasts s s' hs _ _ hread
  rw [bind_ok hread']
  cases hpage with
  | blank =>
    -- the page is blank in the second reading as well
    by_cases hp : p = 0
    · rw [readPage, if_pos hp] at hread
      cases hread
    · rw [readPage_ok hp] at hread
      injection hread with hpage hstate
      subst hstate
      obtain ⟨fpm, v, hload, -⟩ := bind_eq_ok hrest
      obtain ⟨page, w, hread, hmatch⟩ := bind_eq_ok hload
      rw [readPage_ok hp] at hread
      cases hread
      rw [hpage] at hmatch
      cases hmatch
  | first => exact seekFirst_lasts u u' hu a t hrest
  | same =>
    cases page with
    | blank => exact (freePageManager_load_lasts.bind fun _ _ _ => follows_pure .free) u u' hu a t hrest
    | free hd => exact (freePageManager_load_lasts.bind fun _ _ _ => follows_pure .free) u u' hu a t hrest
    | first hd => exact seekFirst_lasts u u' hu a t hrest
    | node hd area =>
      exact (nodePageManager_load_lasts.then fun _ => follows_pure .same) u u' hu a t hrest
    | leaf hd area =>
      exact (leafPageManager_load_lasts.then fun _ => follows_pure .same) u u' hu a t hrest
    | overflow hd content =>
      exact (overflowPageManager_load_lasts.then fun _ => follows_pure .same) u u' hu a t hrest

/-- An overflow chain is as long in the longer file. -/
theorem readChain_lasts : ∀ {fuel fuel' : Nat} (it : Nat), fuel ≤ fuel' →
    Follows Pager.Lasts Eq (readChain fuel it) (readChain fuel' it)
  | 0, _, _, _ => follows_throw
  | fuel + 1, 0, _, h => absurd h (Nat.not_succ_le_zero fuel)
  | fuel + 1, fuel' + 1, it, h => by
    refine .ite (follows_pure rfl) ?_
    refine overflowPageManager_load_lasts.then fun opm => ?_
    refine getOverflowContent_lasts.then fun content => ?_
    exact (readChain_lasts _ (Nat.le_of_succ_le_succ h)).then fun rest => follows_pure rfl

theorem getPayload_lasts {lpm : LeafPageManager} {key : DefaultPagerKey} :
    Follows Pager.Lasts Eq (lpm.getPayload key) (lpm.getPayload key) := by
  unfold LeafPageManager.getPayload
  cases lpm.cells.find? (fun c => c.key = key) with
  | none => exact follows_pure rfl
  | some cell =>
    refine follows_get.bind fun s s' h => ?_
    refine (readChain_lasts _ (Nat.succ_le_succ h.size)).then fun payload => ?_
    exact assert_lasts.then fun _ => follows_pure rfl

end Reads

end Cpplite
