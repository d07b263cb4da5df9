import Cpplite.Pager.ChainRuns

/-!
The free list as a stack.

The list is linked through the headers of its pages and edited by four calls, each in its own
order of writes. Seen from outside they are the pushes and pops of one stack.
-/
namespace Cpplite

open Exec Search Linked

namespace Freelist

/-- The calls that push, pop or look, and those that leave the list alone. -/
inductive Op where
  | createPage (type : PagerPageType)
  | createOverflowPage (payload : List Byte)
  | insertFreelist (pgno : Nat)
  | popFreelist
  | peekFreelist
deriving DecidableEq, Repr

/-- What the list is for: the free pages, last freed first, and the number of pages there are. -/
structure Stack where
  pages : List Nat := []
  total : Nat := 1
deriving DecidableEq, Repr

/-- The call on the stack, with its answer. -/
def Op.apply (a : Stack) : Op → Option Nat × Stack
  | .createPage .freePage => (some (a.total + 1), ⟨(a.total + 1) :: a.pages, a.total + 1⟩)
  | .createPage _ => (some (a.total + 1), { a with total := a.total + 1 })
  | .createOverflowPage payload =>
    let n := chunkCount payload.length
    (some ((takenPages a.pages a.total n).headD nullPage),
      ⟨a.pages.drop n, a.total + (n - a.pages.length)⟩)
  | .insertFreelist pgno => (none, { a with pages := pgno :: a.pages })
  | .popFreelist => (some (a.pages.headD nullPage), { a with pages := a.pages.tail })
  | .peekFreelist => (some (a.pages.headD nullPage), a)

def applyAll (a : Stack) : List Op → List (Option Nat) × Stack
  | [] => ([], a)
  | op :: ops => ((op.apply a).1 :: (applyAll (op.apply a).2 ops).1, (applyAll (op.apply a).2 ops).2)

/-- A page to be freed exists, is not the first one and is not free yet; a payload leaves the
chunking loop room to end. -/
def Op.Ok (a : Stack) : Op → Prop
  | .createPage type => type ∈ [PagerPageType.freePage, .nodePage, .leafPage]
  | .createOverflowPage payload => payload.length < 2 ^ 32 - 4096
  | .insertFreelist pgno => pgno ≠ 1 ∧ 1 ≤ pgno ∧ pgno ≤ a.total ∧ pgno ∉ a.pages
  | _ => True

instance decidableOk (a : Stack) : (op : Op) → Decidable (op.Ok a)
  | .createPage type => inferInstanceAs (Decidable (type ∈ _))
  | .createOverflowPage payload => inferInstanceAs (Decidable (payload.length < _))
  | .insertFreelist pgno => inferInstanceAs (Decidable (pgno ≠ 1 ∧ _ ∧ _ ∧ _))
  | .popFreelist => .isTrue trivial
  | .peekFreelist => .isTrue trivial

def OkAll (a : Stack) : List Op → Prop
  | [] => True
  | op :: ops => op.Ok a ∧ OkAll (op.apply a).2 ops

instance decidableOkAll : (a : Stack) → (ops : List Op) → Decidable (OkAll a ops)
  | _, [] => .isTrue trivial
  | a, op :: ops =>
    have := decidableOkAll (op.apply a).2 ops
    inferInstanceAs (Decidable (op.Ok a ∧ OkAll (op.apply a).2 ops))

section Code

variable [Build]

def Op.run : Op → PagerM (Option Nat)
  | .createPage type => some <$> Cpplite.createPage type
  | .createOverflowPage payload => some <$> Cpplite.createOverflowPage payload
  | .insertFreelist pgno => do
    Cpplite.insertFreelist pgno
    pure none
  | .popFreelist => some <$> Cpplite.popFreelist
  | .peekFreelist => some <$> Cpplite.peekFreelist

def runAll : List Op → PagerM (List (Option Nat))
  | [] => pure []
  | op :: ops => do
    let r ← op.run
    let rs ← runAll ops
    pure (r :: rs)

/-- The walk along `next_free_page`, for at most so many pages. -/
def follow : Nat → Nat → PagerM (List Nat)
  | 0, _ => throw .diverges
  | fuel + 1, pgno =>
    if pgno = nullPage then pure []
    else do
      let fpm ← FreePageManager.load pgno
      let rest ← follow fuel fpm.nextFreePage
      pure (pgno :: rest)

/-- From the header's `free_page_head` on. -/
def traverse (fuel : Nat) : PagerM (List Nat) := do
  let head ← Cpplite.peekFreelist
  follow fuel head

/-- The file has the stack: the walk along the links ends and meets its pages, each once. -/
structure Holds (s : Pager) (a : Stack) : Prop where
  good : s.disk.Good
  free : s.disk.FreeList a.pages
  total_eq : s.totalNumPages = a.total

variable {s t : Pager} {a : Stack} {hd : PagerFirstPageHeader}

omit [Build] in
theorem holds_fresh : Holds Pager.fresh {} := ⟨fresh_good, ⟨_, rfl, rfl⟩, rfl⟩

omit [Build] in
theorem peekFreelist_ok (h : Holds s a) :
    Cpplite.peekFreelist s = .ok (a.pages.headD nullPage) s := by
  obtain ⟨hd, h1, hc⟩ := h.free
  rw [Cpplite.peekFreelist, bind_ok (FirstPageManager.load_ok h1), ← hc.head_eq]
  rfl

theorem follow_ok {p : Nat} {l : List Nat} (h : Chain s.disk.FreeNext nullPage p l) :
    ∀ fuel, l.length < fuel → follow fuel p s = .ok l s := by
  induction l generalizing p with
  | nil =>
    intro fuel hfuel
    obtain ⟨fuel, rfl⟩ := Nat.exists_eq_succ_of_ne_zero (Nat.ne_of_gt hfuel)
    have hp : p = nullPage := h
    rw [follow, if_pos hp]
    rfl
  | cons q l ih =>
    intro fuel hfuel
    obtain ⟨fuel, rfl⟩ := Nat.exists_eq_succ_of_ne_zero (Nat.ne_of_gt (Nat.zero_lt_of_lt hfuel))
    obtain ⟨rfl, hne, next, hnext, hrest⟩ := h
    rw [follow, if_neg hne, bind_ok (FreePageManager.load_ok hnext),
      bind_ok (ih hrest fuel (by simpa using hfuel))]
    rfl

theorem Holds.traverse_ok (h : Holds s a) {fuel : Nat} (hfuel : a.pages.length < fuel) :
    traverse fuel s = .ok a.pages s := by
  obtain ⟨hd, h1, hc⟩ := h.free
  rw [traverse, bind_ok (peekFreelist_ok h), ← hc.head_eq]
  exact follow_ok hc fuel hfuel

omit [Build] in
theorem map_some_returns {x : PagerM Nat} {P : Nat → Pager → Prop} {Q : Option Nat → Pager → Prop}
    (hx : Returns x s P) (h : ∀ p t, P p t → Q (some p) t) : Returns (some <$> x) s Q := by
  rw [map_eq_pure_bind]
  exact hx.bind (fun p t hp => returns_pure.mpr (h p t hp))

omit [Build] in
/-- Appending a page of another kind leaves the list alone. -/
theorem Holds.create (h : Holds s a) {x : PagerM Nat} {l : LogicalPage}
    (h1 : s.disk.page 1 = .first hd)
    (hx : Yields x s (s.disk.total + 1) (s.disk.create l hd)) :
    Returns (some <$> x) s
      (fun r t => r = some (a.total + 1) ∧ Holds t { a with total := a.total + 1 }) := by
  refine map_some_returns hx ?_
  rintro p t ⟨rfl, ht⟩
  have htotal : s.disk.total = a.total := h.total_eq
  refine ⟨by rw [htotal], ?_, ?_, ?_⟩
  · rw [ht]
    exact h.good.create h1
  · rw [ht]
    exact h.free.create h.good.sound h1
  · change t.disk.total = _
    rw [ht, Disk.create_total, htotal]

/-- One call. -/
theorem Holds.step (h : Holds s a) {op : Op} (hop : op.Ok a) :
    Returns op.run s (fun r t => r = (op.apply a).1 ∧ Holds t (op.apply a).2) := by
  have hs := h.good.sound
  obtain ⟨hd, h1⟩ := hs.first
  have htotal : s.disk.total = a.total := h.total_eq
  cases op with
  | createPage type =>
    simp only [Op.Ok, List.mem_cons, List.not_mem_nil, or_false] at hop
    rcases hop with rfl | rfl | rfl
    · refine map_some_returns (Pager.createFreePage_yields hs h1) ?_
      rintro p t ⟨rfl, ht⟩
      refine ⟨by rw [htotal]; rfl, ?_, ?_, ?_⟩
      · rw [ht]
        exact h.good.appendFree h1
      · have hfree := h.free.appendFree hs h1
        rw [← ht, htotal] at hfree
        exact hfree
      · change t.disk.total = _
        rw [ht]
        exact congrArg (· + 1) htotal
    · exact h.create h1 (createNodePage_yields hs h1)
    · exact h.create h1 (createLeafPage_yields hs h1)
  | createOverflowPage payload =>
    have hlim : payload.length ≤ chainLimit := by
      replace hop : payload.length < 2 ^ 32 - 4096 := hop
      rw [chainLimit_eq]
      omega
    obtain ⟨chunks, hch, -, hcount⟩ := payloadChunks_count hlim
    refine map_some_returns (createOverflowPage_spec hs h.free hch) ?_
    intro p t hw
    have hev : s.disk.Evolves t.disk [] := .of_chainWritten h.good h.free hw
    have hhead := hw.chain.1.head_eq
    rw [hcount, htotal] at hhead
    refine ⟨congrArg some hhead, hev.good, ?_, ?_⟩
    · have hfree := h.free.of_chainWritten hs hw
      rw [hcount] at hfree
      exact hfree
    · change t.disk.total = _
      rw [hw.total, htotal, hcount]
      rfl
  | insertFreelist pgno =>
    obtain ⟨hne, hpos, hle, hnot⟩ := hop
    have hins := insertFreelist_yields h1 hne (Nat.ne_of_gt hpos) (by
      rw [hs.size_eq, htotal]
      exact hle)
    refine hins.bind ?_
    intro t ht
    refine returns_pure.mpr ⟨rfl, ?_, ?_, ?_⟩
    · rw [ht]
      refine h.good.push h1 (Nat.ne_of_gt hpos) hne (by rw [htotal]; exact hle) ?_
      intro fl hf
      have hsame : fl = a.pages := by
        obtain ⟨hd₁, h₁, hc₁⟩ := hf
        obtain ⟨hd₂, h₂, hc₂⟩ := h.free
        rw [h₁] at h₂
        cases h₂
        refine hc₁.unique ?_ hc₂
        intro p q q' hq hq'
        rw [Disk.FreeNext, hq] at hq'
        cases hq'
        rfl
      rw [hsame]
      exact hnot
    · rw [ht]
      exact h.free.free h1 hne (Nat.ne_of_gt hpos) hnot
    · change t.disk.total = _
      rw [ht]
      exact htotal
  | popFreelist =>
    refine map_some_returns (Pager.popFreelist_spec h.good h.free) ?_
    rintro p t ⟨rfl, hgood, hfree, ht⟩
    exact ⟨rfl, hgood, hfree, ht.trans htotal⟩
  | peekFreelist =>
    exact map_some_returns ((returns_of_eq (peekFreelist_ok h)).mpr ⟨rfl, rfl⟩)
      (P := fun p t => p = a.pages.headD nullPage ∧ t = s) (by rintro p t ⟨rfl, rfl⟩; exact ⟨rfl, h⟩)

theorem Holds.runAll (h : Holds s a) {ops : List Op} (hops : OkAll a ops) :
    Returns (Freelist.runAll ops) s
      (fun rs t => rs = (applyAll a ops).1 ∧ Holds t (applyAll a ops).2) := by
  induction ops generalizing s a with
  | nil => exact returns_pure.mpr ⟨rfl, h⟩
  | cons op ops ih =>
    refine (h.step hops.1).bind ?_
    rintro r t ⟨rfl, ht⟩
    refine (ih ht hops.2).bind ?_
    rintro rs u ⟨rfl, hu⟩
    exact returns_pure.mpr ⟨rfl, hu⟩

/-- On a fresh pager the free list is a stack: every run of the calls returns what the stack
answers, and then the walk along the links of the file ends, after the stack's pages in their order
and no page twice. -/
theorem runAll_freeStack (ops : List Op) (hops : OkAll {} ops) :
    Returns (runAll ops) Pager.fresh (fun rs t => rs = (applyAll {} ops).1 ∧
      (applyAll {} ops).2.pages.Nodup ∧ ∀ fuel, (applyAll {} ops).2.pages.length < fuel →
        traverse fuel t = .ok (applyAll {} ops).2.pages t) := by
  refine (holds_fresh.runAll hops).mono ?_
  rintro rs t ⟨rfl, ht⟩
  exact ⟨rfl, free_nodup ht.free, fun fuel hfuel => ht.traverse_ok hfuel⟩

end Code

theorem runAll_freeStack_reuse :
    letI : Build := ⟨false⟩
    Returns (runAll [.createPage .freePage, .createPage .leafPage, .insertFreelist 3,
      .createOverflowPage [1, 2, 3], .popFreelist, .popFreelist]) Pager.fresh (fun rs t =>
        rs = [some 2, some 3, none, some 3, some 2, some 0] ∧ ∀ fuel, 0 < fuel →
          traverse fuel t = .ok [] t) := by
  let _ : Build := ⟨false⟩
  have hops : OkAll {} [.createPage .freePage, .createPage .leafPage, .insertFreelist 3,
      .createOverflowPage [1, 2, 3], .popFreelist, .popFreelist] := by decide
  refine (runAll_freeStack _ hops).mono ?_
  rintro rs t ⟨rfl, -, ht⟩
  exact ⟨rfl, ht⟩

end Freelist

end Cpplite
