import Cpplite.Pager.FileRuns
import Cpplite.Pager.Readers

/-!
Overflow chains over whole runs of a `Pager`: in every reached file the free list is in order,
so a new chain takes its pages from there first, spells its payload, and leaves the rest of
the file alone.
-/
namespace Cpplite

open Exec Search Linked

namespace Pager

/-! ### The free list over runs -/

/-- A page goes to the free list once; every other call is free. -/
def Op.Proper (s : Pager) : Op → Prop
  | .insertFreelist pgno => 2 ≤ pgno ∧ pgno ≤ s.totalNumPages ∧
    ∀ fl, s.disk.FreeList fl → pgno ∉ fl
  | _ => True

section Reached

variable [Build] {s : Pager} {hd : PagerFirstPageHeader} {fl : List Nat}

/-- The files of a run from a fresh one; a call that raises leaves what it had already done. -/
inductive Reached : Pager → Prop where
  | fresh : Reached fresh
  | step {s : Pager} {op : Op} (h : Reached s) (hop : op.Proper s) : Reached (after op.run s)

/-- The other kinds of page are not made by `create_page`. -/
theorem refuse_raises {P : Pager → Prop} (h : P s) :
    Raises (Cpplite.createPage .firstPage) s (fun _ t => P t) := by
  cases hn : Build.ndebug with
  | true => exact Raises.bind_eq (assert_ok (.inl hn)) (raises_throw.mpr h)
  | false => exact Raises.bind_left ⟨_, _, assert_fails hn (by simp), h⟩

omit [Build] in
/-- `pop_freelist`: the head of the list, or `NULL_PAGE`, and the list without it. -/
theorem popFreelist_spec (h : s.disk.Good) (hf : s.disk.FreeList fl) :
    Returns popFreelist s (fun p t => p = fl.headD nullPage ∧ t.disk.Good ∧
      t.disk.FreeList fl.tail ∧ t.disk.total = s.disk.total) := by
  have hf' := hf
  obtain ⟨hd, h1, hc⟩ := hf'
  rw [popFreelist]
  refine Returns.bind_eq (FirstPageManager.load_ok h1) ?_
  by_cases h0 : hd.freePageHead = nullPage
  · rw [if_pos h0]
    rw [h0] at hc
    obtain rfl := hc.nil_of_null
    exact returns_pure.mpr ⟨rfl, h, hf, rfl⟩
  · obtain ⟨q, -, -, hq, -⟩ := hc.cons_of_ne h0
    obtain ⟨hr, hne, -⟩ := page_free hq
    rw [if_neg h0]
    refine Returns.bind_eq (readPage_ok hne _) ?_
    rw [hr]
    refine (setFreePageHead_yields h1 _).bind ?_
    intro t ht
    refine returns_pure.mpr ?_
    rw [ht]
    exact ⟨hc.head_eq, h.pop h1 hq h0, hf.pop h.sound h1 hq h0, rfl⟩

/-- Every call keeps the file in good order. -/
theorem Op.run_good (op : Op) (h : s.disk.Good) (hop : op.Proper s) :
    (after op.run s).disk.Good := by
  obtain ⟨hd, h1⟩ := h.sound.first
  obtain ⟨fl, hf⟩ := h.free
  have hsame : Ends op.run s (fun _ t => t.disk.Good) (fun t => t.disk.Good) := by
    cases op with
    | createPage type =>
      cases type with
      | freePage =>
        refine (createFreePage_yields h.sound h1).ends.bind ?_
        rintro _ t ⟨-, ht⟩
        exact .of_eq rfl (by rw [ht]; exact h.appendFree h1)
      | nodePage =>
        refine (createNodePage_yields h.sound h1).ends.bind ?_
        rintro _ t ⟨-, ht⟩
        exact .of_eq rfl (by rw [ht]; exact h.create h1)
      | leafPage =>
        refine (createLeafPage_yields h.sound h1).ends.bind ?_
        rintro _ t ⟨-, ht⟩
        exact .of_eq rfl (by rw [ht]; exact h.create h1)
      | firstPage => exact (Raises.bind_left (refuse_raises h)).ends
      | overflowPage => exact (Raises.bind_left (refuse_raises h)).ends
    | createOverflowPage payload =>
      cases hch : payloadChunks payload with
      | none =>
        have hdiv : Cpplite.createOverflowPage payload s = .error .diverges s := by
          rw [Cpplite.createOverflowPage, writeOverflowChain, hch]
          rfl
        exact .of_error (bind_error hdiv) h
      | some chunks =>
        refine (createOverflowPage_spec h.sound hf hch).ends.bind ?_
        intro rp t hw
        have hev : s.disk.Evolves t.disk [] := .of_chainWritten h hf hw
        exact .of_eq rfl hev.good
    | insertFreelist pgno =>
      obtain ⟨h2, hle, hnot⟩ := hop
      refine ((insertFreelist_yields h1 (by omega) (by omega) ?_).mono ?_).ends
      · rw [h.sound.size_eq]
        exact hle
      · rintro _ t ⟨-, ht⟩
        rw [ht]
        exact h.push h1 (by omega) (by omega) hle hnot
    | popFreelist => exact (popFreelist_spec h hf).ends.bind (fun _ t ht => .of_eq rfl ht.2.1)
    | setNextOid oid =>
      refine Ends.bind_eq (FirstPageManager.load_ok h1) ?_
      refine (setNextOid_yields h1 _ oid).ends.bind ?_
      rintro _ t ⟨-, ht⟩
      exact .of_eq rfl (by rw [ht]; exact h.set_nextOid h1 oid)
  exact hsame.after

theorem Reached.good (h : Reached s) : s.disk.Good := by
  induction h with
  | fresh => exact fresh_good
  | step _ hop ih => exact Op.run_good _ ih hop

/-! ### What a new chain leaves alone, byte by byte -/

omit [Build] in
theorem writeFirstField_read {f : PagerFirstPageHeader → PagerFirstPageHeader} {t : Pager}
    (h : writeFirstField f s = .ok () t) :
    (∀ q, q ≠ 1 → t.file.read q = s.file.read q) ∧ s.file.numPages ≤ t.file.numPages := by
  rw [writeFirstField, bind_ok get_ok] at h
  cases hr : s.file.read 1 with
  | first hd =>
    rw [hr] at h
    cases h
    refine ⟨?_, le_max_left _ _⟩
    intro q hq
    have hle : q ≤ max s.file.numPages 1 ↔ q ≤ s.file.numPages := by
      rcases Nat.eq_zero_or_pos q with rfl | hpos
      · simp
      · rw [le_max_iff]
        omega
    simp [OsFile.write, OsFile.read, Function.update_of_ne hq, hle]
  | _ =>
    rw [hr] at h
    cases h

theorem takePages_read (n : Nat) : ∀ (fpm : FirstPageManager) (head : Nat) (s t : Pager)
    (pages : List Nat), takePages n fpm head s = .ok pages t →
    (∀ q, q ≠ 1 → t.file.read q = s.file.read q) ∧ s.file.numPages ≤ t.file.numPages := by
  induction n with
  | zero =>
    intro fpm head s t pages h
    cases h
    exact ⟨fun _ _ => rfl, le_rfl⟩
  | succ n ih =>
    intro fpm head s t pages h
    rw [takePages] at h
    by_cases hne : head ≠ nullPage
    · rw [if_pos hne] at h
      obtain ⟨tmp, s₁, hload, h⟩ := bind_eq_ok h
      obtain ⟨fpm', s₂, hset, h⟩ := bind_eq_ok h
      obtain ⟨rest, s₃, hrest, h⟩ := bind_eq_ok h
      cases h
      obtain ⟨_, s₂', hfield, heq⟩ := bind_eq_ok hset
      cases heq
      have hs₁ : s₁ = s := freePageManager_load_leaves.of_ok hload
      subst hs₁
      obtain ⟨hsame, hle⟩ := writeFirstField_read hfield
      obtain ⟨hsame', hle'⟩ := ih _ _ _ _ _ hrest
      exact ⟨fun q hq => (hsame' q hq).trans (hsame q hq), hle.trans hle'⟩
    · rw [if_neg hne] at h
      obtain ⟨_, s₁, hmod, h⟩ := bind_eq_ok h
      obtain ⟨s₁', s₂, hget, h⟩ := bind_eq_ok h
      obtain ⟨_, s₃, happ, h⟩ := bind_eq_ok h
      obtain ⟨rest, s₄, hrest, h⟩ := bind_eq_ok h
      cases h
      cases hmod
      cases hget
      cases happ
      obtain ⟨hsame, hle⟩ := ih _ _ _ _ _ hrest
      refine ⟨fun q hq => (hsame q hq).trans ?_, le_trans ?_ hle⟩
      · by_cases hnew : q = s.file.numPages + 1
        · subst hnew
          simp [OsFile.write, OsFile.read]
        · have hle : q ≤ s.file.numPages + 1 ↔ q ≤ s.file.numPages := by omega
          simp [OsFile.write, OsFile.read, Function.update_of_ne hnew, hle]
      · exact le_max_left _ _

omit [Build] in
theorem writeChunks_read (l : List (Nat × List Byte)) : ∀ (s t : Pager),
    writeChunks l s = .ok () t → (∀ x ∈ l, x.1 ≤ s.file.numPages) →
    ∀ q, (∀ x ∈ l, x.1 ≠ q) → t.file.read q = s.file.read q := by
  induction l with
  | nil =>
    intro s t h _ q _
    cases h
    rfl
  | cons x l ih =>
    intro s t h hle q hq
    obtain ⟨p, chunk⟩ := x
    obtain ⟨_, s₁, hw, h⟩ := bind_eq_ok h
    unfold writePage at hw
    by_cases hp0 : p = 0
    · rw [if_pos hp0] at hw
      cases hw
    · rw [if_neg hp0] at hw
      cases hw
      have hp : p ≤ s.file.numPages := hle (p, chunk) (by simp)
      have hne : q ≠ p := fun heq => hq (p, chunk) (by simp) heq.symm
      have hsize : max s.file.numPages p = s.file.numPages := max_eq_left hp
      rw [ih _ t h ?_ q (fun x hx => hq x (by simp [hx]))]
      · simp [OsFile.write, OsFile.read, Function.update_of_ne hne, hsize]
      · intro x hx
        change x.1 ≤ max s.file.numPages p
        rw [hsize]
        exact hle x (by simp [hx])

omit [Build] in
theorem le_of_mem_takenPages {d : Disk} (hs : d.Sound) (hf : d.FreeList fl) {n p : Nat}
    (h : p ∈ takenPages fl d.total n) : p ≤ d.size + (n - fl.length) := by
  have hsz := hs.size_eq
  rcases mem_takenPages h with h | h
  · obtain ⟨-, -, hle, -⟩ := free_bounds hs hf p h
    omega
  · omega

/-- Only the pages the chain takes and the header are written. -/
theorem createOverflowPage_read {payload : List Byte} {chunks : List (List Byte)} {head : Nat}
    {t : Pager} (hg : s.disk.Good) (hf : s.disk.FreeList fl)
    (hch : payloadChunks payload = some chunks)
    (hrun : Cpplite.createOverflowPage payload s = .ok head t) :
    ∀ q, q ≠ 1 → q ∉ takenPages fl s.disk.total chunks.length →
      t.file.read q = s.file.read q := by
  have hf' := hf
  obtain ⟨hd, h1, hc⟩ := hf'
  rw [Cpplite.createOverflowPage, writeOverflowChain, hch] at hrun
  cases chunks with
  | nil =>
    cases hrun
    exact fun _ _ _ => rfl
  | cons chunk chunks =>
    obtain ⟨fpm, s₁, hload, hrun⟩ := bind_eq_ok hrun
    rw [FirstPageManager.load_ok h1] at hload
    cases hload
    obtain ⟨pages, s₂, htake, hrun⟩ := bind_eq_ok hrun
    obtain ⟨_, s₃, hwrite, hrun⟩ := bind_eq_ok hrun
    have hs₃ : t = s₃ := leaves_index.of_ok (g := id) hrun
    subst hs₃
    obtain ⟨rfl, htaken⟩ := (returns_of_eq htake).mp (takePages_spec _ s _ fl hd hg.sound h1 hc)
    obtain ⟨hsame, -⟩ := takePages_read _ _ _ _ _ _ htake
    have hmem : ∀ x ∈ (takenPages fl s.disk.total (chunks.length + 1)).zip (chunk :: chunks),
        x.1 ∈ takenPages fl s.disk.total (chunks.length + 1) :=
      fun x hx => (List.of_mem_zip hx).1
    intro q hq hnot
    rw [writeChunks_read _ _ _ hwrite ?_ q ?_, hsame q hq]
    · intro x hx
      change x.1 ≤ s₂.disk.size
      rw [htaken.size]
      exact le_of_mem_takenPages hg.sound hf (hmem x hx)
    · rintro x hx rfl
      exact hnot (hmem x hx)

/-- A chain of its own for a payload: as few pages as it takes, the free list's first. -/
structure ChainMade (s : Pager) (fl : List Nat) (payload : List Byte) (head : Nat) (t : Pager)
    (pages : List Nat) : Prop where
  length : pages.length = chunkCount payload.length
  nodup : pages.Nodup
  taken : pages = fl.take pages.length ++
    List.range' (s.totalNumPages + 1) (pages.length - fl.length)
  head_eq : head = pages.headD nullPage
  chain : t.disk.OverflowChain head pages payload
  read : readChain (t.file.numPages + 1) head t = .ok payload t
  payload : ∀ (lpm : LeafPageManager) (cell : LeafCell),
    lpm.cells.find? (fun c => c.key = cell.key) = some cell → cell.recordPage = head →
    cell.payloadSize = payload.length → lpm.getPayload cell.key t = .ok (some payload) t
  free : t.disk.FreeList (fl.drop pages.length)
  header : ∃ hd, s.file.read 1 = .first hd ∧
    t.file.read 1 = .first { hd with freePageHead := (fl.drop pages.length).headD nullPage }
  same : ∀ q, q ≠ 1 → q ∉ pages → t.file.read q = s.file.read q

/-- In every reached file, for every free list and every payload short enough. -/
theorem createOverflowPage_made (h : Reached s) (hf : s.disk.FreeList fl) {payload : List Byte}
    (hlen : payload.length ≤ 2 ^ 32 - 4096) :
    Returns (Cpplite.createOverflowPage payload) s (fun head t =>
      ∃ pages, ChainMade s fl payload head t pages) := by
  have hg := h.good
  have hlim : payload.length ≤ chainLimit := by
    rw [chainLimit_eq]
    omega
  obtain ⟨chunks, hch, hflat, hcount⟩ := payloadChunks_count hlim
  obtain ⟨head, t, hrun, hw⟩ := createOverflowPage_spec hg.sound hf hch
  refine ⟨head, t, hrun, takenPages fl s.disk.total chunks.length, ?_⟩
  have hlength := length_takenPages fl s.disk.total chunks.length
  have hchain := hw.chain
  rw [hflat] at hchain
  refine ⟨by rw [hlength, hcount], overflow_nodup hchain, by rw [hlength]; rfl, hchain.1.head_eq,
    hchain, readChain_ok _ _ _ _ hchain ?_, ?_, ?_, ?_, createOverflowPage_read hg hf hch hrun⟩
  · have hle := overflow_length_le hw.sound hchain
    have hsz := hw.sound.size_eq
    change _ < t.disk.size + 1
    omega
  · intro lpm cell hfind hhead hsize
    subst hhead
    exact getPayload_find hw.sound hfind hchain hsize.symm
  · rw [hlength]
    exact hf.of_chainWritten hg.sound hw
  · obtain ⟨hd, h1⟩ := hg.sound.first
    rw [hlength]
    exact ⟨hd, (page_first h1).1, (page_first (hw.header hd h1)).1⟩

end Reached

theorem createOverflowPage_made_reuse :
    letI : Build := ⟨false⟩
    Returns (Cpplite.createOverflowPage [1, 2, 3])
      (runOps [.createPage .leafPage, .insertFreelist 2] fresh) (fun head t =>
        ∃ pages, ChainMade (runOps [.createPage .leafPage, .insertFreelist 2] fresh) [2] [1, 2, 3]
          head t pages) := by
  let _ : Build := ⟨false⟩
  have hleaf : (runOps [.createPage .leafPage] fresh).disk.page 2 = .leaf [] nullPage nullPage := rfl
  have hfirst : (Op.createPage .leafPage).Proper fresh := trivial
  have hone : Reached (runOps [.createPage .leafPage] fresh) := .step .fresh hfirst
  have hprop : (Op.insertFreelist 2).Proper (runOps [.createPage .leafPage] fresh) := by
    refine ⟨le_rfl, le_rfl, ?_⟩
    intro fl hf
    exact hf.notMem (by rw [hleaf]; simp)
  have htwo : Reached (runOps [.createPage .leafPage, .insertFreelist 2] fresh) := .step hone hprop
  have hf : (runOps [.createPage .leafPage, .insertFreelist 2] fresh).disk.FreeList [2] :=
    ⟨⟨2, 2, 1⟩, rfl, rfl, by decide, 0, rfl, rfl⟩
  exact createOverflowPage_made htwo hf (by decide)

end Pager

end Cpplite
