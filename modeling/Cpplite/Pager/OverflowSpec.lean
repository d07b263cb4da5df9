import Cpplite.Pager.PagerSpec

/-!
Overflow chains: the chunking loop below its wrap-around, where the pages come from,
and what a later walk along the chain reads back.
-/
namespace Cpplite

open Exec Search Linked

/-- The largest payload whose chunking loop ends before its 32-bit offset wraps. -/
def chainLimit : Nat := chunkSize * ((2 ^ 32 - 1) / chunkSize)

/-- How many overflow pages a payload of `n` bytes takes. -/
def chunkCount (n : Nat) : Nat := (n + (chunkSize - 1)) / chunkSize

theorem chainLimit_eq : chainLimit = 4294966432 := by decide

theorem chunkSize_eq : chunkSize = 4072 := by decide

theorem lt_chunkCount {i n : Nat} : i < chunkCount n ↔ i * chunkSize < n := by
  simp only [chunkCount, chunkSize_eq]
  omega

private theorem take_min_append_drop (l : List Byte) :
    l.take (min chunkSize l.length) ++ l.drop chunkSize = l := by
  rcases Nat.le_total chunkSize l.length with hle | hle
  · rw [min_eq_left hle, List.take_append_drop]
  · rw [min_eq_right hle, List.take_length, List.drop_eq_nil_of_le hle, List.append_nil]

theorem chunkLoop_eq {payload : List Byte} (hlim : payload.length ≤ chainLimit) :
    ∀ fuel i, i ≤ chunkCount payload.length → chunkCount payload.length < fuel + i →
      ∃ chunks, chunkLoop payload payload.length fuel (i * chunkSize) = some chunks ∧
        chunks.flatten = payload.drop (i * chunkSize) ∧
        chunks.length + i = chunkCount payload.length := by
  intro fuel
  induction fuel with
  | zero => intro i h1 h2; omega
  | succ fuel ih =>
    intro i h1 h2
    by_cases hlt : i * chunkSize < payload.length
    · have hi := lt_chunkCount.mpr hlt
      -- the offset is still a multiple of the chunk size below the limit, so it does not wrap
      have hwrap : (i * chunkSize + chunkSize) % 2 ^ 32 = (i + 1) * chunkSize := by
        rw [chainLimit_eq] at hlim
        rw [chunkSize_eq] at *
        omega
      obtain ⟨chunks, hc, hflat, hlen⟩ := ih (i + 1) hi (by omega)
      refine ⟨(payload.drop (i * chunkSize)).take
        (min chunkSize (payload.length - i * chunkSize)) :: chunks, ?_, ?_, ?_⟩
      · simp only [chunkLoop, hlt, if_true, hwrap, hc, Option.map_some]
      · have hdrop : (i + 1) * chunkSize = i * chunkSize + chunkSize := by ring
        rw [List.flatten_cons, hflat, hdrop, ← List.drop_drop, ← List.length_drop]
        exact take_min_append_drop _
      · simp only [List.length_cons]
        omega
    · have : ¬ i < chunkCount payload.length := fun h => hlt (lt_chunkCount.mp h)
      refine ⟨[], by simp [chunkLoop, hlt], ?_, by simp; omega⟩
      rw [List.drop_eq_nil_of_le (not_lt.mp hlt), List.flatten_nil]

/-- A payload below the limit is cut into as few chunks as it takes. -/
theorem payloadChunks_count {payload : List Byte} (hlim : payload.length ≤ chainLimit) :
    ∃ chunks, payloadChunks payload = some chunks ∧ chunks.flatten = payload ∧
      chunks.length = chunkCount payload.length := by
  have hlt : payload.length < 2 ^ 32 := by
    rw [chainLimit_eq] at hlim
    omega
  obtain ⟨chunks, hloop, hflat, hcount⟩ := chunkLoop_eq hlim (2 ^ 32) 0 (Nat.zero_le _) (by
    simp only [chunkCount, chunkSize_eq]
    omega)
  rw [Nat.zero_mul] at hloop hflat
  exact ⟨chunks, by rw [payloadChunks, Nat.mod_eq_of_lt hlt, hloop], hflat, hcount⟩

/-- A payload below the limit is cut into chunks that spell it. -/
theorem payloadChunks_eq {payload : List Byte} (hlim : payload.length ≤ chainLimit) :
    ∃ chunks, payloadChunks payload = some chunks ∧ chunks.flatten = payload := by
  obtain ⟨chunks, hch, hflat, -⟩ := payloadChunks_count hlim
  exact ⟨chunks, hch, hflat⟩

/-! ### Where the counter wraps -/

/-- What a round of the loop makes of its counter. -/
def nextOffset (offset : Nat) : Nat := (offset + chunkSize) % 2 ^ 32

theorem chunkLoop_succ {payload : List Byte} {size fuel offset : Nat} :
    chunkLoop payload size (fuel + 1) offset = if offset < size then
      (chunkLoop payload size fuel (nextOffset offset)).map
        ((payload.drop offset).take (min chunkSize (size - offset)) :: ·) else some [] := rfl

/-- The loop ends with one chunk for each `chunkSize` bytes begun, and its counter has not wrapped on
the way. -/
def CutsCleanly (payload : List Byte) : Prop :=
  ∃ chunks, payloadChunks payload = some chunks ∧ chunks.length = chunkCount payload.length ∧
    ∀ n ≤ chunks.length, nextOffset^[n] 0 = n * chunkSize

theorem nextOffset_iterate {n : Nat} (h : n * chunkSize < 2 ^ 32) :
    nextOffset^[n] 0 = n * chunkSize := by
  induction n with
  | zero => simp
  | succ n ih =>
    have hlt : n * chunkSize + chunkSize < 2 ^ 32 := by rw [← Nat.succ_mul]; exact h
    rw [Function.iterate_succ_apply', ih (by omega), nextOffset, Nat.mod_eq_of_lt hlt, Nat.succ_mul]

theorem CutsCleanly.le_chainLimit {payload : List Byte} (h : CutsCleanly payload) :
    payload.length ≤ chainLimit := by
  obtain ⟨chunks, -, hcount, hoff⟩ := h
  by_contra hlim
  have hlast := hoff chunks.length le_rfl
  have hwrap : nextOffset^[chunks.length] 0 < 2 ^ 32 := by
    cases chunks.length with
    | zero => simp
    | succ n =>
      rw [Function.iterate_succ_apply']
      exact Nat.mod_lt _ (by decide)
  rw [hlast, hcount] at hwrap
  rw [chainLimit_eq] at hlim
  rw [chunkCount, chunkSize_eq] at hwrap
  omega

/-- The loop fails above the last multiple of the chunk size that 32 bits can hold. -/
theorem cutsCleanly_iff (payload : List Byte) :
    CutsCleanly payload ↔ payload.length ≤ chainLimit := by
  constructor
  · exact CutsCleanly.le_chainLimit
  · intro hlim
    obtain ⟨chunks, hch, -, hcount⟩ := payloadChunks_count hlim
    refine ⟨chunks, hch, hcount, ?_⟩
    intro n hn
    refine nextOffset_iterate ?_
    rw [hcount] at hn
    rw [chainLimit_eq] at hlim
    rw [chunkCount, chunkSize_eq] at hn
    rw [chunkSize_eq]
    omega

/-- Near the largest size the counter wraps before it gets there. -/
theorem cutsCleanly_fails : ¬ ∀ payload : List Byte, payload.length < 2 ^ 32 → CutsCleanly payload := by
  intro h
  have hlen : ∀ n : Nat, (List.replicate n (0 : Byte)).length = n := fun _ => List.length_replicate
  have hle := (h (List.replicate 4294967295 0) (by rw [hlen]; decide)).le_chainLimit
  rw [hlen, chainLimit_eq] at hle
  exact absurd hle (by decide)

section Writing

variable {s : Pager} {fl : List Nat} {hd : PagerFirstPageHeader}

/-- `n` pages taken off the free list first and then from the end of the file. -/
def takenPages (fl : List Nat) (total n : Nat) : List Nat :=
  fl.take n ++ List.range' (total + 1) (n - fl.length)

theorem mem_takenPages {total n p : Nat} (h : p ∈ takenPages fl total n) :
    p ∈ fl ∨ total < p ∧ p ≤ total + (n - fl.length) := by
  rcases List.mem_append.mp h with h | h
  · exact .inl (List.mem_of_mem_take h)
  · rw [List.mem_range'_1] at h
    exact .inr (by omega)

theorem length_takenPages (fl : List Nat) (total n : Nat) :
    (takenPages fl total n).length = n := by
  simp only [takenPages, List.length_append, List.length_take, List.length_range']
  omega

theorem nodup_takenPages {total n : Nat} (hnd : fl.Nodup) (hb : ∀ p ∈ fl, p ≤ total) :
    (takenPages fl total n).Nodup := by
  refine List.nodup_append.mpr ⟨hnd.sublist (List.take_sublist ..), List.nodup_range', ?_⟩
  intro a ha b hb' heq
  subst heq
  have h1 := hb a (List.mem_of_mem_take ha)
  rw [List.mem_range'_1] at hb'
  omega

variable [Build]

theorem FreePageManager.load_ok {p q : Nat} (h : s.disk.page p = .free q) :
    FreePageManager.load p s = .ok ⟨p, q⟩ s := by
  obtain ⟨hr, h0, -⟩ := page_free h
  rw [FreePageManager.load, bind_ok (readPage_ok h0 _), hr]
  rfl

/-- What `takePages` leaves: the header past the pages taken, blank pages at the end, and every
other page as it was. -/
structure PagesTaken (d d' : Disk) (hd : PagerFirstPageHeader) (fl : List Nat) (n : Nat) :
    Prop where
  header : d'.page 1 = .first { hd with freePageHead := (fl.drop n).headD nullPage }
  same : ∀ q, q ≠ 1 → d'.page q = d.page q
  total : d'.total = d.total + (n - fl.length)
  size : d'.size = d.size + (n - fl.length)

theorem takePages_spec (n : Nat) : ∀ (s : Pager) (fpm : FirstPageManager) (fl : List Nat)
    (hd : PagerFirstPageHeader), s.disk.Sound → s.disk.page 1 = .first hd →
    Chain s.disk.FreeNext nullPage hd.freePageHead fl →
    Returns (takePages n fpm hd.freePageHead) s (fun pages t =>
      pages = takenPages fl s.disk.total n ∧ PagesTaken s.disk t.disk hd fl n) := by
  induction n with
  | zero =>
    intro s fpm fl hd hs h1 hfl
    refine returns_pure.mpr ⟨by simp [takenPages], ?_, fun _ _ => rfl, by simp, by simp⟩
    simp only [List.drop_zero, ← hfl.head_eq, h1]
  | succ n ih =>
    intro s fpm fl hd hs h1 hfl
    rw [takePages]
    by_cases hnull : hd.freePageHead = nullPage
    · -- the list is empty: a blank page goes to the end of the file
      simp only [hnull, ne_eq, not_true_eq_false, if_false]
      rw [hnull] at hfl
      obtain rfl := hfl.nil_of_null
      refine Returns.bind_eq (a := ()) (t := { s with totalNumPages := s.totalNumPages + 1 }) rfl ?_
      refine Returns.bind_eq get_ok ?_
      refine disk_osAppend.bind ?_
      intro _ t ht
      have hd1 : ({ s with totalNumPages := s.totalNumPages + 1 } : Pager).disk =
          { s.disk with total := s.disk.total + 1 } := rfl
      rw [hd1] at ht
      have hpos := hs.pos
      have hsz := hs.size_eq
      have hpage : ∀ q, t.disk.page q = s.disk.page q := by
        intro q
        rw [ht]
        simp only [Disk.append_page]
        split
        · rename_i hq
          rw [hs.page_fresh (by omega)]
          rfl
        · rfl
      have htot : t.disk.total = s.disk.total + 1 := by rw [ht]; rfl
      have hsize : t.disk.size = s.disk.size + 1 := by rw [ht]; rfl
      have hst : t.disk.Sound := by
        refine ⟨by omega, ⟨hd, by rw [hpage, h1]⟩, ?_⟩
        intro q hq
        rw [hpage] at hq
        have := hs.bounded q hq
        omega
      have hrec := ih t fpm [] hd hst (by rw [hpage, h1]) (by rw [hnull]; rfl)
      rw [hnull] at hrec
      refine hrec.bind ?_
      rintro pages u ⟨rfl, hu⟩
      refine returns_pure.mpr ⟨?_, ?_, ?_, ?_, ?_⟩
      · simp only [takenPages, List.take_nil, List.length_nil, Nat.sub_zero, List.nil_append, htot,
          List.range'_succ]
        rfl
      · simpa using hu.header
      · intro q hq
        rw [hu.same q hq, hpage]
      · rw [hu.total, htot]
        simp
        omega
      · rw [hu.size, hsize]
        simp
        omega
    · obtain ⟨q, fl', rfl, hq, hfl'⟩ := hfl.cons_of_ne hnull
      simp only [ne_eq, hnull, not_false_eq_true, if_true]
      refine Returns.bind_eq (FreePageManager.load_ok hq) ?_
      refine (setFreePageHead_yields h1 _).bind ?_
      intro t ht
      have hne : hd.freePageHead ≠ 1 := by
        intro h
        rw [Disk.FreeNext, h, h1] at hq
        cases hq
      have hf1 : ∀ a ∈ fl', a ≠ 1 := by
        rintro a ha rfl
        obtain ⟨-, l₂, -, hc⟩ := hfl'.of_mem ha
        obtain ⟨-, -, b, hb, -⟩ := hc
        rw [Disk.FreeNext, h1] at hb
        cases hb
      have hst : t.disk.Sound := by rw [ht]; exact hs.set_first
      have h1t : t.disk.page 1 = .first { hd with freePageHead := q } := by rw [ht]; simp
      have hflt : Chain t.disk.FreeNext nullPage q fl' := by
        refine freeChain_frame hfl' ?_
        intro a ha
        rw [ht, Disk.set_page_of_ne (hf1 a ha)]
      refine (ih t _ fl' _ hst h1t hflt).bind ?_
      rintro pages u ⟨rfl, hu⟩
      refine returns_pure.mpr ⟨?_, ?_, ?_, ?_, ?_⟩
      · rw [ht]
        simp [takenPages]
      · rw [hu.header]
        simp
      · intro a ha
        rw [hu.same a ha, ht, Disk.set_page_of_ne ha]
      · rw [hu.total, ht]
        simp
      · rw [hu.size, ht]
        simp

omit [Build] in
/-- The pages written, linked in order and carrying the chunks; all others untouched. -/
theorem writeChunks_spec : ∀ (ps : List (Nat × List Byte)) (s : Pager), (ps.map (·.1)).Nodup →
    (∀ p ∈ ps.map (·.1), p ≠ 0 ∧ p ≤ s.disk.size) →
    Returns (writeChunks ps) s (fun _ t => t.disk.total = s.disk.total ∧
      t.disk.size = s.disk.size ∧ (∀ q, q ∉ ps.map (·.1) → t.disk.page q = s.disk.page q) ∧
      t.disk.OverflowChain ((ps.map (·.1)).headD nullPage) (ps.map (·.1)) (ps.map (·.2)).flatten)
  | [], s, _, _ => returns_pure.mpr ⟨rfl, rfl, fun _ _ => rfl, rfl, rfl⟩
  | (p, chunk) :: rest, s, hnd, hb => by
    obtain ⟨hp0, hps⟩ := hb p (by simp)
    simp only [List.map_cons, List.nodup_cons] at hnd
    have hnext : (rest.head?.map (·.1)).getD nullPage = (rest.map (·.1)).headD nullPage := by
      cases rest <;> rfl
    rw [writeChunks, hnext]
    refine Returns.bind_eq (writePage_ok hp0 _) ?_
    have hw := disk_write (g := .overflow ⟨(rest.map (·.1)).headD nullPage, chunk.length⟩ chunk)
      hp0 hps
    generalize s.write p _ = t at hw
    refine (writeChunks_spec rest t hnd.2 ?_).mono ?_
    · intro q hq
      rw [hw]
      exact hb q (by simp only [List.map_cons, List.mem_cons]; exact .inr hq)
    · rintro _ u ⟨htot, hsz, hsame, hchain⟩
      rw [hw] at htot hsz
      have hup : u.disk.page p =
          .overflow ((rest.map (·.1)).headD nullPage) chunk := by
        rw [hsame p hnd.1, hw, Disk.set_page_self]
        simp [Page.logical, List.takeD_eq_take]
      refine ⟨htot, hsz, ?_, ?_, ?_⟩
      · intro q hq
        simp only [List.map_cons, List.mem_cons, not_or] at hq
        rw [hsame q hq.2, hw, Disk.set_page_of_ne hq.1]
      · exact ⟨rfl, hp0, _, ⟨chunk, hup⟩, hchain.1⟩
      · have hc : u.disk.content p = chunk := by simp only [Disk.content, hup]
        simp only [List.map_cons, List.flatMap_cons, List.flatten_cons, hc, hchain.2]

/-- What a new overflow chain changes in the file. -/
structure ChainWritten (d d' : Disk) (chunks : List (List Byte)) (recordPage : Nat)
    (fl : List Nat) : Prop where
  chain : d'.OverflowChain recordPage (takenPages fl d.total chunks.length) chunks.flatten
  header : ∀ hd, d.page 1 = .first hd → d'.page 1 =
    .first { hd with freePageHead := (fl.drop chunks.length).headD nullPage }
  same : ∀ q, q ≠ 1 → q ∉ takenPages fl d.total chunks.length → d'.page q = d.page q
  total : d'.total = d.total + (chunks.length - fl.length)
  sound : d'.Sound

omit [Build] in
theorem free_bounds {d : Disk} (hs : d.Sound) (hfl : d.FreeList fl) :
    ∀ p ∈ fl, p ≠ 0 ∧ p ≠ 1 ∧ p ≤ d.total ∧ ∃ q, d.page p = .free q := by
  obtain ⟨hd, h1, hc⟩ := hfl
  intro p hp
  obtain ⟨-, l₂, -, hcp⟩ := hc.of_mem hp
  obtain ⟨-, hne, q, hq, -⟩ := hcp
  refine ⟨hne, ?_, hs.bounded p (by rw [hq]; simp), q, hq⟩
  rintro rfl
  rw [Disk.FreeNext, h1] at hq
  cases hq

omit [Build] in
theorem free_nodup {d : Disk} (hfl : d.FreeList fl) : fl.Nodup := by
  obtain ⟨hd, -, hc⟩ := hfl
  refine hc.nodup ?_
  intro a q q' h h'
  rw [Disk.FreeNext, h] at h'
  cases h'
  rfl

/-- `_write_overflow_chain` for every payload whose chunking loop ends. -/
theorem createOverflowPage_spec {payload : List Byte} {chunks : List (List Byte)}
    (hs : s.disk.Sound) (hfl : s.disk.FreeList fl) (hch : payloadChunks payload = some chunks) :
    Returns (createOverflowPage payload) s
      (fun rp t => ChainWritten s.disk t.disk chunks rp fl) := by
  have hbounds := free_bounds hs hfl
  have hnd := free_nodup hfl
  obtain ⟨hd, h1, hc⟩ := hfl
  rw [createOverflowPage, writeOverflowChain, hch]
  cases chunks with
  | nil =>
    refine returns_pure.mpr ?_
    refine ⟨?_, ?_, fun _ _ _ => rfl, by simp, hs⟩
    · exact ⟨by simp [takenPages, Chain], by simp [takenPages]⟩
    · intro hd' h1'
      rw [h1] at h1'
      cases h1'
      rw [List.length_nil, List.drop_zero, ← hc.head_eq, h1]
  | cons chunk chunks =>
    dsimp only
    generalize hn : (chunk :: chunks).length = n
    refine Returns.bind_eq (FirstPageManager.load_ok h1) ?_
    refine (takePages_spec _ s _ fl hd hs h1 hc).bind ?_
    rintro pages t ⟨rfl, ht⟩
    have hplen := length_takenPages fl s.disk.total n
    have hfst : ((takenPages fl s.disk.total n).zip (chunk :: chunks)).map (·.1) =
        takenPages fl s.disk.total n :=
      List.map_fst_zip (by omega)
    have hsnd : ((takenPages fl s.disk.total n).zip (chunk :: chunks)).map (·.2) =
        chunk :: chunks :=
      List.map_snd_zip (by omega)
    have hmem : ∀ p ∈ takenPages fl s.disk.total n, p ≠ 0 ∧ p ≠ 1 ∧ p ≤ t.disk.total := by
      intro p hp
      have := hs.pos
      rw [ht.total]
      rcases mem_takenPages hp with hp | hp
      · obtain ⟨h0, h1', hle, -⟩ := hbounds p hp
        exact ⟨h0, h1', by omega⟩
      · omega
    have hsize : t.disk.size = t.disk.total := by rw [ht.size, ht.total, hs.size_eq]
    have hw := writeChunks_spec ((takenPages fl s.disk.total n).zip (chunk :: chunks)) t
    rw [hfst, hsnd] at hw
    refine (hw (nodup_takenPages hnd (fun p hp => (hbounds p hp).2.2.1))
      (fun p hp => ⟨(hmem p hp).1, by rw [hsize]; exact (hmem p hp).2.2⟩)).bind ?_
    rintro _ u ⟨htot, hsz, hsame, hchain⟩
    obtain ⟨a, rest, hcons⟩ : ∃ a rest, takenPages fl s.disk.total n = a :: rest := by
      cases hp : takenPages fl s.disk.total n with
      | nil =>
        rw [hp] at hplen
        simp only [List.length_nil, List.length_cons] at hplen hn
        omega
      | cons a rest => exact ⟨a, rest, rfl⟩
    refine (returns_of_eq (index_ok (a := a) (by rw [hcons]; rfl))).mpr ?_
    have hu1 : u.disk.page 1 = t.disk.page 1 := hsame 1 (fun h => (hmem 1 h).2.1 rfl)
    subst hn
    refine ⟨?_, ?_, ?_, ?_, ?_, ?_, ?_⟩
    · rw [hcons] at hchain ⊢
      exact hchain
    · intro hd' h1'
      rw [h1] at h1'
      cases h1'
      rw [hu1, ht.header]
    · intro q hq hn
      rw [hsame q hn, ht.same q hq]
    · rw [htot, ht.total]
    · rw [hsz, htot, hsize]
    · exact ⟨_, by rw [hu1, ht.header]⟩
    · intro q hq
      by_cases hn : q ∈ takenPages fl s.disk.total (chunk :: chunks).length
      · rw [htot]
        exact (hmem q hn).2.2
      · rw [hsame q hn] at hq
        by_cases hq1 : q = 1
        · subst hq1
          rw [htot, ht.total]
          have := hs.pos
          omega
        · rw [ht.same q hq1] at hq
          have := hs.bounded q hq
          rw [htot, ht.total]
          omega

/-- Reading a chain back; it is no longer than the file. -/
theorem readChain_ok : ∀ (pages : List Nat) (fuel p : Nat)
    (payload : List Byte), s.disk.OverflowChain p pages payload → pages.length < fuel →
    readChain fuel p s = .ok payload s
  | pages, 0, _, _, _, hf => absurd hf (Nat.not_lt_zero _)
  | [], fuel + 1, p, payload, ⟨hc, hp⟩, _ => by
    have : p = nullPage := hc
    simp only [List.flatMap_nil] at hp
    subst hp
    simp only [readChain, this, if_true]
    rfl
  | a :: pages, fuel + 1, p, payload, ⟨hc, hp⟩, hf => by
    obtain ⟨rfl, hne, q, ⟨content, hpage⟩, hrest⟩ := hc
    obtain ⟨n, raw, hr, htake, h0, -⟩ := page_overflow hpage
    have hcont : s.disk.content p = content := by simp only [Disk.content, hpage]
    rw [List.flatMap_cons, hcont] at hp
    subst hp
    have ih := readChain_ok pages fuel q _ ⟨hrest, rfl⟩ (by simpa using hf)
    have hload : OverflowPageManager.load p s = .ok ⟨p, q, n⟩ s := by
      rw [OverflowPageManager.load, bind_ok (readPage_ok h0 _), hr]
      rfl
    have hget : (⟨p, q, n⟩ : OverflowPageManager).getOverflowContent s = .ok content s := by
      rw [OverflowPageManager.getOverflowContent, bind_ok (readPage_ok h0 _), hr]
      simp only [htake]
      rfl
    simp only [readChain, hne, if_false]
    rw [bind_ok hload, bind_ok hget, bind_ok ih]
    rfl

omit [Build] in
theorem overflow_nodup {d : Disk} {p : Nat} {pages : List Nat} {payload : List Byte}
    (h : d.OverflowChain p pages payload) : pages.Nodup := by
  refine h.1.nodup ?_
  rintro a q q' ⟨c, hc⟩ ⟨c', hc'⟩
  rw [hc] at hc'
  cases hc'
  rfl

omit [Build] in
theorem overflow_bounds {d : Disk} {p : Nat} {pages : List Nat} {payload : List Byte}
    (hs : d.Sound) (h : d.OverflowChain p pages payload) :
    ∀ a ∈ pages, a ≠ 0 ∧ a ≠ 1 ∧ a ≤ d.total ∧ ∃ q c, d.page a = .overflow q c := by
  intro a ha
  obtain ⟨-, l₂, -, -, hne, q, ⟨c, hc⟩, -⟩ := h.1.of_mem ha
  refine ⟨hne, ?_, hs.bounded a (by rw [hc]; simp), q, c, hc⟩
  rintro rfl
  obtain ⟨hd, h1⟩ := hs.first
  rw [h1] at hc
  cases hc

omit [Build] in
/-- A chain is no longer than the file. -/
theorem overflow_length_le {d : Disk} {p : Nat} {pages : List Nat} {payload : List Byte}
    (hs : d.Sound) (h : d.OverflowChain p pages payload) : pages.length ≤ d.total := by
  have hsub : pages ⊆ List.range' 1 d.total := by
    intro a ha
    obtain ⟨h0, -, hle, -⟩ := overflow_bounds hs h a ha
    rw [List.mem_range'_1]
    omega
  simpa using (overflow_nodup h).length_le_of_subset hsub

/-- The cell's chain is the payload, and the size it records is the real one. -/
theorem getPayload_find {lpm : LeafPageManager} {c : LeafCell} {pages : List Nat}
    {payload : List Byte} (hs : s.disk.Sound)
    (hfind : lpm.cells.find? (fun a => a.key = c.key) = some c)
    (h : s.disk.OverflowChain c.recordPage pages payload) (hsize : payload.length = c.payloadSize) :
    lpm.getPayload c.key s = .ok (some payload) s := by
  have hlen := overflow_length_le hs h
  have hread := readChain_ok pages (s.file.numPages + 1) c.recordPage payload h (by
    have := hs.size_eq
    have hsz : s.file.numPages = s.disk.size := rfl
    omega)
  simp only [LeafPageManager.getPayload, hfind]
  rw [bind_ok get_ok, bind_ok hread, bind_ok (assert_ok (.inr hsize))]
  rfl

theorem getPayload_ok {lo hi : List LeafCell} {c : LeafCell} {p prev next : Nat}
    {pages : List Nat} {payload : List Byte} (hs : s.disk.Sound)
    (hlo : ∀ a ∈ lo, a.key < c.key) (h : s.disk.OverflowChain c.recordPage pages payload)
    (hsize : payload.length = c.payloadSize) :
    (leafManager p (lo ++ c :: hi) prev next).getPayload c.key s = .ok (some payload) s := by
  refine getPayload_find hs ?_ h hsize
  simp only [leafManager]
  rw [List.find?_append, List.find?_eq_none.mpr]
  · simp
  · intro a ha
    simpa using (hlo a ha).ne

omit [Build] in
/-- A page in use is not one a new chain takes. -/
theorem notMem_takenPages {d : Disk} {p n : Nat} (hs : d.Sound) (hfl : d.FreeList fl)
    (hp : d.page p ≠ .none) (hf : ∀ q, d.page p ≠ .free q) : p ∉ takenPages fl d.total n := by
  intro hm
  rcases mem_takenPages hm with h | h
  · obtain ⟨-, -, -, q, hq⟩ := free_bounds hs hfl p h
    exact hf q hq
  · have := hs.bounded p hp
    omega

/-- An insertion writes a chain, then the page. -/
theorem insertCell_eq {lo hi : List LeafCell} {p prev next : Nat} {k : DefaultPagerKey}
    {v : List Byte} {chunks : List (List Byte)} (hs : s.disk.Sound) (hfl : s.disk.FreeList fl)
    (hch : payloadChunks v = some chunks)
    (h : s.disk.page p = .leaf (lo ++ hi) prev next)
    (hlo : ∀ a ∈ lo, a.key < k) (hhi : ∀ b ∈ hi, k < b.key)
    (hm : (lo ++ hi).length < leafMaxCells) :
    ∃ rp t page, createOverflowPage v s = .ok rp t ∧ ChainWritten s.disk t.disk chunks rp fl ∧
      (leafManager p (lo ++ hi) prev next).insertCell k v s =
        .ok (true, leafManager p (lo ++ ⟨v.length % 2 ^ 32, k, rp⟩ :: hi) prev next)
          (t.write p page) ∧
      page.logical = .leaf (lo ++ ⟨v.length % 2 ^ 32, k, rp⟩ :: hi) prev next ∧
      p ≠ 0 ∧ p ≤ t.file.numPages := by
  obtain ⟨hfit, hsub, -, hsum⟩ := leafFree_succ hm
  have hfind : findKey LeafCell.key k (lo ++ hi) = (false, lo.length) := findKey_missing hlo hhi
  obtain ⟨rp, t, hrun, ht⟩ := createOverflowPage_spec hs hfl hch
  have hpt : t.disk.page p = .leaf (lo ++ hi) prev next := by
    rw [ht.same p, h]
    · rintro rfl
      obtain ⟨hd, h1⟩ := hs.first
      rw [h1] at h
      cases h
    · exact notMem_takenPages hs hfl (by simp [h]) (by simp [h])
  obtain ⟨area, hr, htk, -, h0, hp⟩ := page_leaf hpt
  have hlen : (lo ++ (⟨v.length % 2 ^ 32, k, rp⟩ : LeafCell) :: hi).length
      = (lo ++ hi).length + 1 := by simp; omega
  let page : Page := .leaf ⟨(lo ++ hi).length + 1, leafFree ((lo ++ hi).length + 1), next, prev⟩
    (overwrite area 0 (lo ++ ⟨v.length % 2 ^ 32, k, rp⟩ :: hi))
  have hins : Returns ((leafManager p (lo ++ hi) prev next).insertCell k v) s (fun res t' =>
      res = (true, leafManager p (lo ++ ⟨v.length % 2 ^ 32, k, rp⟩ :: hi) prev next) ∧
        t' = t.write p page) := by
    simp only [LeafPageManager.insertCell, leafManager]
    refine Returns.bind_eq (assert_ok (.inr rfl)) ?_
    simp only [hfind, not_lt.mpr hfit, if_false, Bool.false_eq_true]
    refine Returns.bind_eq hrun ?_
    simp only [insertIdx_cut]
    refine Returns.bind_eq (writeLeafCells_ok hr h0 _) ?_
    refine Returns.bind_eq (assert_ok (.inr (by simpa only [hsub] using hsum))) ?_
    refine Returns.bind_eq (writeLeafHeader_ok read_write h0 _) ?_
    exact returns_pure.mpr ⟨by simp only [hlen, hsub], by simp only [write_write, hsub]; rfl⟩
  obtain ⟨res, t', hins, rfl, rfl⟩ := hins
  exact ⟨rp, t, page, hrun, ht, hins,
    logical_leaf (by rw [← hlen]; exact length_overwrite_takeD _ _) hlen.symm
      (by simp only [hlen]) (by omega), h0, hp⟩

theorem insertCell_spec {lo hi : List LeafCell} {p prev next : Nat} {k : DefaultPagerKey}
    {v : List Byte} {chunks : List (List Byte)} (hs : s.disk.Sound) (hfl : s.disk.FreeList fl)
    (hch : payloadChunks v = some chunks)
    (h : s.disk.page p = .leaf (lo ++ hi) prev next)
    (hlo : ∀ a ∈ lo, a.key < k) (hhi : ∀ b ∈ hi, k < b.key)
    (hm : (lo ++ hi).length < leafMaxCells) :
    Returns ((leafManager p (lo ++ hi) prev next).insertCell k v) s (fun res t => res.1 = true ∧
      ∃ d rp, ChainWritten s.disk d chunks rp fl ∧
        t.disk = d.set p (.leaf (lo ++ ⟨v.length % 2 ^ 32, k, rp⟩ :: hi) prev next)) := by
  obtain ⟨rp, t, page, -, ht, hrun, hpage, h0, hp⟩ := insertCell_eq hs hfl hch h hlo hhi hm
  refine ⟨_, _, hrun, rfl, t.disk, rp, ht, ?_⟩
  rw [disk_write h0 hp, hpage]

/-- A payload whose chunking loop never ends is not stored, and nothing else happens. -/
theorem createOverflowPage_diverges {payload : List Byte} (hch : payloadChunks payload = none) :
    Raises (createOverflowPage payload) s (fun e t => e = .diverges ∧ t = s) := by
  rw [createOverflowPage, writeOverflowChain, hch]
  exact raises_throw.mpr ⟨rfl, rfl⟩

theorem insertCell_diverges {cells : List LeafCell} {p prev next i : Nat} {k : DefaultPagerKey}
    {v : List Byte} (hfind : findKey LeafCell.key k cells = (false, i))
    (hm : cells.length < leafMaxCells) (hch : payloadChunks v = none) :
    Raises ((leafManager p cells prev next).insertCell k v) s
      (fun e t => e = .diverges ∧ t = s) := by
  obtain ⟨hfit, -⟩ := leafFree_succ hm
  simp only [LeafPageManager.insertCell, leafManager]
  refine Raises.bind_eq (assert_ok (.inr rfl)) ?_
  simp only [hfind, not_lt.mpr hfit, if_false, Bool.false_eq_true]
  exact (createOverflowPage_diverges hch).bind_left

end Writing

end Cpplite
