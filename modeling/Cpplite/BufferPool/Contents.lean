import Cpplite.BufferPool.Frames

/-!
What a pool shows of the pages it was given: the bytes that were last written to them.

This holds as long as nothing leaves its frame unwritten. `evict_page` resets a frame without
writing it back, and a frame that is taken from a victim is not written back either.
-/
namespace Cpplite

open Exec

namespace StorageEngine

/-! ### Pages of an engine -/

/-- What is in a page. -/
def Tables.page (T : Tables) (pgkey : PageKey) : Option (List Byte) :=
  (T pgkey.1).bind fun pages => pages[pgkey.2]?

section Pages

variable {s u : StorageEngine} {T : Tables} {pgkey : PageKey} {page buffer data : List Byte}
  {pages : List (List Byte)} {t : Nat}

theorem Tables.page_update (hother : ∀ p, p ≠ pgkey.2 → pages[p]? = ((T pgkey.1).getD [])[p]?)
    {key : PageKey} (hkey : key ≠ pgkey) :
    Tables.page (Function.update T pgkey.1 (some pages)) key = T.page key := by
  obtain ⟨t, p⟩ := key
  by_cases ht : t = pgkey.1
  · subst ht
    have hp : p ≠ pgkey.2 := by
      rintro rfl
      exact hkey rfl
    cases hT : T pgkey.1 <;> simp [Tables.page, hT, hother p hp]
  · simp [Tables.page, ht]

variable [Build]

theorem Kept.readable (h : Kept s T) (hp : T.page pgkey = some page) :
    ∃ u, readPage pgkey [] s = .ok page u ∧ Kept u T ∧ u.config = s.config := by
  obtain ⟨pages, ht, hpage⟩ := Option.bind_eq_some_iff.mp hp
  obtain ⟨c, hok, hkept⟩ := readPage_ok (p := pgkey.2) [] h ht hpage
  rw [List.drop_nil, List.append_nil] at hok
  exact ⟨_, hok, hkept, rfl⟩

theorem Kept.reads (h : Kept s T) (hp : T.page pgkey = some page)
    (hread : readPage pgkey [] s = .ok buffer u) : buffer = page ∧ Kept u T ∧ u.config = s.config := by
  obtain ⟨u', hok, hkept, hconfig⟩ := h.readable hp
  rw [hok] at hread
  cases hread
  exact ⟨rfl, hkept, hconfig⟩

theorem Kept.writable (h : Kept s T) (hp : T.page pgkey = some page)
    (hlen : data.length = s.config.pageSize) : ∃ buffer u, writePage pgkey data s = .ok buffer u := by
  obtain ⟨pages, ht, hpage⟩ := Option.bind_eq_some_iff.mp hp
  obtain ⟨buffer, u, hok, -⟩ := writePage_ok (p := pgkey.2) h ht (List.getElem?_eq_some_iff.mp hpage).1 hlen
  exact ⟨buffer, u, hok⟩

theorem Kept.writes (h : Kept s T) (hp : T.page pgkey = some page)
    (hlen : data.length = s.config.pageSize) (hw : writePage pgkey data s = .ok buffer u) :
    ∃ T', Kept u T' ∧ u.config = s.config ∧ T'.page pgkey = some data ∧
      ∀ key, key ≠ pgkey → T'.page key = T.page key := by
  obtain ⟨pages, ht, hpage⟩ := Option.bind_eq_some_iff.mp hp
  have hlt := (List.getElem?_eq_some_iff.mp hpage).1
  obtain ⟨_, _, hok, -, hkept, hconfig⟩ := writePage_ok (p := pgkey.2) h ht hlt hlen
  rw [show writePage pgkey data s = _ from hok] at hw
  cases hw
  refine ⟨_, hkept, hconfig, ?_, fun key hkey => Tables.page_update (fun p hne => ?_) hkey⟩
  · simp [Tables.page, List.getElem?_set_self hlt]
  · rw [ht, Option.getD_some, List.getElem?_set_ne (Ne.symm hne)]

/-- No page of a table that is not there. -/
theorem allocatePage_fails (h : Kept s T) (ht : T t = none) : ¬ allocatePage t s = .ok pgkey u := by
  intro hok
  have hraises : Raises (allocatePage t) s (fun _ _ => True) := by
    by_cases hb : Build.ndebug = true
    · refine .bind_eq get_ok (.bind_eq (assert_ok (.inl hb)) ?_)
      obtain ⟨e, u, he, -⟩ := getLatestPage_fails h ht
      exact Raises.bind_left ⟨e, u, he, trivial⟩
    · refine .bind_eq get_ok ⟨_, _, bind_error (assert_fails (by simpa using hb) ?_), trivial⟩
      simp [LocalFS.dirExists, h.dirs, ht]
  obtain ⟨e, u, he, -⟩ := hraises
  rw [hok] at he
  cases he

theorem Kept.allocates (h : Kept s T) (hroom : Op.Allowed s (.allocatePage t))
    (halloc : allocatePage t s = .ok pgkey u) :
    0 < pgkey.2 ∧ ∃ T', Kept u T' ∧ u.config = s.config ∧ T.page pgkey = none ∧
      T'.page pgkey = some (zeros s.config) ∧ ∀ key, key ≠ pgkey → T'.page key = T.page key := by
  cases ht : T t with
  | none => exact absurd halloc (allocatePage_fails h ht)
  | some pages =>
    have hpos := List.length_pos_iff.mpr (h.pages t pages ht).ne_nil
    have hreach : InReach s.config pages.length := by
      have hr := hroom (metadataOf pages) (by rw [h.counted, ht, Option.map_some])
      simpa [metadataOf, Nat.sub_add_cancel hpos] using hr
    obtain ⟨_, _, hok, rfl, hkept, hconfig⟩ := allocatePage_ok h ht hreach
    rw [hok] at halloc
    cases halloc
    refine ⟨hpos, _, hkept, hconfig, ?_, ?_, fun key hkey => ?_⟩
    · simp [Tables.page, ht]
    · simp [Tables.page]
    · refine Tables.page_update (fun p hne => ?_) hkey
      rw [ht, Option.getD_some]
      have hne' : p ≠ pages.length := hne
      by_cases hlt : p < pages.length
      · exact List.getElem?_append_left hlt
      · rw [List.getElem?_eq_none (by simp; omega), List.getElem?_eq_none (by omega)]

end Pages

end StorageEngine

/-! ### Pages of a pool -/

/-- What was last written to each page that `new_page` made. -/
abbrev Memory := PageKey → Option (List Byte)

namespace BufferPoolManager

variable {E : Type} {s t : BufferPoolManager E} {M : Memory} {pgkey : PageKey} {f : Nat}

/-- The storage has every page, and what was last written to it is there or in a dirty frame. -/
def Backed (M : Memory) (s : BufferPoolManager E) : Prop :=
  s.storageEngine.config.pageSize = pageSize ∧ ∃ T, StorageEngine.Kept s.storageEngine T ∧
    ∀ pgkey content, M pgkey = some content → ∃ page, T.page pgkey = some page ∧
      ((∃ f, s.frameTable.lookup pgkey = some f ∧ (s.shared.frames f).dirty = true) ∨ page = content)

/-- A frame with a page has what was last written to it. -/
def Shows (M : Memory) (s : BufferPoolManager E) : Prop :=
  ∀ pgkey f, s.frameTable.lookup pgkey = some f → M pgkey = some (s.shared.frames f).data

variable [Build]

theorem Backed.flushed {buffer : List Byte} {eng : StorageEngine} (h : Backed M s)
    (hpart : s.Partitioned) (hshows : Shows M s) (hlen : (s.shared.frames f).data.length = pageSize)
    (hmap : s.frameTable.lookup pgkey = some f)
    (hw : StorageEngine.writePage pgkey (s.shared.frames f).data s.storageEngine = .ok buffer eng) :
    Backed M (s.flushed f eng) := by
  obtain ⟨hsize, T, hkept, hpages⟩ := h
  obtain ⟨page, hpage, -⟩ := hpages pgkey _ (hshows pgkey f hmap)
  obtain ⟨T', hkept', hconfig, hself, hother⟩ := hkept.writes hpage (hlen.trans hsize.symm) hw
  refine ⟨(congrArg EngineConfig.pageSize hconfig).trans hsize, T', hkept', fun key content hkey => ?_⟩
  by_cases hne : key = pgkey
  · subst hne
    rw [hshows key f hmap, Option.some_inj] at hkey
    exact ⟨_, hself, .inr hkey⟩
  · obtain ⟨page', hpage', hor⟩ := hpages key content hkey
    refine ⟨page', (hother key hne).trans hpage', hor.imp_left ?_⟩
    rintro ⟨g, hg, hdirty⟩
    have hgf : g ≠ f := by
      rintro rfl
      exact hne (hpart.injective hg hmap)
    exact ⟨g, hg, by simpa [BufferPoolManager.flushed, Shared.setFrame, hgf] using hdirty⟩

theorem Backed.writtenBack {l : List (PageKey × Nat)} (hwb : WrittenBack s l t) (h : Backed M s)
    (hpart : s.Partitioned) (hshows : Shows M s)
    (hlen : ∀ f, (s.shared.frames f).data.length = pageSize)
    (hmap : ∀ e ∈ l, s.frameTable.lookup e.1 = some e.2) : Backed M t := by
  induction hwb with
  | nil s => exact h
  | @cons s t pgkey f rest buffer eng hlatch hw hrest ih =>
    have hdata : ∀ g, ((s.flushed f eng).shared.frames g).data = (s.shared.frames g).data :=
      (WrittenBack.cons hlatch hw (.nil _)).data
    refine ih (h.flushed hpart hshows (hlen f) (hmap _ List.mem_cons_self) hw) (hpart.of_eq rfl rfl rfl)
      (fun key g hkey => ?_) (fun g => by rw [hdata, hlen]) fun e he => hmap e (List.mem_cons_of_mem _ he)
    rw [hdata]
    exact hshows key g hkey

omit [Build] in
/-- `flush_all_pages` goes through the frame table. -/
theorem lookup_of_mapped {e : PageKey × Nat} (h : e ∈ s.mapped) :
    s.frameTable.lookup e.1 = some e.2 := by
  simp only [mapped, List.mem_mergeSort, List.mem_map] at h
  obtain ⟨entry, hmem, rfl⟩ := h
  exact AList.mem_lookup_iff.mpr hmem

/-- Frames that are written back are clean. -/
theorem WrittenBack.clean {l : List (PageKey × Nat)} (h : WrittenBack s l t)
    (hf : (∃ pgkey, (pgkey, f) ∈ l) ∨ (s.shared.frames f).dirty = false) :
    (t.shared.frames f).dirty = false := by
  induction h with
  | nil s => simpa using hf
  | @cons s t pgkey g rest buffer eng _ _ _ ih =>
    apply ih
    by_cases hg : f = g
    · subst hg
      exact .inr (by simp [flushed, Shared.setFrame])
    · refine hf.imp ?_ fun hclean => by simpa [flushed, Shared.setFrame, hg] using hclean
      rintro ⟨key, hmem⟩
      rcases List.mem_cons.mp hmem with heq | hmem
      · cases heq
        exact absurd rfl hg
      · exact ⟨key, hmem⟩

omit [Build] in
theorem mem_mapped {pgkey : PageKey} (h : s.frameTable.lookup pgkey = some f) : (pgkey, f) ∈ s.mapped := by
  simp only [mapped, List.mem_mergeSort, List.mem_map]
  exact ⟨⟨pgkey, f⟩, AList.mem_lookup_iff.mp h, rfl⟩

end BufferPoolManager

namespace PoolSession

open BufferPoolManager

variable {E : Type} [Evictor E] [Build]

/-- What is remembered after an operation. -/
def remember (s : PoolSession E) (M : Memory) : Op → Option PageKey → Memory
  | .newPage _, some pgkey => Function.update M pgkey (some (List.replicate pageSize 0))
  | .overwrite i data, _ => match (s.vars .write)[i]? with
    | some (some g) => Function.update M g.pgkey (some data)
    | _ => M
  | _, _ => M

/-- A run, with what it remembers. -/
inductive MemoryRun (ok : Memory → PoolSession E → Op → Prop) (s₀ : PoolSession E) :
    Memory → PoolSession E → Prop where
  | start : MemoryRun ok s₀ (fun _ => none) s₀
  | next {M : Memory} {s t : PoolSession E} {op : Op} {a : Option PageKey}
      (h : MemoryRun ok s₀ M s) (hok : ok M s op) (hnext : Next s op a t) :
      MemoryRun ok s₀ (remember s M op a) t

/-- Calls for pages that `new_page` returned, and pages written whole through valid guards. -/
def Proper (M : Memory) (s : PoolSession E) : Op → Prop
  | .getPage _ pgkey | .evictPage pgkey | .flushPage pgkey => M pgkey ≠ none
  | .overwrite i data => data.length = pageSize ∧
    ∀ g, (s.vars .write)[i]? = some (some g) → g.isValid = true
  | _ => True

/-- No page leaves its frame unwritten, and new pages are where their offsets are below `2^63`. -/
def Harmless (s : PoolSession E) (op : Op) : Prop :=
  ¬ TakesVictim s op ∧ match op with
    | .evictPage pgkey => ∀ f, s.pool.frameTable.lookup pgkey = some f →
      (s.pool.shared.frames f).pins = 0 → (s.pool.shared.frames f).dirty = false
    | .newPage tblId => StorageEngine.Op.Allowed s.pool.storageEngine (.allocatePage tblId)
    | _ => True

/-- The pool shows what is remembered, as long as calls come back, and so do its guards. -/
structure Recalls (M : Memory) (s : PoolSession E) : Prop where
  settled : Settled s
  length : ∀ f, (s.pool.shared.frames f).data.length = pageSize
  shows : Shows M s.pool
  bound : ∀ kind (g : PageGuard kind), some g ∈ s.vars kind → g.isValid = true →
    ∃ f, g.frame = some f ∧ s.pool.frameTable.lookup g.pgkey = some f
  backed : s.pool.shared.bpmLatch = false → Backed M s.pool

section Steps

variable {M M' : Memory} {s t : PoolSession E} {op : Op} {a : Option PageKey} {kind : GuardKind}
  {pgkey : PageKey} {f : Nat} {rest : List Nat} {buffer : List Byte} {eng : StorageEngine}
  {p : BufferPoolManager E} {vars : GuardVars}

omit [Evictor E] [Build] in
/-- A valid guard's page is in the guard's frame. -/
theorem Recalls.lookup {g : PageGuard kind} (h : Recalls M s) (hg : some g ∈ s.vars kind)
    (hval : g.isValid = true) (hf : g.frame = some f) :
    s.pool.frameTable.lookup g.pgkey = some f := by
  obtain ⟨f', hf', hmap⟩ := h.bound kind g hg hval
  rw [hf, Option.some_inj] at hf'
  exact hf' ▸ hmap

omit [Build] in
theorem Harmless.unforced (h : Harmless s op) : Unforced s op := by
  refine ⟨h.1, ?_⟩
  rintro tblId rfl metadata hm
  exact (h.2 metadata hm).1

omit [Build] in
theorem loaded_data (h : Recalls M s) (hbuffer : buffer.length = pageSize) (g : Nat) :
    ((s.pool.loaded pgkey f rest buffer eng).shared.frames g).data =
      if g = f then buffer else (s.pool.shared.frames g).data := by
  by_cases hg : g = f
  · subst hg
    have hrest : (s.pool.shared.frames g).data.drop pageSize = [] :=
      List.drop_eq_nil_of_le (h.length g).le
    have htake : buffer.take pageSize = buffer := List.take_of_length_le hbuffer.le
    simp [BufferPoolManager.loaded, hrest, htake]
  · simp [BufferPoolManager.loaded, hg]

omit [Build] in
/-- A page comes into a free frame. -/
theorem Recalls.loaded (h : Recalls M s) (hs : Settled ⟨s.pool.loaded pgkey f rest buffer eng, s.vars⟩)
    (hfree : s.pool.freeList = f :: rest) (hmap : s.pool.frameTable.lookup pgkey = none)
    (hbuffer : buffer.length = pageSize) (hself : M' pgkey = some buffer)
    (hother : ∀ key, key ≠ pgkey → M' key = M key)
    (hbacked : Backed M' (s.pool.loaded pgkey f rest buffer eng)) :
    Recalls M' ⟨s.pool.loaded pgkey f rest buffer eng, s.vars⟩ := by
  have hf : f ∈ s.pool.freeList := by
    rw [hfree]
    exact List.mem_cons_self
  have hdata : ∀ g, ((s.pool.loaded pgkey f rest buffer eng).shared.frames g).data =
      if g = f then buffer else (s.pool.shared.frames g).data := loaded_data h hbuffer
  refine ⟨hs, fun g => ?_, fun key g hkey => ?_, fun kind g hg hval => ?_, fun _ => hbacked⟩
  · rw [hdata]
    split
    · exact hbuffer
    · exact h.length g
  · rw [hdata]
    by_cases hne : key = pgkey
    · subst hne
      simp only [BufferPoolManager.loaded, AList.lookup_insert, Option.some_inj] at hkey
      rw [if_pos hkey.symm, hself]
    · simp only [BufferPoolManager.loaded, AList.lookup_insert_ne hne] at hkey
      have hgf : g ≠ f := by
        rintro rfl
        exact h.settled.partitioned.not_free hkey hf
      rw [if_neg hgf, hother key hne, h.shows key g hkey]
  · obtain ⟨f', hf', hbound⟩ := h.bound kind g hg hval
    have hne : g.pgkey ≠ pgkey := by
      intro heq
      rw [heq, hmap] at hbound
      cases hbound
    exact ⟨f', hf', (AList.lookup_insert_ne hne).trans hbound⟩

omit [Evictor E] [Build] in
/-- Nothing changes but who pins what. -/
theorem Recalls.repin (h : Recalls M s) (hs : Settled ⟨p, vars⟩)
    (htable : p.frameTable = s.pool.frameTable) (hdata : ∀ g, (p.shared.frames g).data =
      (s.pool.shared.frames g).data)
    (hbound : ∀ kind (g : PageGuard kind), some g ∈ vars kind → g.isValid = true →
      ∃ f, g.frame = some f ∧ s.pool.frameTable.lookup g.pgkey = some f)
    (hbacked : p.shared.bpmLatch = false → Backed M p) : Recalls M ⟨p, vars⟩ := by
  refine ⟨hs, fun g => by rw [hdata, h.length], fun key g hkey => ?_, ?_, hbacked⟩
  · rw [hdata]
    exact h.shows key g (htable ▸ hkey)
  · simpa only [htable] using hbound

theorem Recalls.made {tblId : Nat} (h : Recalls M s) (hlatch : s.pool.shared.bpmLatch = false)
    (hok : Harmless s (.newPage tblId)) (hmade : MadePage s.pool tblId a p) :
    Recalls (remember s M (.newPage tblId) a) ⟨p, s.vars⟩ := by
  have hs := h.settled.made hlatch hok.unforced hmade
  cases hmade with
  | made s' pgkey f rest buffer eng₁ eng₂ hens hcount halloc hread hfree hf hlen =>
    obtain rfl := hens.eq_of_not_yields fun hy => hok.1 ⟨trivial, hy⟩
    obtain ⟨hsize, T, hkept, hpages⟩ := h.backed hlatch
    obtain ⟨-, T', hkept', hconfig, hnone, hself, hother⟩ := hkept.allocates hok.2 halloc
    obtain ⟨rfl, hkept'', hconfig'⟩ := hkept'.reads hself hread
    have hzeros : StorageEngine.zeros s.pool.storageEngine.config = List.replicate pageSize 0 := by
      rw [StorageEngine.zeros, hsize]
    have hmap := h.settled.new_unmapped hlatch (hok.unforced.2 tblId rfl) halloc
    refine h.loaded hs hfree hmap (by rw [hzeros, List.length_replicate]) ?_ (fun key hkey => ?_) ?_
    · simp [remember, hzeros]
    · simp [remember, hkey]
    · refine ⟨?_, T', hkept'', fun key content hkey => ?_⟩
      · exact (congrArg EngineConfig.pageSize (hconfig'.trans hconfig)).trans hsize
      · by_cases hne : key = pgkey
        · subst hne
          simp only [remember, Function.update_self, Option.some_inj] at hkey
          exact ⟨_, hself, .inr (hzeros.trans hkey)⟩
        · simp only [remember, Function.update_of_ne hne] at hkey
          obtain ⟨page, hpage, hor⟩ := hpages key content hkey
          refine ⟨page, (hother key hne).trans hpage, hor.imp_left ?_⟩
          rintro ⟨g, hg, hdirty⟩
          have hgf : g ≠ f := by
            rintro rfl
            exact h.settled.partitioned.not_free hg (by rw [hfree]; exact List.mem_cons_self)
          exact ⟨g, (AList.lookup_insert_ne hne).trans hg,
            by simpa [BufferPoolManager.loaded, hgf] using hdirty⟩
  | refused hr => exact h.repin hs rfl (fun _ => rfl) h.bound h.backed

omit [Build] in
theorem acquired_data (sh : Shared E) (g : Nat) :
    ((sh.acquired kind f).frames g).data = (sh.frames g).data ∧
      ((sh.acquired kind f).frames g).dirty = (sh.frames g).dirty := by
  by_cases hg : g = f
  · subst hg
    cases kind <;> simp [Shared.acquired, FrameHeader.acquired, FrameHeader.latched]
  · simp [Shared.acquired, hg]

omit [Build] in
theorem released_data (sh : Shared E) (g : Nat) :
    ((sh.released kind f).frames g).data = (sh.frames g).data ∧
      ((sh.released kind f).frames g).dirty = (sh.frames g).dirty := by
  by_cases hg : g = f
  · subst hg
    cases kind <;> simp [Shared.released, FrameHeader.released, FrameHeader.unlatched]
  · simp [Shared.released, hg]

omit [Evictor E] [Build] in
theorem backed_of_frames (h : Backed M s.pool) (heng : p.storageEngine = s.pool.storageEngine)
    (htable : p.frameTable = s.pool.frameTable)
    (hdirty : ∀ g, (p.shared.frames g).dirty = (s.pool.shared.frames g).dirty) : Backed M p := by
  obtain ⟨hsize, T, hkept, hpages⟩ := h
  refine ⟨by rw [heng]; exact hsize, T, by rw [heng]; exact hkept, ?_⟩
  simpa only [htable, hdirty] using hpages

omit [Build] in
/-- A guard is made for a frame with a page. -/
theorem Recalls.acquired {evictor : E} (h : Recalls M s)
    (hmap : s.pool.frameTable.lookup pgkey = some f)
    (hs : Settled ⟨{ s.pool with
      shared := ({ s.pool.shared with evictor } : Shared E).acquired kind f },
      s.vars.declare (⟨pgkey, some f, true⟩ : PageGuard kind)⟩) :
    Recalls M ⟨{ s.pool with
      shared := ({ s.pool.shared with evictor } : Shared E).acquired kind f },
      s.vars.declare (⟨pgkey, some f, true⟩ : PageGuard kind)⟩ := by
  refine h.repin hs rfl (fun g => (acquired_data _ g).1)
    (GuardVars.declare_all h.bound ?_) fun hlatch => backed_of_frames (h.backed hlatch) rfl rfl
      fun g => (acquired_data _ g).2
  exact fun _ => ⟨f, rfl, hmap⟩

theorem Recalls.got {g : PageGuard kind} (h : Recalls M s) (hlatch : s.pool.shared.bpmLatch = false)
    (hok : Harmless s (.getPage kind pgkey)) (hmem : M pgkey ≠ none)
    (hgot : GotPage s.pool kind pgkey g p) : Recalls M ⟨p, s.vars.declare g⟩ := by
  have hs := h.settled.got hlatch hok.unforced hgot
  cases hgot with
  | hit f hmap hf hfree => exact h.acquired hmap hs
  | load s' f rest buffer eng hmap hens hread hfree hf hlen hlatch' =>
    obtain rfl := hens.eq_of_not_yields fun hy => hok.1 ⟨hmap, hy⟩
    obtain ⟨hsize, T, hkept, hpages⟩ := h.backed hlatch
    obtain ⟨content, hcontent⟩ := Option.ne_none_iff_exists'.mp hmem
    obtain ⟨page, hpage, hor⟩ := hpages pgkey content hcontent
    obtain rfl : page = content := by
      refine hor.resolve_left ?_
      rintro ⟨f', hf', -⟩
      rw [hmap] at hf'
      cases hf'
    obtain ⟨rfl, hkept', hconfig⟩ := hkept.reads hpage hread
    have hknows := StorageEngine.readPage_numbers hread
    have hloaded : Settled ⟨s.pool.loaded pgkey f rest buffer eng, s.vars⟩ :=
      h.settled.loaded hlatch hfree hmap hknows.1 hknows.2
    have hbuffer : buffer.length = pageSize := by
      obtain ⟨pages, ht, hp⟩ := Option.bind_eq_some_iff.mp hpage
      rw [← hsize]
      exact (hkept.pages _ _ ht).size _ (List.mem_of_getElem? hp)
    refine (h.loaded hloaded hfree hmap hbuffer hcontent (fun _ _ => rfl) ?_).acquired
      (AList.lookup_insert _) hs
    refine ⟨(congrArg EngineConfig.pageSize hconfig).trans hsize, T, hkept', fun key c hkey => ?_⟩
    obtain ⟨page, hpage', hor'⟩ := hpages key c hkey
    refine ⟨page, hpage', hor'.imp_left ?_⟩
    rintro ⟨g, hg, hdirty⟩
    have hne : key ≠ pgkey := by
      rintro rfl
      rw [hmap] at hg
      cases hg
    have hgf : g ≠ f := by
      rintro rfl
      exact h.settled.partitioned.not_free hg (by rw [hfree]; exact List.mem_cons_self)
    exact ⟨g, (AList.lookup_insert_ne hne).trans hg,
      by simpa [BufferPoolManager.loaded, hgf] using hdirty⟩
  | refused hmap hr =>
    exact h.repin hs rfl (fun _ => rfl) (GuardVars.declare_all h.bound (by simp)) h.backed

omit [Evictor E] [Build] in
theorem Recalls.overwritten {i : Nat} {data : List Byte} {g : WritePageGuard} (h : Recalls M s)
    (hi : (s.vars .write)[i]? = some (some g)) (hf : g.frame = some f) (hval : g.isValid = true)
    (hlen : data.length = pageSize) :
    Recalls (remember s M (.overwrite i data) a) ⟨s.pool.overwritten f data, s.vars⟩ := by
  have hs : Settled ⟨s.pool.overwritten f data, s.vars⟩ :=
    h.settled.quiet (.setFrame rfl rfl rfl .refl)
  have hmap := h.lookup (List.mem_of_getElem? hi) hval hf
  have hdata : ∀ x, ((s.pool.overwritten f data).shared.frames x).data =
      if x = f then data else (s.pool.shared.frames x).data := by
    intro x
    by_cases hx : x = f
    · subst hx
      simp [BufferPoolManager.overwritten, Shared.setFrame]
    · simp [BufferPoolManager.overwritten, Shared.setFrame, hx]
  have hmem : remember s M (.overwrite i data) a = Function.update M g.pgkey (some data) := by
    simp [remember, hi]
  rw [hmem]
  refine ⟨hs, fun x => ?_, fun key x hkey => ?_, h.bound, fun hlatch => ?_⟩
  · rw [hdata]
    split
    · exact hlen
    · exact h.length x
  · rw [hdata]
    by_cases hne : key = g.pgkey
    · subst hne
      have hx : x = f := Option.some_inj.mp (hkey.symm.trans hmap)
      rw [if_pos hx, Function.update_self]
    · have hxf : x ≠ f := by
        rintro rfl
        exact hne (h.settled.partitioned.injective hkey hmap)
      rw [if_neg hxf, Function.update_of_ne hne]
      exact h.shows key x hkey
  · obtain ⟨hsize, T, hkept, hpages⟩ := h.backed hlatch
    refine ⟨hsize, T, hkept, fun key content hkey => ?_⟩
    by_cases hne : key = g.pgkey
    · subst hne
      obtain ⟨page, hpage, -⟩ := hpages g.pgkey _ (h.shows g.pgkey f hmap)
      exact ⟨page, hpage, .inl ⟨f, hmap, by simp [BufferPoolManager.overwritten, Shared.setFrame]⟩⟩
    · rw [Function.update_of_ne hne] at hkey
      obtain ⟨page, hpage, hor⟩ := hpages key content hkey
      refine ⟨page, hpage, hor.imp_left ?_⟩
      rintro ⟨x, hx, hdirty⟩
      have hxf : x ≠ f := by
        rintro rfl
        exact hne (h.settled.partitioned.injective hx hmap)
      exact ⟨x, hx, by simpa [BufferPoolManager.overwritten, Shared.setFrame, hxf] using hdirty⟩

omit [Build] in
/-- A page leaves its frame, and the storage has what was written to it. -/
theorem Recalls.freed (h : Recalls M s) (hs : Settled ⟨s.pool.freed pgkey f, s.vars⟩)
    (hlatch : s.pool.shared.bpmLatch = false) (hmap : s.pool.frameTable.lookup pgkey = some f)
    (hpins : (s.pool.shared.frames f).pins = 0) (hclean : (s.pool.shared.frames f).dirty = false) :
    Recalls M ⟨s.pool.freed pgkey f, s.vars⟩ := by
  have hgone : ∀ {key g}, (s.pool.freed pgkey f).frameTable.lookup key = some g →
      key ≠ pgkey ∧ g ≠ f ∧ s.pool.frameTable.lookup key = some g := by
    intro key g hkey
    have hne : key ≠ pgkey := by
      rintro rfl
      simp [BufferPoolManager.freed] at hkey
    simp only [BufferPoolManager.freed, AList.lookup_erase_ne hne] at hkey
    refine ⟨hne, ?_, hkey⟩
    rintro rfl
    exact hne (h.settled.partitioned.injective hkey hmap)
  have hsame : ∀ g, g ≠ f →
      (s.pool.freed pgkey f).shared.frames g = s.pool.shared.frames g := by
    intro g hg
    simp [BufferPoolManager.freed, hg]
  refine ⟨hs, fun g => ?_, fun key g hkey => ?_, fun kind g hg hval => ?_, fun _ => ?_⟩
  · by_cases hg : g = f
    · subst hg
      simp [BufferPoolManager.freed, h.length g]
    · rw [hsame g hg, h.length]
  · obtain ⟨-, hgf, hold⟩ := hgone hkey
    rw [hsame g hgf]
    exact h.shows key g hold
  · obtain ⟨x, hx, hbound⟩ := h.bound kind g hg hval
    obtain ⟨i, hi⟩ := List.getElem?_of_mem hg
    have hpos := (GuardVars.held_pos hi hval hx).trans_le (h.settled.balanced hlatch).held_le
    have hne : g.pgkey ≠ pgkey := by
      intro heq
      rw [heq, hmap, Option.some_inj] at hbound
      subst hbound
      omega
    exact ⟨x, hx, (AList.lookup_erase_ne hne).trans hbound⟩
  · obtain ⟨hsize, T, hkept, hpages⟩ := h.backed hlatch
    refine ⟨hsize, T, hkept, fun key content hkey => ?_⟩
    obtain ⟨page, hpage, hor⟩ := hpages key content hkey
    refine ⟨page, hpage, ?_⟩
    rcases hor with ⟨g, hg, hdirty⟩ | hor
    · have hgf : g ≠ f := by
        rintro rfl
        rw [hclean] at hdirty
        cases hdirty
      have hne : key ≠ pgkey := by
        rintro rfl
        exact hgf (Option.some_inj.mp (hg.symm.trans hmap))
      exact .inl ⟨g, (AList.lookup_erase_ne hne).trans hg, by rw [hsame g hgf]; exact hdirty⟩
    · exact .inr hor

omit [Evictor E] in
theorem Recalls.flushed {l : List (PageKey × Nat)} (h : Recalls M s)
    (hlatch : s.pool.shared.bpmLatch = false) (hlatch' : p.shared.bpmLatch = false)
    (hwb : WrittenBack (s.pool.latched true) l (p.latched true))
    (hmap : ∀ e ∈ l, s.pool.frameTable.lookup e.1 = some e.2) : Recalls M ⟨p, s.vars⟩ := by
  have hquiet := quiet_of_latched hwb.quiet hlatch hlatch'
  refine h.repin (h.settled.quiet hquiet) hquiet.frameTable hwb.data h.bound fun _ => ?_
  have hbacked : Backed M (p.latched true) :=
    .writtenBack hwb (h.backed hlatch) h.settled.partitioned h.shows h.length hmap
  exact hbacked

theorem Recalls.next (h : Recalls M s) (hproper : Proper M s op) (hok : Harmless s op)
    (hnext : Next s op a t) : Recalls (remember s M op a) t := by
  rcases next_cases hnext h.settled.balanced with hstep | ⟨rfl, hthrew⟩
  · cases hstep with
    | made hlatch hmade => exact h.made hlatch hok hmade
    | got hlatch hgot => exact h.got hlatch hok hproper hgot
    | released hlatch hi hval hf =>
      refine h.repin (h.settled.released hlatch hi hval hf) rfl (fun g => (released_data _ g).1)
        (GuardVars.assign_all h.bound (by rintro g' ⟨⟩; simp)) fun _ => ?_
      exact backed_of_frames (h.backed hlatch) rfl rfl fun g => (released_data _ g).2
    | dropped hi hval =>
      refine h.repin (h.settled.step hok.unforced (.dropped hi hval)) rfl (fun _ => rfl)
        (GuardVars.assign_all h.bound ?_) h.backed
      rintro g' ⟨⟩ hval'
      rw [hval] at hval'
      cases hval'
    | overwritten hi hf => exact h.overwritten hi hf (hproper.2 _ hi) hproper.1
    | evicted hlatch hev =>
      have hs := h.settled.evicted hlatch hev
      cases hev with
      | absent hmap => exact h
      | pinned f hmap hpins => exact h
      | freed f hmap hf hpins => exact h.freed hs hlatch hmap hpins (hok.2 f hmap hpins)
    | flushed hlatch hlatch' hwb hmap => exact h.flushed hlatch hlatch' hwb hmap
    | flushedAll hlatch hlatch' hwb =>
      exact h.flushed hlatch hlatch' hwb fun e he => lookup_of_mapped he
  · have halike := hthrew.same hok.unforced
    have hmem : remember s M op none = M := by
      cases op with
      | overwrite i data =>
        -- it never throws
        have hstep := overwrite_next hnext
        have hlatch := hthrew.latch
        cases hstep with
        | overwritten hi hf => simp [BufferPoolManager.overwritten, Shared.setFrame, hthrew.before] at hlatch
      | _ => rfl
    rw [hmem]
    refine h.repin (h.settled.threw hok.unforced hthrew) halike.frameTable hthrew.data ?_ fun hlatch => ?_
    · rw [hthrew.vars]
      exact h.bound
    · rw [hthrew.latch] at hlatch
      cases hlatch

/-- A step of a run whose pages are not lost. -/
def Kind (M : Memory) (s : PoolSession E) (op : Op) : Prop := Proper M s op ∧ Harmless s op

omit [Evictor E] [Build] in
/-- A new pool over an engine that has the pages. -/
theorem recalls_fresh {n : Nat} {evictor : E} {T : StorageEngine.Tables}
    (hkept : StorageEngine.Kept eng T) (hsize : eng.config.pageSize = pageSize)
    (hmem : ∀ key content, M key = some content → T.page key = some content) :
    Recalls M (start (fresh n evictor eng)) := by
  refine ⟨settled_start n evictor eng, fun f => ?_, fun key f hkey => ?_, fun kind g hg => ?_,
    fun _ => ⟨hsize, T, hkept, fun key content hkey => ?_⟩⟩
  · simp [start, fresh]
  · simp [start, fresh, AList.lookup_empty] at hkey
  · simp [start] at hg
  · exact ⟨content, hmem key content hkey, .inr rfl⟩

omit [Evictor E] [Build] in
theorem recalls_start {n : Nat} {evictor : E} {T : StorageEngine.Tables}
    (hkept : StorageEngine.Kept eng T) (hsize : eng.config.pageSize = pageSize) :
    Recalls (fun _ => none) (start (fresh n evictor eng)) :=
  recalls_fresh hkept hsize (by simp)

theorem MemoryRun.recalls {s₀ : PoolSession E} (h : MemoryRun Kind s₀ M t)
    (hs : Recalls (fun _ => none) s₀) : Recalls M t := by
  induction h with
  | start => exact hs
  | next _ hok hnext ih => exact ih.next hok.1 hok.2 hnext

/-- Who may read a page reads what was last written to it. -/
def Transparent (M : Memory) (t : PoolSession E) : Prop :=
  ∀ g : ReadPageGuard, some g ∈ t.vars .read → g.isValid = true →
    ∃ f, g.frame = some f ∧ M g.pgkey = some (t.pool.shared.frames f).data

/-- Over an engine that keeps its tables, in pages of the pool's size, as long as no frame is taken
from a victim and no dirty page is evicted, a pool of any size is not seen. -/
theorem run_transparent {n : Nat} {evictor : E} {T : StorageEngine.Tables}
    (hkept : StorageEngine.Kept eng T) (hsize : eng.config.pageSize = pageSize)
    (h : MemoryRun Kind (start (fresh n evictor eng)) M t) : Transparent M t := by
  have hrecalls := h.recalls (recalls_start hkept hsize)
  intro g hg hval
  obtain ⟨f, hf, hmap⟩ := hrecalls.bound .read g hg hval
  exact ⟨f, hf, hrecalls.shows _ f hmap⟩

end Steps

/-! ### Pages on disk -/

section Disk

variable {M : Memory} {s t : PoolSession E} {eng : StorageEngine} {pgkey : PageKey} {content : List Byte}

omit [Evictor E] in
/-- What is stored and in no dirty frame can be read from the storage. -/
theorem readable_of_backed (h : Backed M s.pool) (hmem : M pgkey = some content)
    (hclean : ∀ f, s.pool.frameTable.lookup pgkey = some f → (s.pool.shared.frames f).dirty = false) :
    ∃ u, StorageEngine.readPage pgkey [] s.pool.storageEngine = .ok content u := by
  obtain ⟨-, T, hkept, hpages⟩ := h
  obtain ⟨page, hpage, hor⟩ := hpages pgkey content hmem
  obtain rfl : page = content := by
    refine hor.resolve_left ?_
    rintro ⟨f, hf, hdirty⟩
    rw [hclean f hf] at hdirty
    cases hdirty
  obtain ⟨u, hread, -⟩ := hkept.readable hpage
  exact ⟨u, hread⟩

omit [Evictor E] in
/-- What a flush wrote back is on disk. -/
theorem flushed_readable {l : List (PageKey × Nat)} {p : BufferPoolManager E} (h : Recalls M s)
    (hlatch : s.pool.shared.bpmLatch = false) (hlatch' : p.shared.bpmLatch = false)
    (hwb : WrittenBack (s.pool.latched true) l (p.latched true))
    (hmap : ∀ e ∈ l, s.pool.frameTable.lookup e.1 = some e.2) (hmem : M pgkey = some content)
    (hl : ∀ f, s.pool.frameTable.lookup pgkey = some f → (pgkey, f) ∈ l) :
    ∃ u, StorageEngine.readPage pgkey [] p.storageEngine = .ok content u := by
  have hquiet := quiet_of_latched hwb.quiet hlatch hlatch'
  refine readable_of_backed ((h.flushed hlatch hlatch' hwb hmap).backed hlatch') hmem fun f hf => ?_
  have hold : s.pool.frameTable.lookup pgkey = some f := hquiet.frameTable ▸ hf
  exact hwb.clean (.inl ⟨pgkey, hl f hold⟩)

omit [Evictor E] [Build] in
theorem latch_of_ok {α : Type} {y : Unit → PoolM E α} {a : α} {p : BufferPoolManager E}
    (h : (BufferPoolManager.onShared Shared.lock >>= y) s.pool = .ok a p) :
    s.pool.shared.bpmLatch = false := by
  by_contra hb
  have hlock : BufferPoolManager.onShared Shared.lock s.pool = .error .diverges s.pool :=
    zoom_error (Shared.lock_blocks (by simpa using hb))
  rw [bind_error hlock] at h
  cases h

/-- A flush that returns has put what was last written to its pages where the storage engine alone
finds it: of one page, or of all of them, whether they are in the pool or not. -/
theorem flush_durable {n : Nat} {evictor : E} {T : StorageEngine.Tables}
    (hkept : StorageEngine.Kept eng T) (hsize : eng.config.pageSize = pageSize)
    (h : MemoryRun Kind (start (fresh n evictor eng)) M s) (hmem : M pgkey = some content)
    {p : BufferPoolManager E}
    (hflush : flushPage pgkey s.pool = .ok true p ∨ flushAllPages s.pool = .ok () p) :
    ∃ u, StorageEngine.readPage pgkey [] p.storageEngine = .ok content u := by
  have hrecalls := h.recalls (recalls_start hkept hsize)
  rcases hflush with hone | hall
  · have hlatch := latch_of_ok hone
    rcases flushPage_cases hlatch pgkey with
      ⟨r, t, l, hok, hwb, hlatch', hmap, hl⟩ | ⟨e, t, herr, -⟩ | ⟨e, t, herr, -⟩
    · rw [hone] at hok
      cases hok
      obtain ⟨f, rfl⟩ := hl rfl
      have hf := hmap (pgkey, f) List.mem_cons_self
      refine flushed_readable hrecalls hlatch hlatch' hwb hmap hmem fun g hg => ?_
      rw [hf, Option.some_inj] at hg
      exact hg ▸ List.mem_cons_self
    · rw [hone] at herr
      cases herr
    · rw [hone] at herr
      cases herr
  · have hlatch := latch_of_ok hall
    rcases flushAllPages_cases hlatch with
      ⟨t, hok, hwb, hlatch'⟩ | ⟨e, t, herr, -⟩ | ⟨e, t, herr, -⟩
    · rw [hall] at hok
      cases hok
      exact flushed_readable hrecalls hlatch hlatch' hwb (fun e he => lookup_of_mapped he) hmem
        fun f hf => mem_mapped hf
    · rw [hall] at herr
      cases herr
    · rw [hall] at herr
      cases herr

end Disk

/-! ### A page that is written and read -/

section Written

variable {eng eng₁ : StorageEngine} {data page : List Byte}

/-- What is remembered of a page that was made and overwritten. -/
def written (data : List Byte) : Memory :=
  Function.update (Function.update (fun _ => none) (1, 1) (some (List.replicate pageSize 0))) (1, 1)
    (some data)

/-- A pool of one frame with a page in it that is overwritten through a guard. -/
def overwritingOnce (evictor : E) (data page : List Byte) (eng : StorageEngine) : PoolSession E :=
  let pool := (fresh 1 evictor eng).loaded (1, 1) 0 [] page eng
  let guarded := { pool with shared := (pool.touched 0).shared.acquired .write 0 }
  ⟨guarded.overwritten 0 data, (start pool).vars.declare (⟨(1, 1), some 0, true⟩ : WritePageGuard)⟩

omit [Evictor E] [Build] in
/-- A pool of one frame with a page in it that was overwritten, and a guard for it that is gone. -/
def overwrittenOnce (evictor : E) (data page : List Byte) (eng : StorageEngine) : PoolSession E :=
  let pool := (fresh 1 evictor eng).loaded (1, 1) 0 [] page eng
  let guarded := { pool with shared := (pool.touched 0).shared.acquired .write 0 }
  let filled := guarded.overwritten 0 data
  ⟨{ filled with shared := filled.shared.released .write 0 },
    ((start pool).vars.declare (⟨(1, 1), some 0, true⟩ : WritePageGuard)).assign 0
      (some (⟨(1, 1), some 0, false⟩ : WritePageGuard))⟩

theorem next_overwrite {s : PoolSession E} {i f : Nat} {g : WritePageGuard} (data : List Byte)
    (hi : (s.vars .write)[i]? = some (some g)) (hf : g.frame = some f) :
    Next s (.overwrite i data) none ⟨s.pool.overwritten f data, s.vars⟩ := by
  have hover : onShared (WritePageGuard.overwrite g data) s = .ok () ⟨s.pool.overwritten f data, s.vars⟩ :=
    onPool_ok (zoom_ok (overwrite_ok data hf))
  exact .inl ((bind_ok (read_ok hi)).trans (bind_ok hover))

omit [Build] in
/-- A page in the pool takes no frame. -/
theorem kind_getPage {M : Memory} {s : PoolSession E} {kind : GuardKind} {pgkey : PageKey} {f : Nat}
    {content : List Byte} (hmem : M pgkey = some content) (hmap : s.pool.frameTable.lookup pgkey = some f) :
    Kind M s (.getPage kind pgkey) := by
  refine ⟨by simp [Proper, hmem], ?_, trivial⟩
  rintro ⟨hneeds, -⟩
  rw [show s.pool.frameTable.lookup pgkey = none from hneeds] at hmap
  cases hmap

omit [Build] in
theorem kind_overwrite {M : Memory} {s : PoolSession E} {i : Nat} {g : WritePageGuard}
    (hlen : data.length = pageSize) (hi : (s.vars .write)[i]? = some (some g)) (hval : g.isValid = true) :
    Kind M s (.overwrite i data) := by
  refine ⟨⟨hlen, fun g' hg' => ?_⟩, fun hv => hv.1, trivial⟩
  rw [hi, Option.some_inj, Option.some_inj] at hg'
  exact hg' ▸ hval

omit [Build] in
theorem kind_drop {M : Memory} {s : PoolSession E} : Kind M s (.drop .write 0) :=
  ⟨trivial, fun hv => hv.1, trivial⟩

/-- A page is made in a pool of one frame and overwritten through a guard. -/
theorem memoryRun_overwriting {eng₂ : StorageEngine} (evictor : E) (hlen : data.length = pageSize)
    (hroom : StorageEngine.Op.Allowed eng (.allocatePage 1))
    (halloc : StorageEngine.allocatePage 1 eng = .ok (1, 1) eng₁)
    (hread : StorageEngine.readPage (1, 1) [] eng₁ = .ok page eng₂) (hpage : pageSize ≤ page.length) :
    MemoryRun Kind (start (fresh 1 evictor eng)) (written data) (overwritingOnce evictor data page eng₂) := by
  have hfree : (fresh 1 evictor eng).freeList ≠ [] := by simp [fresh]
  have hnew : newPage 1 (fresh 1 evictor eng) = _ :=
    newPage_made rfl (.free hfree) (.inr ⟨rfl, Nat.one_pos⟩) halloc hread rfl Nat.one_pos hpage
  have hmade : Next (start (fresh 1 evictor eng)) (.newPage 1) (some (1, 1))
      (start ((fresh 1 evictor eng).loaded (1, 1) 0 [] page eng₂)) :=
    .inl (onPool_ok (s := start (fresh 1 evictor eng)) hnew)
  have hkind : Kind (fun _ => none) (start (fresh 1 evictor eng)) (.newPage 1) :=
    ⟨trivial, fun hv => absurd hv.2.1 hfree, hroom⟩
  have hget : getPage .write (1, 1) ((fresh 1 evictor eng).loaded (1, 1) 0 [] page eng₂) = _ :=
    getPage_hit rfl (AList.lookup_insert _) Nat.one_pos ⟨rfl, rfl⟩
  have hrun := (MemoryRun.start.next hkind hmade).next (kind_getPage rfl rfl)
    (next_getPage (s := start ((fresh 1 evictor eng).loaded (1, 1) 0 [] page eng₂)) hget)
  exact hrun.next (kind_overwrite hlen rfl rfl)
    (next_overwrite (g := ⟨(1, 1), some 0, true⟩) (i := 0) (f := 0) data rfl rfl)

theorem memoryRun_written (evictor : E) (hlen : data.length = pageSize) :
    ∃ eng T eng₁ page, StorageEngine.Kept eng T ∧ eng.config.pageSize = pageSize ∧
      MemoryRun Kind (start (fresh 1 evictor eng)) (written data)
        (overwrittenOnce evictor data page eng₁) := by
  obtain ⟨eng, T, hkept, hconfig, hroom, eng₁, eng₂, -, halloc, hread, -⟩ := exists_allocates
  have hover := memoryRun_overwriting evictor hlen hroom halloc hread length_zeros
  have hdrop := hover.next kind_drop (next_drop rfl (PageGuard.drop_ok rfl Nat.one_pos rfl))
  exact ⟨eng, T, eng₂, _, hkept, congrArg EngineConfig.pageSize hconfig, hdrop⟩

omit [Build] in
/-- It is read back. -/
theorem run_transparent_written : ∃ (_ : Build) (eng : StorageEngine) (data : List Byte)
    (t : PoolSession LRUKEvictor), MemoryRun Kind (start (initial 1 eng)) (written data) t ∧
      some (⟨(1, 1), some 0, true⟩ : ReadPageGuard) ∈ t.vars .read ∧ Transparent (written data) t := by
  let _ : Build := ⟨false⟩
  generalize hdata : List.replicate pageSize (1 : Byte) = data
  have hlen : data.length = pageSize := by rw [← hdata, List.length_replicate]
  obtain ⟨eng, T, eng₁, page, hkept, hsize, hrun⟩ :=
    memoryRun_written ({ k := evictorK } : LRUKEvictor) hlen
  have hget : getPage .read (1, 1) (overwrittenOnce ({ k := evictorK } : LRUKEvictor) data page eng₁).pool = _ :=
    getPage_hit rfl (AList.lookup_insert _) Nat.one_pos rfl
  have hread := hrun.next (kind_getPage (Function.update_self ..) (AList.lookup_insert _)) (next_getPage hget)
  exact ⟨⟨false⟩, eng, data, _, hread, List.mem_singleton_self _, run_transparent hkept hsize hread⟩

omit [Build] in
/-- It is written back. -/
theorem flush_durable_written : ∃ (_ : Build) (eng : StorageEngine) (data : List Byte)
    (s : PoolSession LRUKEvictor) (p : BufferPoolManager LRUKEvictor),
      MemoryRun Kind (start (initial 1 eng)) (written data) s ∧ flushPage (1, 1) s.pool = .ok true p ∧
      ∃ u, StorageEngine.readPage (1, 1) [] p.storageEngine = .ok data u := by
  let _ : Build := ⟨false⟩
  generalize hdata : List.replicate pageSize (1 : Byte) = data
  have hlen : data.length = pageSize := by rw [← hdata, List.length_replicate]
  obtain ⟨eng, T, eng₁, page, hkept, hsize, hrun⟩ :=
    memoryRun_written ({ k := evictorK } : LRUKEvictor) hlen
  have hmem : written data (1, 1) = some data := Function.update_self ..
  have hrecalls := hrun.recalls (recalls_start hkept hsize)
  obtain ⟨hpages, T', hkept', hbacked⟩ := hrecalls.backed rfl
  obtain ⟨p, hp, -⟩ := hbacked (1, 1) data hmem
  obtain ⟨pages, ht, hp⟩ := Option.bind_eq_some_iff.mp hp
  obtain ⟨_, u, hw, -⟩ := StorageEngine.writePage_ok (p := 1) hkept' ht
    (List.getElem?_eq_some_iff.mp hp).1 (hlen.trans hpages.symm)
  have hflush : flushPage (1, 1) (overwrittenOnce ({ k := evictorK } : LRUKEvictor) data page eng₁).pool = _ :=
    flushPage_ok rfl (AList.lookup_insert _) Nat.one_pos ⟨rfl, rfl⟩ hw
  exact ⟨⟨false⟩, eng, data, _, _, hrun, hflush, flush_durable hkept hsize hrun hmem (.inl hflush)⟩

end Written

end PoolSession

end Cpplite
