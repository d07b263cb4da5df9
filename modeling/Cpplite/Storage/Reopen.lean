import Cpplite.Storage.EngineRuns

/-!
An engine over a directory that another engine left.

`init_table_metadata` does not read what `flush_table` wrote: it counts a table's pages by its files.
All but one are taken to be full, and the one that stands last in the listing is measured. With
asserts there may be no more than one.
-/
namespace Cpplite

open Exec Encoding ByteFile

namespace LocalFS

/-- The same files, listed in any order. -/
structure Relisted (fs fs' : LocalFS) : Prop where
  dirs : ∀ t, t ∈ fs.dirs ↔ t ∈ fs'.dirs
  files : ∀ key, fs.files.lookup key = fs'.files.lookup key
  inodes : fs.inodes = fs'.inodes
  nextInode : fs.nextInode = fs'.nextInode

variable {fs fs' : LocalFS} {key : FileKey} {t : Nat}

theorem Relisted.disk (h : Relisted fs fs') : fs.disk = fs'.disk := by
  funext key
  rw [LocalFS.disk, h.files, h.inodes, ← LocalFS.disk]

theorem Relisted.apart (h : Relisted fs fs') (hapart : fs'.Apart) : fs.Apart := by
  constructor
  · intro k k' n hk hk'
    rw [h.files] at hk hk'
    exact hapart.inj k k' n hk hk'
  · intro k n hk
    rw [h.files] at hk
    exact h.nextInode ▸ hapart.lt k n hk

theorem mem_segmentsOf : key ∈ fs.segmentsOf t ↔ key.1 = t ∧ (fs.disk key).isSome = true := by
  rw [LocalFS.segmentsOf, List.mem_filter, LocalFS.disk, Option.isSome_map, AList.lookup_isSome, and_comm]
  simp [AList.mem_keys]

theorem nodup_segmentsOf : (fs.segmentsOf t).Nodup := fs.files.nodupKeys.filter _

end LocalFS

namespace StorageEngine

section Listing

variable {fs : LocalFS} {T : Tables} {t seg i : Nat} {ps : List (List Byte)}

/-- How many files it takes for so many pages. -/
theorem segment_iff (hseg : 0 < seg) (hpos : 0 < ps.length) :
    i * seg < ps.length ↔ i < (ps.length - 1) / seg + 1 := by
  rw [Nat.lt_succ_iff, Nat.le_div_iff_mul_le hseg]
  omega

theorem segmentsOf_perm (hdisk : fs.disk = segments seg T) (ht : T t = some ps) (hseg : 0 < seg)
    (hpos : 0 < ps.length) :
    (fs.segmentsOf t).Perm ((List.range ((ps.length - 1) / seg + 1)).map fun i => (t, i)) := by
  refine (List.perm_ext_iff_of_nodup LocalFS.nodup_segmentsOf ?_).mpr fun ⟨x, i⟩ => ?_
  · exact List.nodup_range.map fun i j hij => (Prod.mk.inj hij).2
  · rw [LocalFS.mem_segmentsOf, hdisk]
    simp only [segments, List.mem_map, List.mem_range, Prod.mk.injEq, exists_eq_right_right]
    constructor
    · rintro ⟨rfl, hsome⟩
      rw [ht, Option.bind_some, segmentOf] at hsome
      split_ifs at hsome with hlt
      · exact ⟨(segment_iff hseg hpos).mp hlt, rfl⟩
      · cases hsome
    · rintro ⟨hi, rfl⟩
      rw [ht, Option.bind_some, segmentOf, if_pos ((segment_iff hseg hpos).mpr hi)]
      exact ⟨rfl, rfl⟩

/-- The pages that are counted when the `i`-th file is the one that is measured. -/
def measured (seg : Nat) (ps : List (List Byte)) (i : Nat) : Nat :=
  ((ps.length - 1) / seg * seg + (chunk seg ps i).length) % 2 ^ 64

/-- An earlier file is full, so the last one counts as full. -/
theorem measured_iff (hseg : 0 < seg) (hpos : 0 < ps.length) (hlen : ps.length ≤ 2 ^ 64)
    (hi : i ≤ (ps.length - 1) / seg) :
    measured seg ps i = ps.length % 2 ^ 64 ↔ i = (ps.length - 1) / seg ∨ seg ∣ ps.length := by
  generalize hn : ps.length = n at hpos hlen hi ⊢
  have hq := Nat.div_add_mod (n - 1) seg
  have hmod := Nat.mod_lt (n - 1) hseg
  rw [measured, length_chunk, hn]
  generalize (n - 1) / seg = q at hi hq ⊢
  have hcomm := Nat.mul_comm seg q
  by_cases heq : i = q
  · subst heq
    rw [show i * seg + min seg (n - i * seg) = n by omega]
    simp
  · have hle : (i + 1) * seg ≤ q * seg := Nat.mul_le_mul_right seg (by omega)
    have hone : 1 * seg ≤ q * seg := Nat.mul_le_mul_right seg (by omega)
    rw [Nat.add_mul, Nat.one_mul] at hle
    rw [Nat.one_mul] at hone
    rw [show min seg (n - i * seg) = seg by omega]
    have hfull : (q * seg + seg) % 2 ^ 64 = n % 2 ^ 64 ↔ q * seg + seg = n := by omega
    rw [hfull, or_iff_right heq]
    constructor
    · intro h
      exact ⟨q + 1, by rw [Nat.mul_add, Nat.mul_one]; omega⟩
    · rintro ⟨k, hk⟩
      have hk' : k = q + 1 := by
        have h1 : q * seg < k * seg := by rw [Nat.mul_comm k]; omega
        have h2 : k * seg < (q + 2) * seg := by rw [Nat.mul_comm k, Nat.add_mul]; omega
        have h3 := Nat.lt_of_mul_lt_mul_right h1
        have h4 := Nat.lt_of_mul_lt_mul_right h2
        omega
      rw [hk, hk', Nat.mul_add, Nat.mul_one, hcomm]

theorem metadata_iff {n : Nat} (hpos : 0 < ps.length) (hlen : ps.length ≤ 2 ^ 64) (_ : n < 2 ^ 64) :
    (⟨pred64 n, n⟩ : TableMetadata) = metadataOf ps ↔ n = ps.length % 2 ^ 64 := by
  simp only [metadataOf, TableMetadata.mk.injEq, pred64]
  omega

end Listing

/-- The way `init_table_metadata` counts gives the number of pages. -/
def Countable [Build] (fs : LocalFS) (config : EngineConfig) (t n : Nat) : Prop :=
  if Build.ndebug = true then
    (fs.segmentsOf t).getLast? = some (t, (n - 1) / config.segmentSize) ∨ config.segmentSize ∣ n
  else n ≤ config.segmentSize

/-- The metadata for so many files, the last one of this size. -/
def tallied (config : EngineConfig) (files size : Nat) : TableMetadata :=
  let totalPages := (pred64 files * config.segmentSize + size / config.pageSize) % 2 ^ 64
  ⟨pred64 totalPages, totalPages⟩

section Init

variable [Build] {s : StorageEngine} {T : Tables} {t : Nat} {ps : List (List Byte)}

omit [Build] in
theorem ls_ok (h : t ∈ s.vfs.dirs) : onVfs (LocalFS.ls t) s = .ok (s.vfs.segmentsOf t) s := by
  apply zoom_ok
  rw [LocalFS.ls, bind_ok get_ok, if_pos (by simp [LocalFS.dirExists, h])]
  rfl

theorem initTable_ok {last : FileKey} (hdir : t ∈ s.vfs.dirs)
    (hone : Build.ndebug = true ∨ (s.vfs.segmentsOf t).length = 1)
    (hlast : (s.vfs.segmentsOf t).getLast? = some last) {content : List Byte}
    (hcontent : s.vfs.disk last = some content) :
    initTable t s = .ok () { s with
      tableMetadata := s.tableMetadata.insert t
        (tallied s.config (s.vfs.segmentsOf t).length content.length) } := by
  obtain ⟨n, hn, rfl⟩ := LocalFS.disk_some hcontent
  have hsize : onVfs (LocalFS.filesize last) s = .ok (s.vfs.inodes n).length s := by
    apply zoom_ok
    rw [LocalFS.filesize, bind_ok get_ok]
    simp only [hn]
    rfl
  rw [initTable, bind_ok (ls_ok hdir), bind_ok (assert_ok hone)]
  simp only [hlast]
  rw [bind_ok hsize, bind_ok get_ok]
  rfl

theorem initTable_fails (hdir : t ∈ s.vfs.dirs)
    (hone : ¬ (Build.ndebug = true ∨ (s.vfs.segmentsOf t).length = 1)) :
    initTable t s = .error .assertion s := by
  rw [not_or] at hone
  rw [initTable, bind_ok (ls_ok hdir)]
  exact bind_error (assert_fails (by simpa using hone.1) hone.2)

omit [Build] in
/-- No table has more pages than there are page numbers. -/
theorem PagesOk.length_le {config : EngineConfig} (h : PagesOk config ps) : ps.length ≤ 2 ^ 64 := by
  have hpos := List.length_pos_iff.mpr h.ne_nil
  have hlt := (h.reach (ps.length - 1) (by omega)).1
  omega

/-- What is on disk is counted right, or not, or there are too many files. -/
theorem initTable_cases (hdisk : s.vfs.disk = segments s.config.segmentSize T) (ht : T t = some ps)
    (hps : PagesOk s.config ps) (hdir : t ∈ s.vfs.dirs) (hseg : 0 < s.config.segmentSize)
    (hpage : 0 < s.config.pageSize) :
    (∃ m, initTable t s = .ok () { s with tableMetadata := s.tableMetadata.insert t m } ∧
      (m = metadataOf ps ↔ Countable s.vfs s.config t ps.length)) ∨
    (initTable t s = .error .assertion s ∧ ¬ Countable s.vfs s.config t ps.length) := by
  have hpos := List.length_pos_iff.mpr hps.ne_nil
  have hle := hps.length_le
  have hperm := segmentsOf_perm hdisk ht hseg hpos
  have hlength : (s.vfs.segmentsOf t).length = (ps.length - 1) / s.config.segmentSize + 1 := by
    simpa using hperm.length_eq
  have hone : (s.vfs.segmentsOf t).length = 1 ↔ ps.length ≤ s.config.segmentSize := by
    rw [hlength, Nat.succ_inj, Nat.div_eq_zero_iff]
    omega
  by_cases hok : Build.ndebug = true ∨ (s.vfs.segmentsOf t).length = 1
  · obtain ⟨last, hlast⟩ : ∃ last, (s.vfs.segmentsOf t).getLast? = some last := by
      rw [← Option.isSome_iff_exists, List.getLast?_isSome]
      exact List.ne_nil_of_length_pos (hlength ▸ Nat.succ_pos _)
    obtain ⟨i, hi, rfl⟩ := List.mem_map.mp (hperm.mem_iff.mp (List.mem_of_getLast? hlast))
    have hi' := List.mem_range.mp hi
    have hcontent : s.vfs.disk (t, i) = some (chunk s.config.segmentSize ps i).flatten := by
      rw [hdisk, segments, ht, Option.bind_some, segmentOf,
        if_pos ((segment_iff hseg hpos).mpr hi')]
    refine .inl ⟨_, initTable_ok hdir hok hlast hcontent, ?_⟩
    have hsize : (chunk s.config.segmentSize ps i).flatten.length / s.config.pageSize =
        (chunk s.config.segmentSize ps i).length := by
      rw [length_flatten_pages hps.chunk_size, Nat.mul_div_cancel _ hpage]
    have hpred : pred64 (s.vfs.segmentsOf t).length = (ps.length - 1) / s.config.segmentSize := by
      have hdiv := Nat.div_le_self (ps.length - 1) s.config.segmentSize
      rw [hlength, pred64]
      omega
    have htally : tallied s.config (s.vfs.segmentsOf t).length
        (chunk s.config.segmentSize ps i).flatten.length =
        ⟨pred64 (measured s.config.segmentSize ps i), measured s.config.segmentSize ps i⟩ := by
      simp only [tallied, hsize, hpred, measured]
    have hlt : measured s.config.segmentSize ps i < 2 ^ 64 := Nat.mod_lt _ (by decide)
    rw [htally, metadata_iff hpos hle hlt, measured_iff hseg hpos hle (Nat.lt_succ_iff.mp hi')]
    by_cases hb : Build.ndebug = true
    · simp [Countable, hb, hlast]
    · have hlen := hone.mp (hok.resolve_left hb)
      have hzero : (ps.length - 1) / s.config.segmentSize = 0 := Nat.div_eq_of_lt (by omega)
      rw [Countable, if_neg hb]
      exact iff_of_true (.inl (by omega)) hlen
  · refine .inr ⟨initTable_fails hdir hok, ?_⟩
    rw [not_or, hone] at hok
    rw [Countable, if_neg hok.1]
    exact hok.2

/-- One directory after the other. -/
theorem initTables_cases {l : List Nat} (hdisk : s.vfs.disk = segments s.config.segmentSize T)
    (hl : ∀ t ∈ l, t ∈ s.vfs.dirs ∧ ∃ ps, T t = some ps ∧ PagesOk s.config ps)
    (hseg : 0 < s.config.segmentSize) (hpage : 0 < s.config.pageSize) :
    (∃ tm, l.forM initTable s = .ok ⟨⟩ { s with tableMetadata := tm } ∧
      (∀ t, t ∉ l → tm.lookup t = s.tableMetadata.lookup t) ∧
      ∀ t ∈ l, ∀ ps, T t = some ps →
        (tm.lookup t = some (metadataOf ps) ↔ Countable s.vfs s.config t ps.length)) ∨
    (∃ u, l.forM initTable s = .error .assertion u ∧
      ∃ t ps, T t = some ps ∧ ¬ Countable s.vfs s.config t ps.length) := by
  induction l generalizing s with
  | nil => exact .inl ⟨s.tableMetadata, rfl, fun _ _ => rfl, by simp⟩
  | cons t l ih =>
    obtain ⟨hdir, ps, ht, hps⟩ := hl t List.mem_cons_self
    rcases initTable_cases hdisk ht hps hdir hseg hpage with ⟨m, hok, hm⟩ | ⟨herr, hnot⟩
    · have hcons : (t :: l).forM initTable s = l.forM initTable _ := bind_ok hok
      rcases ih (s := { s with tableMetadata := s.tableMetadata.insert t m }) hdisk
        (fun t' ht' => hl t' (List.mem_cons_of_mem _ ht')) hseg hpage with
        ⟨tm, htm, hother, hcount⟩ | ⟨u, hu, hbad⟩
      · refine .inl ⟨tm, hcons.trans htm, fun t' ht' => ?_, fun t' ht' ps' hps' => ?_⟩
        · rw [List.mem_cons, not_or] at ht'
          rw [hother t' ht'.2, AList.lookup_insert_ne ht'.1]
        · by_cases hin : t' ∈ l
          · exact hcount t' hin ps' hps'
          · obtain rfl := (List.mem_cons.mp ht').resolve_right hin
            rw [ht, Option.some_inj] at hps'
            rw [hother t' hin, AList.lookup_insert, Option.some_inj, ← hps', hm]
      · exact .inr ⟨u, hcons.trans hu, hbad⟩
    · exact .inr ⟨s, bind_error herr, t, ps, ht, hnot⟩

omit [Build] in
theorem decode_ok {α : Type} {x : ReadM α} {a : α} {offset : Nat} (h : x 0 = .ok a offset) :
    decode x s = .ok (a, offset) s := by
  rw [decode, h]
  rfl

omit [Build] in
/-- The control file is read, or written, and never in the way. -/
theorem initControl_ok (s : StorageEngine) : ∃ control catalogKey, initControl s =
    .ok () { s with vfs := { s.vfs with control := control }, catalogKey := catalogKey } := by
  rw [initControl, bind_ok get_ok]
  cases hcontrol : s.vfs.control with
  | none => exact ⟨_, s.catalogKey, rfl⟩
  | some content =>
    have hlen : controlSize ≤ (padTo (pread content controlSize 0) controlSize).length := by
      rw [length_padTo]
      exact le_max_right _ _
    dsimp only
    generalize padTo (pread content controlSize 0) controlSize = buffer at hlen
    have hread : ∃ control offset, (do
        let controlChecksum ← readUint32 buffer
        if controlChecksum = checksum then do
          let catalogTblId ← readUint64 buffer
          let catalogPgno ← readUint64 buffer
          return some (catalogTblId, catalogPgno)
        else return none : ReadM (Option PageKey)) 0 = .ok control offset := by
      have hsize : 20 ≤ buffer.length := hlen
      rw [readUint32, bind_ok (readUint_ok (w := 4) (by omega))]
      split_ifs with hcheck
      · rw [readUint64, bind_ok (readUint_ok (w := 8) (by omega)),
          bind_ok (readUint_ok (w := 8) (by omega))]
        exact ⟨_, _, rfl⟩
      · exact ⟨_, _, rfl⟩
    obtain ⟨control, offset, hcontrol'⟩ := hread
    have hdecode := decode_ok (s := s) hcontrol'
    refine ⟨s.vfs.control, control.getD s.catalogKey, (bind_ok hdecode).trans ?_⟩
    cases control <;> rfl

variable {fs : LocalFS}

/-- A directory that an engine left is opened: nothing but the counts can be wrong, and with asserts
nothing is. -/
theorem openAt_cases (h : Kept s T) (hfs : fs.Relisted s.vfs) :
    (∃ u, openAt fs s.config = .ok () u ∧ u.config = s.config ∧
      (∀ t ps, T t = some ps →
        (u.tableMetadata.lookup t = some (metadataOf ps) ↔ Countable fs s.config t ps.length)) ∧
      ((∀ t ps, T t = some ps → Countable fs s.config t ps.length) → Kept u T)) ∨
    (∃ u, openAt fs s.config = .error .assertion u ∧
      ∃ t ps, T t = some ps ∧ ¬ Countable fs s.config t ps.length) := by
  obtain ⟨control, catalogKey, hcontrol⟩ := initControl_ok ⟨fs, s.config, (0, 0), ∅, {}⟩
  generalize hs₁ : (⟨{ fs with control := control }, s.config, catalogKey, ∅, {}⟩ : StorageEngine) = s₁
  have hopen : openAt fs s.config = fs.dirs.forM initTable s₁ := by
    rw [← hs₁]
    exact bind_ok hcontrol
  have hdirs : ∀ t, t ∈ fs.dirs ↔ T t ≠ none := fun t => (hfs.dirs t).trans (h.dirs t)
  have hdisk : s₁.vfs.disk = segments s₁.config.segmentSize T := by
    rw [← hs₁]
    exact hfs.disk.trans h.disk
  have hl : ∀ t ∈ fs.dirs, t ∈ s₁.vfs.dirs ∧ ∃ ps, T t = some ps ∧ PagesOk s₁.config ps := by
    intro t ht
    obtain ⟨ps, hps⟩ := Option.ne_none_iff_exists'.mp ((hdirs t).mp ht)
    rw [← hs₁]
    exact ⟨ht, ps, hps, h.pages t ps hps⟩
  have hpage : 0 < s.config.pageSize := lt_of_lt_of_le (by decide) h.page_size
  rcases initTables_cases hdisk hl (by rw [← hs₁]; exact h.seg_pos) (by rw [← hs₁]; exact hpage) with
    ⟨tm, hok, hother, hcount⟩ | ⟨u, hu, hbad⟩
  · subst hs₁
    have hin : ∀ t ps, T t = some ps → t ∈ fs.dirs := fun t ps ht => (hdirs t).mpr (by simp [ht])
    refine .inl ⟨_, hopen.trans hok, rfl, fun t ps ht => hcount t (hin t ps ht) ps ht, fun hall => ?_⟩
    refine ⟨h.seg_pos, h.page_size, ⟨{}, FileCache.holds_empty, by simp⟩, ?_, hdirs, hdisk, ?_, h.pages⟩
    · obtain ⟨hinj, hlt⟩ := hfs.apart h.apart
      exact ⟨hinj, hlt⟩
    · intro t
      cases ht : T t with
      | none => exact (hother t fun hmem => (hdirs t).mp hmem ht).trans (AList.lookup_empty t)
      | some ps => exact (hcount t (hin t ps ht) ps ht).mpr (hall t ps ht)
  · subst hs₁
    exact .inr ⟨u, hopen.trans hu, hbad⟩

end Init

/-! ### Closing -/

section Shutdown

variable [Build] {s : StorageEngine} {T : Tables}

/-- Page 0 of each table is written, and nothing that a caller wrote. -/
theorem flushTables_ok {l : List Nat} (h : Kept s T) (hl : ∀ t ∈ l, T t ≠ none) :
    Returns (l.forM flushTable) s
      (fun _ u => ∃ T', Kept u T' ∧ Tables.user T' = Tables.user T ∧ u.config = s.config) := by
  induction l generalizing s T with
  | nil => exact ⟨⟨⟩, s, rfl, T, h, rfl, rfl⟩
  | cons t l ih =>
    obtain ⟨ps, ht⟩ := Option.ne_none_iff_exists'.mp (hl t List.mem_cons_self)
    obtain ⟨first, pages, rfl, hV⟩ := h.cons ht
    have hflush := flushTable_ok h ht (show (first :: pages)[0]? = some first from rfl)
    refine hflush.bind fun _ u ⟨hu, hconfig⟩ => ?_
    have hrest := ih hu fun t' ht' => ?_
    · refine hrest.mono fun _ v ⟨T', hv, huser, hconfig'⟩ => ⟨T', hv, ?_, hconfig'.trans hconfig⟩
      rw [huser, user_update, List.set_cons_zero, List.tail_cons, ← hV, Function.update_eq_self]
    · by_cases heq : t' = t
      · simp [heq]
      · rw [Function.update_of_ne heq]
        exact hl t' (List.mem_cons_of_mem _ ht')

theorem shutdown_ok (h : Kept s T) : Returns shutdown s
    (fun _ u => ∃ T', Kept u T' ∧ Tables.user T' = Tables.user T ∧ u.config = s.config) := by
  refine .bind_eq get_ok (flushTables_ok h fun t ht => ?_)
  rw [List.mem_insertionSort, ← AList.mem_keys, ← AList.lookup_isSome, h.counted, Option.isSome_map] at ht
  exact Option.isSome_iff_ne_none.mp ht

end Shutdown

/-! ### Opening again -/

section Resumes

variable [Build] {s : StorageEngine} {T V : Tables} {config : EngineConfig} {fs : LocalFS}

/-- From here on, the engine answers as the tables do. -/
def ServesFrom (s : StorageEngine) (V : Tables) : Prop :=
  ∀ ops, AllowedAll ops s → ∃ V', ServesAll s.config V ops (runAll ops s).1 V'

/-- The directory opens, with the same counts and the same tables. -/
def Resumes (fs : LocalFS) (config : EngineConfig) (V : Tables) : Prop :=
  ∃ u, openAt fs config = .ok () u ∧ u.config = config ∧ u.ServesFrom V ∧ ∀ t pages, V t = some pages →
    u.tableMetadata.lookup t = some ⟨pages.length, (pages.length + 1) % 2 ^ 64⟩

theorem Kept.servesFrom (h : Kept s T) : s.ServesFrom (Tables.user T) := by
  intro ops hops
  obtain ⟨T', -, hserves⟩ := run_serves h hops
  exact ⟨_, hserves⟩

theorem run_config {ops : List Op} (h : Kept s T) (hops : AllowedAll ops s) :
    (runAll ops s).2.config = s.config := by
  induction ops generalizing s T with
  | nil => rfl
  | cons op ops ih =>
    obtain ⟨T', hkept, hconfig, -⟩ := step h hops.1
    exact (ih hkept hops.2).trans hconfig

theorem resumes_iff (h : Kept s T) (hfs : fs.Relisted s.vfs) : Resumes fs s.config (Tables.user T) ↔
    ∀ t pages, Tables.user T t = some pages → Countable fs s.config t (pages.length + 1) := by
  have huser : ∀ t pages, Tables.user T t = some pages ↔ ∃ first, T t = some (first :: pages) := by
    intro t pages
    constructor
    · intro hV
      obtain ⟨ps, ht, -⟩ := Option.map_eq_some_iff.mp hV
      obtain ⟨first, pages', rfl, hV'⟩ := h.cons ht
      rw [hV, Option.some_inj] at hV'
      exact ⟨first, hV' ▸ ht⟩
    · rintro ⟨first, ht⟩
      simp [Tables.user, ht]
  rcases openAt_cases h hfs with ⟨u, hopen, hconfig, hcount, hkept⟩ | ⟨u, hopen, t, ps, ht, hbad⟩
  · constructor
    · rintro ⟨u', hopen', -, -, hsame⟩ t pages hV
      rw [hopen] at hopen'
      cases hopen'
      obtain ⟨first, ht⟩ := (huser t pages).mp hV
      exact (hcount t _ ht).mp (hsame t pages hV)
    · intro hall
      have hkept' : Kept u T := hkept fun t ps ht => by
        obtain ⟨first, pages, rfl, hV⟩ := h.cons ht
        exact hall t pages hV
      refine ⟨u, hopen, hconfig, hkept'.servesFrom, fun t pages hV => ?_⟩
      obtain ⟨first, ht⟩ := (huser t pages).mp hV
      rw [hkept'.counted, ht, Option.map_some]
      rfl
  · refine iff_of_false ?_ fun hall => ?_
    · rintro ⟨u', hopen', -⟩
      rw [hopen] at hopen'
      cases hopen'
    · obtain ⟨first, pages, rfl, hV⟩ := h.cons ht
      exact hbad (hall t pages hV)

/-- Whatever was done over a new directory, `shutdown` returns. Opened again, then or without it, in
whatever order its files are listed, the directory has its tables just when each is counted right:
with asserts, when none has more than one file. -/
theorem runAll_resumes_iff (basedir : String) (hseg : 1 ≤ config.segmentSize)
    (hpage : TableMetadata.size ≤ config.pageSize) :
    ∃ s, openAt (LocalFS.empty basedir) config = .ok () s ∧ ∀ ops, AllowedAll ops s →
      ∃ V t, ServesAll config (fun _ => none) ops (runAll ops s).1 V ∧
        shutdown (runAll ops s).2 = .ok () t ∧
        ∀ fs, (fs.Relisted (runAll ops s).2.vfs ∨ fs.Relisted t.vfs) → (Resumes fs config V ↔
          ∀ tblId pages, V tblId = some pages → Countable fs config tblId (pages.length + 1)) := by
  obtain ⟨control, hopen⟩ := openAt_empty basedir config
  obtain ⟨hkept, hconfig⟩ := kept_open hopen hseg hpage
  refine ⟨_, hopen, fun ops hops => ?_⟩
  obtain ⟨T, hkept', hserves⟩ := run_serves hkept hops
  have hsame : (runAll ops _).2.config = config := (run_config hkept hops).trans hconfig
  obtain ⟨⟨⟩, t, hshut, T', hkept'', huser, hconfig'⟩ := shutdown_ok hkept'
  rw [hconfig] at hserves
  refine ⟨_, t, hserves, hshut, fun fs hfs => ?_⟩
  rcases hfs with hfs | hfs
  · rw [← hsame]
    exact resumes_iff hkept' hfs
  · rw [← hsame, ← hconfig', ← huser]
    exact resumes_iff hkept'' hfs

theorem allowedAll_page (h : Kept s fun _ => none) (hreach : InReach s.config 1) :
    AllowedAll [.createTable 1, .allocatePage 1] s := by
  obtain ⟨_, u, hu, hkept, hconfig⟩ :=
    answer_returns (fun _ => .done) (createTable_ok (t := 1) h rfl)
  refine ⟨trivial, ?_, trivial⟩
  rw [Op.run, hu]
  exact allowed_allocatePage hkept (Function.update_self ..) (hconfig ▸ hreach)

omit [Build] in
/-- A table in one file is found again. -/
theorem runAll_resumes_iff_page : ∃ s V t, @openAt ⟨false⟩ (LocalFS.empty "base") ⟨2, 16⟩ = .ok () s ∧
    @shutdown ⟨false⟩ (@runAll ⟨false⟩ [.createTable 1, .allocatePage 1] s).2 = .ok () t ∧
    V 1 ≠ none ∧ @Resumes ⟨false⟩ t.vfs ⟨2, 16⟩ V := by
  let _ : Build := ⟨false⟩
  obtain ⟨s, hopen, h⟩ := @runAll_resumes_iff ⟨false⟩ ⟨2, 16⟩ "base" (by decide) (by decide)
  obtain ⟨hkept, hconfig⟩ := kept_open hopen (by decide) (by decide)
  have hreach : InReach s.config 1 := by
    rw [hconfig]
    exact ⟨by decide, by decide⟩
  obtain ⟨V, t, hserves, hshut, hiff⟩ := h _ (allowedAll_page hkept hreach)
  have hsame : t.vfs.Relisted t.vfs := ⟨fun _ => Iff.rfl, fun _ => rfl, rfl, rfl⟩
  generalize hans : (@runAll ⟨false⟩ [.createTable 1, .allocatePage 1] s).1 = answers at hserves
  have hV : ∃ page, V = Function.update (fun _ => none : Tables) 1 (some [page]) := by
    rcases hserves with _ | ⟨hcreate, _ | ⟨halloc, _ | _⟩⟩
    cases hcreate with
    | createThrows _ hne => exact absurd rfl hne
    | create =>
      cases halloc with
      | allocate _ pages hpages =>
        rw [Function.update_self, Option.some_inj] at hpages
        exact ⟨_, by rw [← hpages, Function.update_idem]; rfl⟩
      | allocateFails _ _ hnone => simp at hnone
  obtain ⟨page, rfl⟩ := hV
  refine ⟨s, _, t, hopen, hshut, by simp, (hiff t.vfs (.inr hsame)).mpr fun tblId pages hpages => ?_⟩
  have heq : tblId = 1 := by
    by_contra hne
    rw [Function.update_of_ne hne] at hpages
    cases hpages
  subst heq
  rw [Function.update_self, Option.some_inj] at hpages
  rw [← hpages]
  exact Nat.le_refl 2

end Resumes

end StorageEngine

end Cpplite
