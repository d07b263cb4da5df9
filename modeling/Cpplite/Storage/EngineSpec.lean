import Cpplite.Storage.Engine

/-!
What the storage engine keeps: each table is a list of pages, cut into segment files, and
`read_page` finds the page that was last written.
-/
namespace Cpplite

open Exec Encoding ByteFile Recency

/-! ### Files by name -/

namespace LocalFS

/-- What the files hold. -/
def disk (fs : LocalFS) (key : FileKey) : Option (List Byte) := (fs.files.lookup key).map fs.inodes

/-- Files have inodes of their own, and `open` gives a new file a new one. -/
structure Apart (fs : LocalFS) : Prop where
  inj : ∀ k k' n, fs.files.lookup k = some n → fs.files.lookup k' = some n → k = k'
  lt : ∀ k n, fs.files.lookup k = some n → n < fs.nextInode

def created (fs : LocalFS) (key : FileKey) : LocalFS :=
  { fs with
    files := fs.files.insert key fs.nextInode
    inodes := Function.update fs.inodes fs.nextInode []
    nextInode := fs.nextInode + 1 }

def written (fs : LocalFS) (inode : Nat) (content : List Byte) : LocalFS :=
  { fs with inodes := Function.update fs.inodes inode content }

variable {fs : LocalFS} {key : FileKey} {n : Nat} {content : List Byte}

theorem openFile_old (h : fs.files.lookup key = some n) : openFile key fs = .ok n fs := by
  rw [openFile, bind_ok get_ok]
  simp only [h]
  rfl

theorem openFile_new (h : fs.files.lookup key = none) (hd : key.1 ∈ fs.dirs) :
    openFile key fs = .ok fs.nextInode (fs.created key) := by
  rw [openFile, bind_ok get_ok]
  simp only [h, hd, if_true]
  rfl

theorem openFile_fails (h : fs.files.lookup key = none) (hd : key.1 ∉ fs.dirs) :
    Raises (openFile key) fs (fun e u => e.Thrown ∧ u = fs) := by
  refine .bind_eq get_ok ?_
  simp only [h, hd, if_false]
  exact raises_throw.mpr ⟨trivial, rfl⟩

theorem lookup_created (k : FileKey) : (fs.created key).files.lookup k =
    if k = key then some fs.nextInode else fs.files.lookup k := by
  by_cases hk : k = key
  · subst hk
    simp [LocalFS.created]
  · simp [LocalFS.created, hk]

theorem Apart.created (h : fs.Apart) : (fs.created key).Apart := by
  constructor
  · intro k k' n hk hk'
    rw [lookup_created] at hk hk'
    split_ifs at hk hk' with h1 h2 h2
    · rw [h1, h2]
    · cases hk
      exact absurd (h.lt k' _ hk') (lt_irrefl _)
    · cases hk'
      exact absurd (h.lt k _ hk) (lt_irrefl _)
    · exact h.inj k k' n hk hk'
  · intro k n hk
    rw [lookup_created] at hk
    change n < fs.nextInode + 1
    split_ifs at hk with h1
    · cases hk
      exact Nat.lt_succ_self _
    · exact (h.lt k n hk).trans (Nat.lt_succ_self _)

theorem disk_created (h : fs.Apart) :
    (fs.created key).disk = Function.update fs.disk key (some []) := by
  funext k
  by_cases hk : k = key
  · subst hk
    simp [disk, LocalFS.created]
  · rw [Function.update_of_ne hk]
    simp only [disk, LocalFS.created, AList.lookup_insert_ne hk]
    cases hf : fs.files.lookup k with
    | none => rfl
    | some n => simp [Function.update_of_ne (h.lt k n hf).ne]

theorem disk_written (h : fs.Apart) (hn : fs.files.lookup key = some n) :
    (fs.written n content).disk = Function.update fs.disk key (some content) := by
  funext k
  by_cases hk : k = key
  · subst hk
    simp [disk, LocalFS.written, hn]
  · rw [Function.update_of_ne hk]
    simp only [disk, LocalFS.written]
    cases hf : fs.files.lookup k with
    | none => rfl
    | some n' =>
      have hne : n' ≠ n := fun heq => hk (h.inj k key n (heq ▸ hf) hn)
      simp [Function.update_of_ne hne]

theorem disk_some (h : fs.disk key = some content) :
    ∃ n, fs.files.lookup key = some n ∧ fs.inodes n = content := by
  simpa [disk] using h

theorem disk_none : fs.disk key = none ↔ fs.files.lookup key = none := by
  simp [disk]

end LocalFS

/-! ### Files by their handles -/

section Entries

variable {F : Type} {m : LruMap F} {key : FileKey} {file : F} {P : FileKey × F → Prop}

theorem LruMap.entries_get (hnd : (keys m.recency).Nodup)
    (h : ∀ e ∈ m.recency.take maxCacheSize, P e) :
    ∀ e ∈ (m.get key).2.recency.take maxCacheSize, P e := by
  cases hm : m.find key with
  | none => simpa only [LruMap.get, hm] using h
  | some file =>
    obtain ⟨l₁, l₂, hcut, -⟩ := exists_cut_of_lookup hm
    have htake : (touch key file m.recency).take maxCacheSize = (key, file) :: (l₁ ++ l₂) :=
      take_touch_of_hit (n := 9) hnd hcut
    intro e he
    simp only [LruMap.get, hm, htake] at he
    apply h
    rw [hcut]
    simp only [List.mem_cons, List.mem_append] at he ⊢
    tauto

theorem LruMap.entries_put (hm : m.find key = none)
    (h : ∀ e ∈ m.recency.take maxCacheSize, P e) (hnew : P (key, file)) :
    ∀ e ∈ (m.put key file).recency.take maxCacheSize, P e := by
  have htake : (touch key file m.recency).take maxCacheSize = (key, file) :: m.recency.take 9 :=
    take_touch_of_miss (n := 9) (lookup_eq_none.mp hm)
  intro e he
  simp only [LruMap.put, hm, htake, List.mem_cons] at he
  rcases he with rfl | he
  · exact hnew
  · exact h e ((List.take_prefix_take_left (by decide)).subset he)

theorem LruMap.find_put (hm : m.find key = none) : (m.put key file).find key = some file := by
  rw [LruMap.put, hm]
  simp [LruMap.find, lookup, touch, maxCacheSize]

theorem LruMap.get_of_find (hm : m.find key = some file) : (m.get key).1 = some file := by
  simp only [LruMap.get, hm]

/-- What is found is an entry. -/
theorem LruMap.mem_of_find (hm : m.find key = some file) :
    (key, file) ∈ m.recency.take maxCacheSize := by
  obtain ⟨l₁, l₂, hcut, -⟩ := exists_cut_of_lookup hm
  rw [hcut]
  simp

end Entries

namespace StorageEngine

/-- Every handle in the cache is that of the file under its name. -/
def Cached (c : FileCache LocalFile) (fs : LocalFS) : Prop :=
  ∃ m, FileCache.Holds c m ∧ ∀ e ∈ m.recency.take maxCacheSize, fs.files.lookup e.1 = some e.2

section Segments

variable {s : StorageEngine} {tblId segId n : Nat}

theorem cached_ok (key : FileKey) : onFilecache (FileCache.cached key) s =
    .ok (s.filecache.filecache key).isSome s :=
  rfl

variable [Build]

/-- A file that is put into the cache and taken out again. -/
theorem put_get {m : LruMap LocalFile} {c : FileCache LocalFile} {fs : LocalFS} {key : FileKey}
    (hm : FileCache.Holds c m) (hfind : m.find key = none)
    (hfiles : ∀ e ∈ m.recency.take maxCacheSize, fs.files.lookup e.1 = some e.2)
    (hf : fs.files.lookup key = some n) :
    ∃ c₁ c₂, FileCache.put key n c = .ok () c₁ ∧ FileCache.get key c₁ = .ok (some n) c₂ ∧
      Cached c₂ fs := by
  obtain ⟨c₁, hput, hc₁⟩ := hm.put hfind n
  obtain ⟨c₂, hget, hc₂⟩ := hc₁.get key
  rw [LruMap.get_of_find (LruMap.find_put hfind)] at hget
  exact ⟨c₁, c₂, hput, hget, _, hc₂,
    LruMap.entries_get hc₁.keys_nodup (LruMap.entries_put hfind hfiles hf)⟩

/-- The file of a segment comes from the cache or is opened. -/
theorem openSegment_old (h : Cached s.filecache s.vfs)
    (hf : s.vfs.files.lookup (tblId, segId) = some n) :
    ∃ c, openSegment tblId segId s = .ok (some n) { s with filecache := c } ∧ Cached c s.vfs := by
  obtain ⟨m, hm, hfiles⟩ := h
  cases hfind : m.find (tblId, segId) with
  | some file =>
    have hfile := hfiles _ (LruMap.mem_of_find hfind)
    rw [hf] at hfile
    cases hfile
    obtain ⟨c, hget, hc⟩ := hm.get (tblId, segId)
    rw [LruMap.get_of_find hfind] at hget
    have hcached : (s.filecache.filecache (tblId, segId)).isSome = true := by
      rw [hm.cached_iff, hfind]
      rfl
    refine ⟨c, ?_, _, hc, LruMap.entries_get hm.keys_nodup hfiles⟩
    rw [openSegment, bind_ok (cached_ok _), if_pos hcached]
    exact zoom_ok hget
  | none =>
    have hcached : ¬ (s.filecache.filecache (tblId, segId)).isSome = true := by
      rw [hm.cached_iff, hfind]
      simp
    obtain ⟨c₁, c₂, hput, hget, hc⟩ := put_get hm hfind hfiles hf
    refine ⟨c₂, ?_, hc⟩
    have hopen : onVfs (LocalFS.openFile (tblId, segId)) s = .ok n s :=
      zoom_ok (LocalFS.openFile_old hf)
    have hput' : onFilecache (FileCache.put (tblId, segId) n) s = .ok () { s with filecache := c₁ } :=
      zoom_ok hput
    rw [openSegment, bind_ok (cached_ok _), if_neg hcached, bind_ok hopen, bind_ok hput']
    exact zoom_ok hget

/-- The file of a new segment is made. -/
theorem openSegment_new (h : Cached s.filecache s.vfs)
    (hf : s.vfs.files.lookup (tblId, segId) = none) (hd : tblId ∈ s.vfs.dirs) :
    ∃ c, openSegment tblId segId s = .ok (some s.vfs.nextInode)
      { s with vfs := s.vfs.created (tblId, segId), filecache := c } ∧
      Cached c (s.vfs.created (tblId, segId)) := by
  obtain ⟨m, hm, hfiles⟩ := h
  have hne : ∀ e ∈ m.recency.take maxCacheSize, e.1 ≠ (tblId, segId) := by
    intro e he heq
    have hfile := hfiles e he
    rw [heq, hf] at hfile
    cases hfile
  have hfind : m.find (tblId, segId) = none := by
    cases hfind : m.find (tblId, segId) with
    | none => rfl
    | some file => exact absurd rfl (hne _ (LruMap.mem_of_find hfind))
  have hcached : ¬ (s.filecache.filecache (tblId, segId)).isSome = true := by
    rw [hm.cached_iff, hfind]
    simp
  have hfiles' : ∀ e ∈ m.recency.take maxCacheSize,
      (s.vfs.created (tblId, segId)).files.lookup e.1 = some e.2 := by
    intro e he
    rw [LocalFS.lookup_created, if_neg (hne e he)]
    exact hfiles e he
  obtain ⟨c₁, c₂, hput, hget, hc⟩ := put_get hm hfind hfiles'
    (by rw [LocalFS.lookup_created, if_pos rfl])
  refine ⟨c₂, ?_, hc⟩
  have hopen : onVfs (LocalFS.openFile (tblId, segId)) s =
      .ok s.vfs.nextInode { s with vfs := s.vfs.created (tblId, segId) } :=
    zoom_ok (LocalFS.openFile_new hf hd)
  have hput' : onFilecache (FileCache.put (tblId, segId) s.vfs.nextInode)
      { s with vfs := s.vfs.created (tblId, segId) } =
      .ok () { s with vfs := s.vfs.created (tblId, segId), filecache := c₁ } :=
    zoom_ok hput
  rw [openSegment, bind_ok (cached_ok _), if_neg hcached, bind_ok hopen, bind_ok hput']
  exact zoom_ok hget

/-- In a table's directory there is a file for every segment that is asked for: what it held, or
nothing yet. -/
theorem openSegment_ok (segId : Nat) (h : Cached s.filecache s.vfs) (hapart : s.vfs.Apart) (hd : tblId ∈ s.vfs.dirs) :
    ∃ n fs c, openSegment tblId segId s = .ok (some n) { s with vfs := fs, filecache := c } ∧
      Cached c fs ∧ fs.Apart ∧ fs.dirs = s.vfs.dirs ∧ fs.files.lookup (tblId, segId) = some n ∧
      fs.inodes n = (s.vfs.disk (tblId, segId)).getD [] ∧
      fs.disk = Function.update s.vfs.disk (tblId, segId)
        (some ((s.vfs.disk (tblId, segId)).getD [])) := by
  cases hf : s.vfs.files.lookup (tblId, segId) with
  | some n =>
    obtain ⟨c, hopen, hc⟩ := openSegment_old h hf
    have hdisk : s.vfs.disk (tblId, segId) = some (s.vfs.inodes n) := by
      rw [LocalFS.disk, hf, Option.map_some]
    refine ⟨n, s.vfs, c, hopen, hc, hapart, rfl, hf, by rw [hdisk, Option.getD_some], ?_⟩
    rw [hdisk, Option.getD_some, ← hdisk, Function.update_eq_self]
  | none =>
    obtain ⟨c, hopen, hc⟩ := openSegment_new h hf hd
    have hdisk : s.vfs.disk (tblId, segId) = none := LocalFS.disk_none.mpr hf
    refine ⟨_, _, c, hopen, hc, hapart.created, rfl, ?_, ?_, ?_⟩
    · rw [LocalFS.lookup_created, if_pos rfl]
    · simp [LocalFS.created, hdisk]
    · rw [LocalFS.disk_created hapart, hdisk, Option.getD_none]

/-- Without the table's directory, nothing is opened and nothing changes. -/
theorem openSegment_fails (h : Cached s.filecache s.vfs)
    (hf : s.vfs.files.lookup (tblId, segId) = none) (hd : tblId ∉ s.vfs.dirs) :
    Raises (openSegment tblId segId) s (fun e u => e.Thrown ∧ u = s) := by
  obtain ⟨m, hm, hfiles⟩ := h
  have hcached : ¬ (s.filecache.filecache (tblId, segId)).isSome = true := by
    rw [hm.cached_iff]
    cases hfind : m.find (tblId, segId) with
    | none => simp
    | some file =>
      have hfile := hfiles _ (LruMap.mem_of_find hfind)
      rw [hf] at hfile
      cases hfile
  refine .bind_eq (cached_ok _) ?_
  rw [if_neg hcached]
  obtain ⟨e, u, hu, he, rfl⟩ := LocalFS.openFile_fails hf hd
  exact Raises.bind_left ⟨e, _, zoom_error hu, he, rfl⟩

end Segments

/-! ### Tables as lists of pages -/

/-- The tables, with their pages from page 0 on. -/
abbrev Tables := Nat → Option (List (List Byte))

/-- What is in the `i`-th segment file of a table of these pages. -/
def segmentOf (segmentSize : Nat) (pages : List (List Byte)) (i : Nat) : Option (List Byte) :=
  if i * segmentSize < pages.length then some (chunk segmentSize pages i).flatten else none

/-- What is in all the segment files. -/
def segments (segmentSize : Nat) (T : Tables) (key : FileKey) : Option (List Byte) :=
  (T key.1).bind fun pages => segmentOf segmentSize pages key.2

/-- A page whose number and offset the code can deal with. -/
def InReach (config : EngineConfig) (pgno : Nat) : Prop :=
  pgno < 2 ^ 64 ∧ pgno % config.segmentSize * config.pageSize < 2 ^ 63

/-- The pages of a table. -/
structure PagesOk (config : EngineConfig) (pages : List (List Byte)) : Prop where
  ne_nil : pages ≠ []
  size : ∀ page ∈ pages, page.length = config.pageSize
  reach : ∀ p < pages.length, InReach config p

def metadataOf (pages : List (List Byte)) : TableMetadata :=
  ⟨pages.length - 1, pages.length % 2 ^ 64⟩

/-- The engine keeps the tables: on disk, cut into segments, and counted in the metadata. -/
structure Kept (s : StorageEngine) (T : Tables) : Prop where
  seg_pos : 0 < s.config.segmentSize
  page_size : TableMetadata.size ≤ s.config.pageSize
  cached : Cached s.filecache s.vfs
  apart : s.vfs.Apart
  dirs : ∀ t, t ∈ s.vfs.dirs ↔ T t ≠ none
  disk : s.vfs.disk = segments s.config.segmentSize T
  counted : ∀ t, s.tableMetadata.lookup t = (T t).map metadataOf
  pages : ∀ t ps, T t = some ps → PagesOk s.config ps

section Kept

variable {s s' : StorageEngine} {T : Tables} {t p i n : Nat} {ps ps' : List (List Byte)}
  {page : List Byte}

/-- Only what the cache has open changes. -/
theorem Kept.of_filecache (h : Kept s T) {c : FileCache LocalFile} (hc : Cached c s.vfs) :
    Kept { s with filecache := c } T :=
  ⟨h.seg_pos, h.page_size, hc, h.apart, h.dirs, h.disk, h.counted, h.pages⟩

/-- One table, and in one segment, changes. -/
theorem Kept.replace (h : Kept s T) (hconfig : s'.config = s.config)
    (hcached : Cached s'.filecache s'.vfs) (hapart : s'.vfs.Apart)
    (hdirs : ∀ x, x ∈ s'.vfs.dirs ↔ x ∈ s.vfs.dirs ∨ x = t)
    (hmeta : ∀ x, s'.tableMetadata.lookup x =
      if x = t then some (metadataOf ps') else s.tableMetadata.lookup x)
    (hpages : PagesOk s.config ps')
    (hdisk : s'.vfs.disk =
      Function.update s.vfs.disk (t, i) (segmentOf s.config.segmentSize ps' i))
    (hother : ∀ j, j ≠ i → segmentOf s.config.segmentSize ps' j =
      (T t).bind fun ps => segmentOf s.config.segmentSize ps j) :
    Kept s' (Function.update T t (some ps')) := by
  refine ⟨hconfig ▸ h.seg_pos, hconfig ▸ h.page_size, hcached, hapart, ?_, ?_, ?_, ?_⟩
  · intro x
    rw [hdirs, h.dirs]
    by_cases hx : x = t
    · simp [hx]
    · simp [hx]
  · rw [hdisk, hconfig, h.disk]
    funext ⟨x, j⟩
    by_cases hx : x = t
    · subst hx
      by_cases hj : j = i
      · subst hj
        simp [segments]
      · rw [Function.update_of_ne (by simp [hj])]
        simp [segments, hother j hj]
    · rw [Function.update_of_ne (by simp [hx])]
      simp [segments, hx]
  · intro x
    rw [hmeta]
    by_cases hx : x = t
    · simp [hx]
    · simp [hx, h.counted]
  · intro x qs hqs
    rw [hconfig]
    by_cases hx : x = t
    · subst hx
      rw [Function.update_self, Option.some_inj] at hqs
      rwa [← hqs]
    · rw [Function.update_of_ne hx] at hqs
      exact h.pages x qs hqs

/-- A page has its file, in which it stands at its offset. -/
theorem Kept.file (h : Kept s T) (ht : T t = some ps) (hp : p < ps.length) :
    ∃ n, s.vfs.files.lookup (t, p / s.config.segmentSize) = some n ∧
      s.vfs.inodes n = (chunk s.config.segmentSize ps (p / s.config.segmentSize)).flatten := by
  apply LocalFS.disk_some
  have hlt : p / s.config.segmentSize * s.config.segmentSize < ps.length :=
    (Nat.div_mul_le_self _ _).trans_lt hp
  simp [h.disk, segments, segmentOf, ht, hlt]

theorem Kept.no_file (h : Kept s T) (ht : T t = none) (i : Nat) :
    s.vfs.files.lookup (t, i) = none := by
  rw [← LocalFS.disk_none, h.disk]
  simp [segments, ht]

theorem Kept.no_dir (h : Kept s T) (ht : T t = none) : t ∉ s.vfs.dirs := by
  simp [h.dirs, ht]

theorem pgnoToFileOffset_eq {config : EngineConfig} (h : InReach config p) :
    pgnoToFileOffset p config.segmentSize config.pageSize =
      p % config.segmentSize * config.pageSize := by
  have hlt := h.2
  exact Nat.mod_eq_of_lt (by simp only [pgnoToRelPgno]; omega)

theorem PagesOk.chunk_size {config : EngineConfig} (h : PagesOk config ps) :
    ∀ page ∈ chunk config.segmentSize ps i, page.length = config.pageSize :=
  fun page hp => h.size page (mem_of_mem_chunk hp)

/-- `read` of a page. -/
theorem readFile_ok {buffer : List Byte} {size offset : Nat} (hoff : offset < 2 ^ 63)
    (hread : pread (s.vfs.inodes n) size offset = page) (hsize : page.length = size) :
    onVfs (LocalFile.read n buffer size offset) s = .ok (page ++ buffer.drop size) s := by
  have hrest : (padTo buffer size).drop size = buffer.drop size := by
    rw [padTo]
    by_cases hlen : size ≤ buffer.length
    · rw [Nat.sub_eq_zero_of_le hlen, List.replicate_zero, List.append_nil]
    · rw [List.drop_of_length_le, List.drop_of_length_le]
      · omega
      · rw [List.length_append, List.length_replicate]
        omega
  apply zoom_ok
  rw [LocalFile.read, bind_ok get_ok]
  simp only [hoff, if_true, hread, hsize, hrest]
  rfl

/-- `write` of a buffer, or of zeros. -/
theorem writeFile_ok {buffer : Option (List Byte)} {size offset : Nat} (hoff : offset < 2 ^ 63) :
    onVfs (LocalFile.write n buffer size offset) s = .ok () { s with
      vfs := s.vfs.written n
        (pwrite (s.vfs.inodes n) ((padTo (buffer.getD []) size).take size) offset) } := by
  apply zoom_ok
  rw [LocalFile.write, if_pos hoff]
  rfl

theorem PagesOk.set {config : EngineConfig} (h : PagesOk config ps)
    (hpage : page.length = config.pageSize) : PagesOk config (ps.set p page) where
  ne_nil := by
    rw [Ne, List.set_eq_nil_iff]
    exact h.ne_nil
  size q hq := by
    rcases List.mem_or_eq_of_mem_set hq with hq | rfl
    · exact h.size q hq
    · exact hpage
  reach q hq := h.reach q (by simpa using hq)

theorem PagesOk.concat {config : EngineConfig} (h : PagesOk config ps)
    (hpage : page.length = config.pageSize) (hreach : InReach config ps.length) :
    PagesOk config (ps ++ [page]) where
  ne_nil := by simp
  size q hq := by
    rcases List.mem_append.mp hq with hq | hq
    · exact h.size q hq
    · rw [List.mem_singleton.mp hq, hpage]
  reach q hq := by
    rw [List.length_append, List.length_singleton] at hq
    rcases Nat.lt_succ_iff_lt_or_eq.mp hq with hq | rfl
    · exact h.reach q hq
    · exact hreach

/-- Bytes of a page are written. -/
theorem Kept.overwrite (h : Kept s T) (ht : T t = some ps) (hp : ps[p]? = some page)
    (hn : s.vfs.files.lookup (t, p / s.config.segmentSize) = some n) {data : List Byte}
    {off : Nat} (hoff : off + data.length ≤ s.config.pageSize) {c : FileCache LocalFile}
    (hc : Cached c s.vfs) :
    Kept { s with
      vfs := s.vfs.written n (pwrite (s.vfs.inodes n) data
        (p % s.config.segmentSize * s.config.pageSize + off))
      filecache := c } (Function.update T t (some (ps.set p (pwrite page data off)))) := by
  have hlt : p < ps.length := (List.getElem?_eq_some_iff.mp hp).1
  have hps := h.pages t ps ht
  have hpage := hps.size page (List.mem_of_getElem? hp)
  have hseg : p / s.config.segmentSize * s.config.segmentSize < ps.length :=
    (Nat.div_mul_le_self _ _).trans_lt hlt
  have hcontent : s.vfs.inodes n =
      (chunk s.config.segmentSize ps (p / s.config.segmentSize)).flatten := by
    obtain ⟨n', hn', hcontent⟩ := h.file ht hlt
    rw [hn] at hn'
    cases hn'
    exact hcontent
  have hsize : (pwrite page data off).length = s.config.pageSize := by
    by_cases hd : data = []
    · rw [hd]
      exact hpage
    · rw [length_pwrite hd, hpage]
      omega
  have hmeta : metadataOf (ps.set p (pwrite page data off)) = metadataOf ps := by
    simp [metadataOf]
  refine h.replace (i := p / s.config.segmentSize) rfl hc ⟨h.apart.inj, h.apart.lt⟩ ?_ ?_
    (hps.set hsize) ?_ ?_
  · intro x
    refine ⟨.inl, ?_⟩
    rintro (hx | rfl)
    · exact hx
    · exact (h.dirs x).mpr (by simp [ht])
  · intro x
    by_cases hx : x = t
    · simp [hx, h.counted, ht, hmeta]
    · simp [hx]
  · have hnew : segmentOf s.config.segmentSize (ps.set p (pwrite page data off))
        (p / s.config.segmentSize) = some (pwrite (s.vfs.inodes n) data
          (p % s.config.segmentSize * s.config.pageSize + off)) := by
      rw [segmentOf, List.length_set, if_pos hseg, chunk_set_self h.seg_pos, hcontent,
        pwrite_flatten hps.chunk_size (by rw [getElem?_chunk_div h.seg_pos, hp]) hoff]
    rw [hnew]
    exact LocalFS.disk_written h.apart hn
  · intro j hj
    simp only [ht, Option.bind_some, segmentOf, List.length_set, chunk_set_of_ne hj]

variable [Build]

theorem getLatestPage_ok (h : Kept s T) (ht : T t = some ps) :
    getLatestPage t s = .ok (ps.length - 1) s := by
  rw [getLatestPage, bind_ok get_ok]
  simp only [h.counted, ht, Option.map_some]
  rfl

/-- A table that is not there. -/
theorem getLatestPage_fails (h : Kept s T) (ht : T t = none) :
    Raises (getLatestPage t) s (fun e u => e.Thrown ∧ u = s) := by
  refine .bind_eq get_ok ?_
  simp only [h.counted, ht, Option.map_none]
  exact (openSegment_fails h.cached (h.no_file ht _) (h.no_dir ht)).bind_left

theorem getSegment_ok (h : Kept s T) (ht : T t = some ps)
    (hn : s.vfs.files.lookup (t, p / s.config.segmentSize) = some n) :
    ∃ c, getSegment t p s = .ok n { s with filecache := c } ∧ Cached c s.vfs := by
  obtain ⟨c, hopen, hc⟩ := openSegment_old h.cached hn
  refine ⟨c, ?_, hc⟩
  have hexists : s.vfs.dirExists t = true ∧
      s.vfs.fileExists (t, pgnoToSegid p s.config.segmentSize) = true := by
    constructor
    · simp [LocalFS.dirExists, h.dirs, ht]
    · simp [LocalFS.fileExists, pgnoToSegid, hn]
  rw [getSegment, bind_ok get_ok, bind_ok (assert_ok (.inr hexists))]
  exact bind_ok hopen

theorem readPage_ok (buffer : List Byte) (h : Kept s T) (ht : T t = some ps)
    (hp : ps[p]? = some page) :
    ∃ c, readPage (t, p) buffer s = .ok (page ++ buffer.drop s.config.pageSize)
      { s with filecache := c } ∧ Kept { s with filecache := c } T := by
  have hlt : p < ps.length := (List.getElem?_eq_some_iff.mp hp).1
  have hps := h.pages t ps ht
  obtain ⟨n, hn, hcontent⟩ := h.file ht hlt
  obtain ⟨c, hseg, hc⟩ := getSegment_ok h ht hn
  refine ⟨c, ?_, h.of_filecache hc⟩
  have hle : ¬ (t, p).2 > ps.length - 1 := by
    have hpos := List.length_pos_iff.mpr hps.ne_nil
    change ¬ p > ps.length - 1
    omega
  have hread : pread (s.vfs.inodes n) s.config.pageSize
      (p % s.config.segmentSize * s.config.pageSize) = page := by
    rw [hcontent]
    exact pread_flatten hps.chunk_size (by rw [getElem?_chunk_div h.seg_pos, hp])
  rw [readPage, bind_ok (getLatestPage_ok h ht), if_neg hle, bind_ok hseg, bind_ok get_ok]
  simp only [pgnoToFileOffset_eq (hps.reach p hlt)]
  exact readFile_ok (s := { s with filecache := c }) (hps.reach p hlt).2 hread
    (hps.size page (List.mem_of_getElem? hp))

/-- Past the last page, or without the table, nothing is read. -/
theorem readPage_fails (buffer : List Byte) (h : Kept s T)
    (hp : (T t).bind (fun ps => ps[p]?) = none) :
    Raises (readPage (t, p) buffer) s (fun e u => e.Thrown ∧ u = s) := by
  cases ht : T t with
  | none => exact (getLatestPage_fails h ht).bind_left
  | some ps =>
    have hlen : ps.length ≤ p := by simpa [ht] using hp
    have hpos := List.length_pos_iff.mpr (h.pages t ps ht).ne_nil
    have hgt : (t, p).2 > ps.length - 1 := by
      change p > ps.length - 1
      omega
    refine .bind_eq (getLatestPage_ok h ht) ?_
    rw [if_pos hgt]
    exact raises_throw.mpr ⟨trivial, rfl⟩

theorem writePage_ok {buffer : List Byte} (h : Kept s T) (ht : T t = some ps) (hp : p < ps.length)
    (hb : buffer.length = s.config.pageSize) :
    Returns (writePage (t, p) buffer) s
      (fun r u => r = buffer ∧ Kept u (Function.update T t (some (ps.set p buffer))) ∧
        u.config = s.config) := by
  have hps := h.pages t ps ht
  obtain ⟨n, hn, hcontent⟩ := h.file ht hp
  obtain ⟨c, hseg, hc⟩ := getSegment_ok h ht hn
  have hle : ¬ (t, p).2 > ps.length - 1 := by
    have hpos := List.length_pos_iff.mpr hps.ne_nil
    change ¬ p > ps.length - 1
    omega
  have hkept := h.overwrite ht (List.getElem?_eq_getElem hp) hn
    (show 0 + buffer.length ≤ s.config.pageSize by omega) hc
  rw [pwrite_whole (by rw [hb, hps.size _ (List.getElem_mem hp)]), Nat.add_zero] at hkept
  have hdata : (padTo ((some buffer).getD []) s.config.pageSize).take s.config.pageSize = buffer := by
    rw [Option.getD_some, padTo_of_le hb.ge, ← hb, List.take_length]
  refine .bind_eq (getLatestPage_ok h ht) ?_
  rw [if_neg hle]
  refine .bind_eq hseg (.bind_eq get_ok ?_)
  simp only [pgnoToFileOffset_eq (hps.reach p hp)]
  refine .bind_eq (writeFile_ok (s := { s with filecache := c }) (hps.reach p hp).2) ?_
  rw [hdata]
  exact returns_pure.mpr ⟨padTo_of_le hb.ge, hkept, rfl⟩

theorem writePage_fails (buffer : List Byte) (h : Kept s T)
    (hp : (T t).bind (fun ps => ps[p]?) = none) :
    Raises (writePage (t, p) buffer) s (fun e u => e.Thrown ∧ u = s) := by
  cases ht : T t with
  | none => exact (getLatestPage_fails h ht).bind_left
  | some ps =>
    have hlen : ps.length ≤ p := by simpa [ht] using hp
    have hpos := List.length_pos_iff.mpr (h.pages t ps ht).ne_nil
    have hgt : (t, p).2 > ps.length - 1 := by
      change p > ps.length - 1
      omega
    refine .bind_eq (getLatestPage_ok h ht) ?_
    rw [if_pos hgt]
    exact raises_throw.mpr ⟨trivial, rfl⟩

/-- A page of zeros. -/
def zeros (config : EngineConfig) : List Byte := List.replicate config.pageSize 0

omit [Build] in
/-- The first place behind a table's pages is the end of its last file, or the start of a new one. -/
theorem Kept.last_file (h : Kept s T) (ht : T t = some ps) :
    (s.vfs.disk (t, ps.length / s.config.segmentSize)).getD [] =
      (chunk s.config.segmentSize ps (ps.length / s.config.segmentSize)).flatten ∧
    (chunk s.config.segmentSize ps (ps.length / s.config.segmentSize)).length =
      ps.length % s.config.segmentSize := by
  have hdiv := Nat.div_add_mod ps.length s.config.segmentSize
  rw [Nat.mul_comm] at hdiv
  have hmod := Nat.mod_lt ps.length h.seg_pos
  have hlen : (chunk s.config.segmentSize ps (ps.length / s.config.segmentSize)).length =
      ps.length % s.config.segmentSize := by
    rw [length_chunk]
    omega
  refine ⟨?_, hlen⟩
  simp only [h.disk, segments, ht, Option.bind_some, segmentOf]
  split_ifs with hlt
  · rfl
  · have hnil : chunk s.config.segmentSize ps (ps.length / s.config.segmentSize) = [] :=
      List.eq_nil_of_length_eq_zero (by omega)
    rw [hnil]
    rfl

omit [Build] in
theorem segmentOf_concat_of_ne {seg j : Nat} (hseg : 0 < seg) (hj : j ≠ ps.length / seg) :
    segmentOf seg (ps ++ [page]) j = segmentOf seg ps j := by
  have hiff : j * seg < (ps ++ [page]).length ↔ j * seg < ps.length := by
    rw [List.length_append, List.length_singleton, Nat.lt_succ_iff_lt_or_eq]
    refine ⟨?_, .inl⟩
    rintro (hlt | heq)
    · exact hlt
    · exact absurd (by rw [← heq, Nat.mul_div_cancel _ hseg]) hj
  simp only [segmentOf, hiff, chunk_concat_of_ne hj]

/-- `allocate_page` gives the next page, of zeros. -/
theorem allocatePage_ok (h : Kept s T) (ht : T t = some ps) (hreach : InReach s.config ps.length) :
    Returns (allocatePage t) s (fun r u => r = (t, ps.length) ∧
      Kept u (Function.update T t (some (ps ++ [zeros s.config]))) ∧ u.config = s.config) := by
  have hps := h.pages t ps ht
  have hpos := List.length_pos_iff.mpr hps.ne_nil
  have hdir : t ∈ s.vfs.dirs := (h.dirs t).mpr (by simp [ht])
  have hnext : (ps.length - 1 + 1) % 2 ^ 64 = ps.length := by
    rw [Nat.sub_add_cancel hpos, Nat.mod_eq_of_lt hreach.1]
  obtain ⟨n, fs, c, hopen, hc, hapart, hdirs, hn, hcontent, hdisk⟩ :=
    openSegment_ok (pgnoToSegid ps.length s.config.segmentSize) h.cached h.apart hdir
  obtain ⟨hlast, hlen⟩ := h.last_file ht
  have hoff := pgnoToFileOffset_eq hreach
  have hzero : (padTo ((none : Option (List Byte)).getD []) s.config.pageSize).take
      s.config.pageSize = zeros s.config := by
    simp [padTo, zeros]
  -- the write behind the last page of the file
  have hwrite : pwrite (fs.inodes n) (zeros s.config)
      (ps.length % s.config.segmentSize * s.config.pageSize) =
      (chunk s.config.segmentSize (ps ++ [zeros s.config])
        (ps.length / s.config.segmentSize)).flatten := by
    rw [chunk_concat_self h.seg_pos, ← hlen, ← pwrite_flatten_end hps.chunk_size, ← hlast]
    exact congrArg (fun content => pwrite content _ _) hcontent
  have hmeta : (metadataOf ps).next = metadataOf (ps ++ [zeros s.config]) := by
    simp only [TableMetadata.next, metadataOf, hnext, List.length_append, List.length_singleton,
      Nat.add_sub_cancel, Nat.mod_add_mod]
  have hassert : ps.length = (metadataOf ps).next.lastPgno := by
    rw [hmeta]
    simp [metadataOf]
  refine .bind_eq get_ok (.bind_eq (assert_ok (.inr (by simp [LocalFS.dirExists, hdir]))) ?_)
  refine .bind_eq (getLatestPage_ok h ht) (.bind_eq get_ok ?_)
  simp only [hnext]
  refine .bind_eq hopen (.bind_eq rfl ?_)
  refine .bind_eq (writeFile_ok (by rw [hoff]; exact hreach.2)) (.bind_eq get_ok ?_)
  simp only [h.counted, ht, Option.map_some, Option.getD_some, hoff]
  refine .bind_eq (show (set _ : StorageM PUnit) _ = .ok ⟨⟩ _ from rfl) ?_
  refine .bind_eq (assert_ok (.inr ?_)) (returns_pure.mpr ⟨rfl, ?_, rfl⟩)
  · simpa only [hnext, h.counted, ht, Option.map_some, Option.getD_some] using hassert
  refine h.replace (i := ps.length / s.config.segmentSize) rfl hc ⟨hapart.inj, hapart.lt⟩ ?_ ?_
    (hps.concat (by simp [zeros]) hreach) ?_ ?_
  · intro x
    change x ∈ fs.dirs ↔ _
    rw [hdirs]
    refine ⟨.inl, ?_⟩
    rintro (hx | rfl)
    · exact hx
    · exact hdir
  · intro x
    by_cases hx : x = t
    · subst hx
      simp [hmeta]
    · simp [hx]
  · have hlt : ps.length / s.config.segmentSize * s.config.segmentSize <
        (ps ++ [zeros s.config]).length := by
      rw [List.length_append, List.length_singleton]
      exact Nat.lt_succ_of_le (Nat.div_mul_le_self _ _)
    rw [segmentOf, if_pos hlt, ← hwrite, ← hzero]
    change (fs.written n _).disk = _
    rw [LocalFS.disk_written hapart hn, hdisk]
    exact Function.update_idem _ _ _
  · intro j hj
    rw [ht, Option.bind_some, segmentOf_concat_of_ne h.seg_pos hj]

omit [Build] in
theorem TableMetadata.length_toBytes (metadata : TableMetadata) :
    metadata.toBytes.length = TableMetadata.size := by
  simp [TableMetadata.toBytes, appendUint64, TableMetadata.size]

/-- Page 0 of a new table. -/
def firstPage (config : EngineConfig) : List Byte :=
  (padTo (TableMetadata.toBytes ⟨defaultTableMetadataPgno, defaultTableMetadataPgno + 1⟩)
    config.pageSize).take config.pageSize

omit [Build] in
theorem pagesOk_first {config : EngineConfig} : PagesOk config [firstPage config] where
  ne_nil := by simp
  size page hp := by
    rw [List.mem_singleton.mp hp, firstPage, List.length_take, length_padTo]
    omega
  reach p hp := by
    have h0 : p = 0 := by simpa using hp
    simp [InReach, h0]

theorem createTable_ok (h : Kept s T) (ht : T t = none) :
    Returns (createTable t) s
      (fun _ u => Kept u (Function.update T t (some [firstPage s.config])) ∧
        u.config = s.config) := by
  have hdir : ¬ s.vfs.dirExists t = true := by simp [LocalFS.dirExists, h.dirs, ht]
  generalize hs₁ : ({ s with vfs := { s.vfs with dirs := s.vfs.dirs ++ [t] } } : StorageEngine) = s₁
  have hmkdir : onVfs (LocalFS.mkdir t) s = .ok () s₁ := by
    rw [← hs₁]
    apply zoom_ok
    rw [LocalFS.mkdir, bind_ok get_ok, if_neg hdir]
    rfl
  have hzero : pgnoToSegid defaultTableMetadataPgno s.config.segmentSize = 0 := Nat.zero_div _
  obtain ⟨n, fs, c, hopen, hc, hapart, hdirs, hn, hcontent, hdisk⟩ :=
    openSegment_ok (s := s₁) 0 (by rw [← hs₁]; exact h.cached)
      (by rw [← hs₁]; exact ⟨h.apart.inj, h.apart.lt⟩) (show t ∈ s₁.vfs.dirs by rw [← hs₁]; simp)
  have hempty : s₁.vfs.disk (t, 0) = none := by
    rw [← hs₁]
    exact LocalFS.disk_none.mpr (h.no_file ht 0)
  rw [hempty, Option.getD_none] at hcontent hdisk
  refine .bind_eq get_ok ?_
  rw [if_neg hdir]
  refine .bind_eq hmkdir ?_
  rw [hzero]
  refine .bind_eq hopen ?_
  refine .bind_eq (show (modify _ : StorageM PUnit) _ = .ok ⟨⟩ _ from rfl) ?_
  subst hs₁
  refine (returns_of_eq (writeFile_ok (by decide))).mpr ⟨?_, rfl⟩
  refine h.replace (i := 0) rfl hc ⟨hapart.inj, hapart.lt⟩ ?_ ?_ pagesOk_first ?_ ?_
  · intro x
    change x ∈ fs.dirs ↔ _
    rw [hdirs, List.mem_append, List.mem_singleton]
  · intro x
    by_cases hx : x = t
    · subst hx
      simp [metadataOf, defaultTableMetadataPgno]
    · simp [hx]
  · have hnew : pwrite (fs.inodes n) (firstPage s.config) 0 = firstPage s.config := by
      rw [hcontent]
      cases hp : firstPage s.config with
      | nil => rfl
      | cons b bs => simp [pwrite, padTo]
    have hseg : segmentOf s.config.segmentSize [firstPage s.config] 0 =
        some (firstPage s.config) := by
      have htake : List.take s.config.segmentSize [firstPage s.config] = [firstPage s.config] :=
        List.take_of_length_le h.seg_pos
      simp [segmentOf, chunk, htake]
    rw [hseg, ← hnew]
    change (fs.written n _).disk = _
    rw [LocalFS.disk_written hapart hn, hdisk]
    exact Function.update_idem _ _ _
  · intro j hj
    have hlt : ¬ j * s.config.segmentSize < 1 := by
      have hpos : 0 < j * s.config.segmentSize := Nat.mul_pos (Nat.pos_of_ne_zero hj) h.seg_pos
      omega
    simp [segmentOf, ht, hlt]

theorem createTable_fails (h : Kept s T) (ht : T t = some ps) :
    Raises (createTable t) s (fun e u => e.Thrown ∧ u = s) := by
  have hdir : s.vfs.dirExists t = true := by simp [LocalFS.dirExists, h.dirs, ht]
  refine .bind_eq get_ok ?_
  rw [if_pos hdir]
  exact raises_throw.mpr ⟨trivial, rfl⟩

/-- Page 0 with the metadata written over its start. -/
def stamped (pages : List (List Byte)) (page : List Byte) : List Byte :=
  pwrite page (metadataOf pages).toBytes 0

theorem flushMetadata_ok (h : Kept s T) (ht : T t = some ps) (hp : ps[0]? = some page) :
    Returns (flushMetadata t) s
      (fun _ u => Kept u (Function.update T t (some (ps.set 0 (stamped ps page)))) ∧
        u.config = s.config) := by
  have hlt : 0 < ps.length := List.length_pos_iff.mpr (h.pages t ps ht).ne_nil
  have hzero : pgnoToSegid defaultTableMetadataPgno s.config.segmentSize = 0 := Nat.zero_div _
  have hoff : pgnoToFileOffset defaultTableMetadataPgno s.config.segmentSize s.config.pageSize = 0 := by
    simp [pgnoToFileOffset, pgnoToOffset, pgnoToRelPgno, defaultTableMetadataPgno]
  obtain ⟨n, hn, -⟩ := h.file ht hlt
  rw [Nat.zero_div] at hn
  obtain ⟨c, hopen, hc⟩ := openSegment_old h.cached hn
  have hdata : (padTo ((some (metadataOf ps).toBytes).getD []) TableMetadata.size).take
      TableMetadata.size = (metadataOf ps).toBytes := by
    rw [Option.getD_some, padTo_of_le (TableMetadata.length_toBytes _).ge,
      ← TableMetadata.length_toBytes (metadataOf ps), List.take_length]
  have hlen : 0 + (metadataOf ps).toBytes.length ≤ s.config.pageSize := by
    rw [TableMetadata.length_toBytes, Nat.zero_add]
    exact h.page_size
  have hkept := h.overwrite ht hp (n := n) (by rwa [Nat.zero_div]) hlen hc
  rw [Nat.zero_mod, Nat.zero_mul, Nat.add_zero] at hkept
  refine .bind_eq get_ok ?_
  simp only [h.counted, ht, Option.map_some, hzero, hoff]
  refine .bind_eq (assert_ok (.inr (by rw [LocalFS.fileExists, hzero, hn]; rfl))) ?_
  refine .bind_eq hopen (.bind_eq rfl ?_)
  refine (returns_of_eq (writeFile_ok (by decide))).mpr ⟨?_, rfl⟩
  rw [hdata]
  exact hkept

/-- Syncing opens the files, and no more. -/
theorem syncSegments_ok (h : Kept s T) {segs : List FileKey}
    (hsegs : ∀ seg ∈ segs, seg.1 = t ∧ (s.vfs.files.lookup seg).isSome = true) :
    ∃ c, segs.forM (syncSegment t) s = .ok ⟨⟩ { s with filecache := c } ∧
      Kept { s with filecache := c } T := by
  induction segs generalizing s with
  | nil => exact ⟨s.filecache, rfl, h⟩
  | cons seg segs ih =>
    obtain ⟨rfl, hsome⟩ := hsegs seg List.mem_cons_self
    obtain ⟨n, hn⟩ := Option.isSome_iff_exists.mp hsome
    obtain ⟨c, hopen, hc⟩ := openSegment_old h.cached
      (show s.vfs.files.lookup (seg.1, seg.2) = some n from hn)
    have hsync : syncSegment seg.1 seg s = .ok () { s with filecache := c } := by
      rw [syncSegment, bind_ok hopen]
      rfl
    obtain ⟨c', hrest, hkept⟩ := ih (h.of_filecache hc)
      (fun seg' hseg => hsegs seg' (List.mem_cons_of_mem _ hseg))
    refine ⟨c', ?_, hkept⟩
    exact (bind_ok hsync).trans hrest

omit [Build] in
theorem segmentsOf_mem {fs : LocalFS} {key : FileKey} (h : key ∈ fs.segmentsOf t) :
    key.1 = t ∧ (fs.files.lookup key).isSome = true := by
  rw [LocalFS.segmentsOf, List.mem_filter] at h
  exact ⟨by simpa using h.2, AList.lookup_isSome.mpr h.1⟩

theorem flushTable_ok (h : Kept s T) (ht : T t = some ps) (hp : ps[0]? = some page) :
    Returns (flushTable t) s
      (fun _ u => Kept u (Function.update T t (some (ps.set 0 (stamped ps page)))) ∧
        u.config = s.config) := by
  refine (flushMetadata_ok h ht hp).bind fun _ u ⟨hu, hconfig⟩ => ?_
  have hdir : u.vfs.dirExists t = true := by simp [LocalFS.dirExists, hu.dirs]
  have hls : onVfs (LocalFS.ls t) u = .ok (u.vfs.segmentsOf t) u := by
    apply zoom_ok
    rw [LocalFS.ls, bind_ok get_ok, if_pos hdir]
    rfl
  refine .bind_eq hls ?_
  obtain ⟨c, hsync, hkept⟩ := syncSegments_ok hu (fun _ => segmentsOf_mem)
  exact ⟨_, _, hsync, hkept, hconfig⟩

theorem flushTable_fails (h : Kept s T) (ht : T t = none) :
    Raises (flushTable t) s (fun e u => e.Thrown ∧ u = s) := by
  have hdir : ¬ s.vfs.dirExists t = true := by simp [LocalFS.dirExists, h.dirs, ht]
  have hmeta : flushMetadata t s = .ok () s := by
    rw [flushMetadata, bind_ok get_ok]
    simp only [h.counted, ht, Option.map_none]
    rfl
  have hls : onVfs (LocalFS.ls t) s = .error noSuchDirectory s := by
    apply zoom_error
    rw [LocalFS.ls, bind_ok get_ok, if_neg hdir]
    rfl
  exact .bind_eq hmeta ⟨_, _, bind_error hls, trivial, rfl⟩

end Kept

end StorageEngine

end Cpplite
