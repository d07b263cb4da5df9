import Cpplite.Storage.Reopen

/-!
What is left of a table that is dropped.

`delete_table` removes the files and their directory. The table's metadata stays in the map that
`shutdown` walks, and what the cache has open stays open: a file that has no name any more.
-/
namespace Cpplite

open Exec ByteFile Recency

namespace LocalFS

variable {fs fs' : LocalFS} {key : FileKey} {keys : List FileKey} {t : Nat}

/-- The same files without some of them. -/
structure Unlinked (fs fs' : LocalFS) (gone : FileKey → Prop) : Prop where
  basedir : fs'.basedir = fs.basedir
  dirs : fs'.dirs = fs.dirs
  inodes : fs'.inodes = fs.inodes
  nextInode : fs'.nextInode = fs.nextInode
  lost : ∀ key, gone key → fs'.files.lookup key = none
  kept : ∀ key, ¬ gone key → fs'.files.lookup key = fs.files.lookup key

theorem unlink_ok (h : fs.fileExists key = true) :
    unlink key fs = .ok () { fs with files := fs.files.erase key } := by
  rw [unlink, bind_ok get_ok, if_pos h]
  rfl

theorem Unlinked.refl : Unlinked fs fs (· ∈ ([] : List FileKey)) :=
  ⟨rfl, rfl, rfl, rfl, by simp, fun _ _ => rfl⟩

theorem Unlinked.cons (h : Unlinked { fs with files := fs.files.erase key } fs' (· ∈ keys)) :
    Unlinked fs fs' (· ∈ key :: keys) := by
  refine ⟨h.basedir, h.dirs, h.inodes, h.nextInode, fun key' hkey' => ?_, fun key' hkey' => ?_⟩
  · by_cases hin : key' ∈ keys
    · exact h.lost key' hin
    · obtain rfl := (List.mem_cons.mp hkey').resolve_right hin
      rw [h.kept key' hin, AList.lookup_erase]
  · rw [List.mem_cons, not_or] at hkey'
    rw [h.kept key' hkey'.2, AList.lookup_erase_ne hkey'.1]

theorem Unlinked.disk {gone : FileKey → Prop} (h : Unlinked fs fs' gone) :
    (∀ key, gone key → fs'.disk key = none) ∧ ∀ key, ¬ gone key → fs'.disk key = fs.disk key := by
  constructor
  · intro key hkey
    rw [LocalFS.disk, h.lost key hkey, Option.map_none]
  · intro key hkey
    rw [LocalFS.disk, h.kept key hkey, h.inodes, ← LocalFS.disk]

theorem Unlinked.apart {gone : FileKey → Prop} (h : Unlinked fs fs' gone) (hapart : fs.Apart) :
    fs'.Apart := by
  have hold : ∀ k n, fs'.files.lookup k = some n → fs.files.lookup k = some n := by
    intro k n hk
    by_cases hgone : gone k
    · rw [h.lost k hgone] at hk
      cases hk
    · rwa [← h.kept k hgone]
  refine ⟨fun k k' n hk hk' => hapart.inj k k' n (hold k n hk) (hold k' n hk'), fun k n hk => ?_⟩
  exact h.nextInode ▸ hapart.lt k n (hold k n hk)

theorem segmentsOf_eq_nil : fs.segmentsOf t = [] ↔ ∀ i, fs.files.lookup (t, i) = none := by
  rw [List.eq_nil_iff_forall_not_mem]
  constructor
  · intro h i
    rw [← LocalFS.disk_none, ← Option.not_isSome_iff_eq_none]
    exact fun hsome => h (t, i) (mem_segmentsOf.mpr ⟨rfl, hsome⟩)
  · rintro h ⟨x, i⟩ hmem
    obtain ⟨rfl, hsome⟩ := mem_segmentsOf.mp hmem
    rw [LocalFS.disk_none.mpr (h i)] at hsome
    cases hsome

end LocalFS

namespace StorageEngine

section Delete

variable [Build] {s u : StorageEngine} {t : Nat}

omit [Build] in
/-- Files that are there can be unlinked, one after the other. -/
theorem unlinkAll_ok {keys : List FileKey} (hnd : keys.Nodup)
    (h : ∀ key ∈ keys, s.vfs.fileExists key = true) :
    Returns (keys.forM fun key => onVfs (LocalFS.unlink key)) s
      (fun _ u => ∃ fs, u = { s with vfs := fs } ∧ s.vfs.Unlinked fs (· ∈ keys)) := by
  induction keys generalizing s with
  | nil => exact ⟨⟨⟩, s, rfl, s.vfs, rfl, .refl⟩
  | cons key keys ih =>
    rw [List.nodup_cons] at hnd
    have hunlink : onVfs (LocalFS.unlink key) s = .ok () { s with
        vfs := { s.vfs with files := s.vfs.files.erase key } } :=
      zoom_ok (LocalFS.unlink_ok (h key List.mem_cons_self))
    have hrest := ih (s := { s with vfs := { s.vfs with files := s.vfs.files.erase key } }) hnd.2
      fun key' hkey' => ?_
    · refine .bind_eq hunlink (hrest.mono ?_)
      rintro _ u ⟨fs, rfl, hfs⟩
      exact ⟨fs, rfl, hfs.cons⟩
    · have hne : key' ≠ key := by
        rintro rfl
        exact hnd.1 hkey'
      have hex := h key' (List.mem_cons_of_mem _ hkey')
      simpa only [LocalFS.fileExists, AList.lookup_erase_ne hne] using hex

/-- `truncate_table` empties the directory of a table, and does nothing else. -/
theorem truncateTable_ok (h : t ∈ s.vfs.dirs) : Returns (truncateTable t) s
    (fun _ u => ∃ fs, u = { s with vfs := fs } ∧ s.vfs.Unlinked fs (·.1 = t)) := by
  have hexists : ∀ key ∈ s.vfs.segmentsOf t, s.vfs.fileExists key = true := by
    intro key hkey
    simpa [LocalFS.fileExists, LocalFS.disk] using (LocalFS.mem_segmentsOf.mp hkey).2
  refine .bind_eq (ls_ok h) ((unlinkAll_ok LocalFS.nodup_segmentsOf hexists).bind ?_)
  rintro _ u ⟨fs, rfl, hfs⟩
  have hgone : s.vfs.Unlinked fs (·.1 = t) := by
    refine ⟨hfs.basedir, hfs.dirs, hfs.inodes, hfs.nextInode, fun key hkey => ?_, fun key hkey => ?_⟩
    · by_cases hin : key ∈ s.vfs.segmentsOf t
      · exact hfs.lost key hin
      · rw [hfs.kept key hin, ← LocalFS.disk_none, ← Option.not_isSome_iff_eq_none]
        exact fun hsome => hin (LocalFS.mem_segmentsOf.mpr ⟨hkey, hsome⟩)
    · exact hfs.kept key fun hin => hkey (LocalFS.mem_segmentsOf.mp hin).1
  have hempty : fs.segmentsOf t = [] := LocalFS.segmentsOf_eq_nil.mpr fun i => hgone.lost (t, i) rfl
  refine .bind_eq (ls_ok (s := { s with vfs := fs }) (hfs.dirs ▸ h)) ?_
  exact (returns_of_eq (assert_ok (.inr (by rw [hempty]; rfl)))).mpr ⟨fs, rfl, hgone⟩

/-- A directory that a table was removed from. -/
def removed (fs : LocalFS) (t : Nat) : LocalFS := { fs with dirs := fs.dirs.filter (fun dir => dir ≠ t) }

/-- `delete_table` removes the directory with it. -/
theorem deleteTable_ok (h : t ∈ s.vfs.dirs) : Returns (deleteTable t) s
    (fun _ u => ∃ fs, s.vfs.Unlinked fs (·.1 = t) ∧ u = { s with vfs := removed fs t }) := by
  refine (truncateTable_ok h).bind ?_
  rintro _ u ⟨fs, rfl, hfs⟩
  have hempty : fs.segmentsOf t = [] := LocalFS.segmentsOf_eq_nil.mpr fun i => hfs.lost (t, i) rfl
  have hrmdir : onVfs (LocalFS.rmdir t) { s with vfs := fs } = .ok () { s with vfs := removed fs t } := by
    apply zoom_ok
    rw [LocalFS.rmdir, bind_ok get_ok, if_pos ⟨by simp [LocalFS.dirExists, hfs.dirs, h], hempty⟩]
    rfl
  refine .bind_eq hrmdir (.bind_eq get_ok ?_)
  exact (returns_of_eq (assert_ok (.inr (by simp [LocalFS.dirExists, removed])))).mpr ⟨fs, hfs, rfl⟩

omit [Build] in
/-- What was cached of other tables is still there. -/
theorem cached_unlinked {fs : LocalFS} {c : FileCache LocalFile} (h : Cached c s.vfs)
    (hfs : s.vfs.Unlinked fs (·.1 = t)) (hnone : ∀ i, c.filecache (t, i) = none) : Cached c fs := by
  obtain ⟨m, hm, hfiles⟩ := h
  refine ⟨m, hm, fun e he => ?_⟩
  rw [hfs.kept e.1 ?_]
  · exact hfiles e he
  · intro heq
    have hmiss : m.find e.1 = none := by
      rw [← Option.not_isSome_iff_eq_none, ← hm.cached_iff, ← Prod.mk.eta (p := e.1), heq, hnone]
      simp
    exact lookup_eq_none.mp hmiss (List.mem_map_of_mem he)

/-- A file that nothing is cached for is opened anew, whatever else the cache has. -/
theorem openSegment_miss {m : LruMap LocalFile} {segId : Nat} (hm : FileCache.Holds s.filecache m)
    (hnone : s.filecache.filecache (t, segId) = none) (hf : s.vfs.files.lookup (t, segId) = none)
    (hd : t ∈ s.vfs.dirs) :
    ∃ c, openSegment t segId s = .ok (some s.vfs.nextInode)
      { s with vfs := s.vfs.created (t, segId), filecache := c } ∧
      (Cached s.filecache s.vfs → Cached c (s.vfs.created (t, segId))) := by
  by_cases hcached : Cached s.filecache s.vfs
  · obtain ⟨c, hopen, hc⟩ := openSegment_new hcached hf hd
    exact ⟨c, hopen, fun _ => hc⟩
  · have hmiss : m.find (t, segId) = none := by
      rw [← Option.not_isSome_iff_eq_none, ← hm.cached_iff, hnone]
      simp
    obtain ⟨c₁, hput, hc₁⟩ := hm.put hmiss s.vfs.nextInode
    obtain ⟨c₂, hget, -⟩ := hc₁.get (t, segId)
    rw [LruMap.get_of_find (LruMap.find_put hmiss)] at hget
    refine ⟨c₂, ?_, fun h => absurd h hcached⟩
    have hopen : onVfs (LocalFS.openFile (t, segId)) s =
        .ok s.vfs.nextInode { s with vfs := s.vfs.created (t, segId) } :=
      zoom_ok (LocalFS.openFile_new hf hd)
    have hput' : onFilecache (FileCache.put (t, segId) s.vfs.nextInode)
        { s with vfs := s.vfs.created (t, segId) } =
        .ok () { s with vfs := s.vfs.created (t, segId), filecache := c₁ } :=
      zoom_ok hput
    rw [openSegment, bind_ok (cached_ok _), hnone, if_neg (by simp), bind_ok hopen, bind_ok hput']
    exact zoom_ok hget

/-- The directory of a table that has just been created. -/
def made (fs : LocalFS) (config : EngineConfig) (t : Nat) : LocalFS :=
  (({ fs with dirs := fs.dirs ++ [t] }).created (t, 0)).written fs.nextInode
    (pwrite [] (firstPage config) 0)

theorem createTable_made {m : LruMap LocalFile} (hm : FileCache.Holds s.filecache m)
    (hnone : s.filecache.filecache (t, 0) = none) (hf : s.vfs.files.lookup (t, 0) = none)
    (hd : t ∉ s.vfs.dirs) :
    ∃ c, createTable t s = .ok () { s with
      vfs := made s.vfs s.config t
      filecache := c
      tableMetadata := s.tableMetadata.insert t ⟨0, 1⟩ } ∧
      (Cached s.filecache s.vfs → Cached c (made s.vfs s.config t)) := by
  have hdir : ¬ s.vfs.dirExists t = true := by simp [LocalFS.dirExists, hd]
  generalize hs₁ : ({ s with vfs := { s.vfs with dirs := s.vfs.dirs ++ [t] } } : StorageEngine) = s₁
  have hmkdir : onVfs (LocalFS.mkdir t) s = .ok () s₁ := by
    rw [← hs₁]
    apply zoom_ok
    rw [LocalFS.mkdir, bind_ok get_ok, if_neg hdir]
    rfl
  have hzero : pgnoToSegid defaultTableMetadataPgno s.config.segmentSize = 0 := Nat.zero_div _
  subst hs₁
  obtain ⟨c, hopen, hc⟩ := openSegment_miss
    (s := { s with vfs := { s.vfs with dirs := s.vfs.dirs ++ [t] } }) hm hnone hf (by simp)
  refine ⟨c, ?_, hc⟩
  rw [createTable, bind_ok get_ok, if_neg hdir, bind_ok hmkdir, hzero, bind_ok hopen]
  refine (bind_ok (show (modify _ : StorageM PUnit) _ = .ok ⟨⟩ _ from rfl)).trans ?_
  refine (writeFile_ok (by decide)).trans ?_
  simp [made, LocalFS.created, firstPage, defaultTableMetadataPgno]

variable {T : Tables} {fs : LocalFS}

omit [Build] in
/-- Without its metadata and what is open, a table is gone. -/
theorem kept_removed (h : Kept s T) (hfs : s.vfs.Unlinked fs (·.1 = t)) :
    Kept { s with vfs := removed fs t, filecache := {}, tableMetadata := s.tableMetadata.erase t }
      (Function.update T t none) := by
  obtain ⟨hinj, hlt⟩ := hfs.apart h.apart
  refine ⟨h.seg_pos, h.page_size, ⟨{}, FileCache.holds_empty, by simp⟩, ⟨hinj, hlt⟩, fun x => ?_, ?_,
    fun x => ?_, fun x ps hps => ?_⟩
  · by_cases hx : x = t
    · simp [removed, hx]
    · simp [removed, hx, hfs.dirs, h.dirs]
  · funext ⟨x, i⟩
    by_cases hx : x = t
    · subst hx
      exact (hfs.disk.1 (x, i) rfl).trans (by simp [segments])
    · refine (hfs.disk.2 (x, i) hx).trans ?_
      rw [h.disk]
      simp [segments, hx]
  · by_cases hx : x = t
    · subst hx
      simp
    · simp [hx, h.counted]
  · by_cases hx : x = t
    · subst hx
      simp at hps
    · exact h.pages x ps (by simpa [hx] using hps)

/-- The directory that `create_table` makes after that is in order, whatever the cache has. -/
theorem kept_made (h : Kept s T) (hfs : s.vfs.Unlinked fs (·.1 = t)) {c : FileCache LocalFile}
    (hc : Cached c (made (removed fs t) s.config t)) :
    Kept { s with
      vfs := made (removed fs t) s.config t
      filecache := c
      tableMetadata := s.tableMetadata.insert t ⟨0, 1⟩ }
      (Function.update T t (some [firstPage s.config])) := by
  have hgone := kept_removed h hfs
  obtain ⟨_, v, hv, hkept, -⟩ := createTable_ok (t := t) hgone (by simp)
  obtain ⟨c', hmade, -⟩ := createTable_made (t := t) FileCache.holds_empty rfl
    (hgone.no_file (by simp) 0) (hgone.no_dir (by simp))
  rw [hmade] at hv
  cases hv
  rw [Function.update_idem] at hkept
  refine ⟨hkept.seg_pos, hkept.page_size, hc, hkept.apart, hkept.dirs, hkept.disk, fun x => ?_, hkept.pages⟩
  rw [← hkept.counted]
  by_cases hx : x = t
  · subst hx
    simp
  · simp [hx]

/-- With its first file still open, the table gets no file. -/
theorem createTable_stale {m : LruMap LocalFile} (hm : FileCache.Holds s.filecache m)
    (hsome : s.filecache.filecache (t, 0) ≠ none) (hd : t ∉ s.vfs.dirs) :
    Returns (createTable t) s (fun _ u => u.config = s.config ∧ t ∈ u.vfs.dirs ∧
      u.vfs.files = s.vfs.files) := by
  have hdir : ¬ s.vfs.dirExists t = true := by simp [LocalFS.dirExists, hd]
  have hcached : (s.filecache.filecache (t, 0)).isSome = true := Option.isSome_iff_ne_none.mpr hsome
  obtain ⟨file, hfind⟩ := Option.isSome_iff_exists.mp ((hm.cached_iff (t, 0)).symm.trans hcached)
  obtain ⟨c, hget, -⟩ := hm.get (t, 0)
  rw [LruMap.get_of_find hfind] at hget
  generalize hs₁ : ({ s with vfs := { s.vfs with dirs := s.vfs.dirs ++ [t] } } : StorageEngine) = s₁
  have hmkdir : onVfs (LocalFS.mkdir t) s = .ok () s₁ := by
    rw [← hs₁]
    apply zoom_ok
    rw [LocalFS.mkdir, bind_ok get_ok, if_neg hdir]
    rfl
  have hzero : pgnoToSegid defaultTableMetadataPgno s.config.segmentSize = 0 := Nat.zero_div _
  have hopen : openSegment t 0 s₁ = .ok (some file) { s₁ with filecache := c } := by
    rw [← hs₁, openSegment, bind_ok (cached_ok _), if_pos hcached]
    exact zoom_ok hget
  refine .bind_eq get_ok ?_
  rw [if_neg hdir]
  refine .bind_eq hmkdir ?_
  rw [hzero]
  refine .bind_eq hopen (.bind_eq (show (modify _ : StorageM PUnit) _ = .ok ⟨⟩ _ from rfl) ?_)
  refine (returns_of_eq (writeFile_ok (by decide))).mpr ?_
  rw [← hs₁]
  exact ⟨rfl, by simp [LocalFS.written], rfl⟩

/-- A directory without files stops the engine. -/
theorem initTable_empty (hdir : t ∈ s.vfs.dirs) (hempty : s.vfs.segmentsOf t = []) :
    Raises (initTable t) s (fun _ _ => True) := by
  refine .bind_eq (ls_ok hdir) ?_
  rw [hempty]
  by_cases hb : Build.ndebug = true
  · exact .bind_eq (assert_ok (.inl hb)) (raises_throw.mpr trivial)
  · exact Raises.bind_left ⟨_, _, assert_fails (by simpa using hb) (by simp), trivial⟩

theorem leaves_initTable (x : Nat) : Leaves (·.vfs) (initTable x) := by
  have hls : Leaves id (LocalFS.ls x) := leaves_get.bind fun _ => leaves_pure.ite leaves_throw
  have hsize : ∀ key, Leaves id (LocalFS.filesize key) := by
    intro key
    refine leaves_get.bind fun fs => ?_
    cases fs.files.lookup key with
    | none => exact leaves_throw
    | some inode => exact leaves_pure
  refine (hls.zoom fun _ => rfl).bind fun segments => leaves_assert.bind fun _ => ?_
  cases segments.getLast? with
  | none => exact leaves_throw
  | some last =>
    exact ((hsize last).zoom fun _ => rfl).bind fun size => leaves_get.bind fun _ =>
      leaves_modify fun _ => rfl

theorem openAt_fails {config : EngineConfig} (hdir : t ∈ fs.dirs) (hempty : fs.segmentsOf t = []) :
    ¬ openAt fs config = .ok () u := by
  intro hopen
  obtain ⟨control, catalogKey, hcontrol⟩ := initControl_ok ⟨fs, config, (0, 0), ∅, {}⟩
  have hloop : Raises (fs.dirs.forM initTable)
      (⟨{ fs with control := control }, config, catalogKey, ∅, {}⟩ : StorageEngine) (fun _ _ => True) :=
    .forM (I := fun s => s.vfs = { fs with control := control }) (fun x _ => ?_) (fun s hs => ?_) hdir rfl
  · obtain ⟨e, v, hv, -⟩ := hloop
    have hopen' : openAt fs config = _ := (bind_ok hcontrol).trans hv
    rw [hopen] at hopen'
    cases hopen'
  · intro s hs
    exact (leaves_initTable x s).trans hs
  · refine initTable_empty (by rw [hs]; exact hdir) ?_
    rw [hs]
    exact hempty

theorem countable_first (h : Kept s T) (ht : T t = some [firstPage s.config])
    (hfs : fs.Relisted s.vfs) : Countable fs s.config t 1 := by
  rw [Countable]
  split_ifs
  · have hperm := segmentsOf_perm (hfs.disk.trans h.disk) ht h.seg_pos Nat.one_pos
    have hone : fs.segmentsOf t = [(t, 0)] := List.perm_singleton.mp (by simpa using hperm)
    simp [hone]
  · exact h.seg_pos

/-- A table that is deleted and created again is one that was never there, if none of its files is
open. If its first file is, the new one has no file at all, and its directory cannot be opened. -/
theorem recreated (h : Kept s T) (ht : T t ≠ none) : ∃ u v,
    deleteTable t s = .ok () u ∧ createTable t u = .ok () v ∧
    ((∀ i, s.filecache.filecache (t, i) = none) →
      v.ServesFrom (Function.update (Tables.user T) t (some []))) ∧
    ∀ fs : LocalFS, fs.Relisted v.vfs →
      (Resumes fs s.config (Function.update (Tables.user T) t (some [])) ↔
        s.filecache.filecache (t, 0) = none ∧ ∀ x pages, x ≠ t → Tables.user T x = some pages →
          Countable fs s.config x (pages.length + 1)) := by
  obtain ⟨_, u, hdelete, fs₁, hfs₁, rfl⟩ := deleteTable_ok ((h.dirs t).mpr ht)
  obtain ⟨m, hm, -⟩ := h.cached
  have hdir : t ∉ (removed fs₁ t).dirs := by simp [removed]
  have hfile : ∀ i, (removed fs₁ t).files.lookup (t, i) = none := fun i => hfs₁.lost (t, i) rfl
  have huser : Function.update (Tables.user T) t (some []) =
      Tables.user (Function.update T t (some [firstPage s.config])) := by
    rw [user_update, List.tail_cons]
  refine ⟨{ s with vfs := removed fs₁ t }, ?_⟩
  by_cases hnone : s.filecache.filecache (t, 0) = none
  · obtain ⟨c, hcreate, hc⟩ := createTable_made
      (s := { s with vfs := removed fs₁ t }) hm hnone (hfile 0) hdir
    refine ⟨_, hdelete, hcreate, fun hall => ?_, fun fs hfs => ?_⟩
    · have hcached : Cached s.filecache fs₁ := cached_unlinked h.cached hfs₁ hall
      rw [huser]
      exact (kept_made h hfs₁ (hc hcached)).servesFrom
    · have hkept := kept_made h hfs₁ (c := {}) ⟨{}, FileCache.holds_empty, by simp⟩
      have hfirst := countable_first hkept (Function.update_self ..) hfs
      have hiff := resumes_iff hkept hfs
      rw [← huser] at hiff
      refine hiff.trans ⟨fun hall => ⟨hnone, fun x pages hx hV => ?_⟩, fun ⟨_, hall⟩ x pages hV => ?_⟩
      · exact hall x pages (by rw [Function.update_of_ne hx, hV])
      · by_cases hx : x = t
        · subst hx
          rw [Function.update_self, Option.some_inj] at hV
          rw [← hV]
          exact hfirst
        · exact hall x pages hx (by rwa [Function.update_of_ne hx] at hV)
  · obtain ⟨_, v, hcreate, hconfig, hin, hfiles⟩ :=
      createTable_stale (s := { s with vfs := removed fs₁ t }) hm hnone hdir
    refine ⟨v, hdelete, hcreate, fun hall => absurd (hall 0) hnone, fun fs hfs => ?_⟩
    refine iff_of_false ?_ fun hright => hnone hright.1
    rintro ⟨w, hopen, -⟩
    refine openAt_fails ((hfs.dirs t).mpr hin) (LocalFS.segmentsOf_eq_nil.mpr fun i => ?_) hopen
    rw [hfs.files, hfiles]
    exact hfile i

omit [Build] in
/-- A table of one page. -/
theorem recreated_table : ∃ (_ : Build) (s u v : StorageEngine),
    deleteTable 1 s = .ok () u ∧ createTable 1 u = .ok () v ∧
    ((∀ i, s.filecache.filecache (1, i) = none) →
      v.ServesFrom (Function.update (fun _ => none) 1 (some []))) := by
  let _ : Build := ⟨false⟩
  obtain ⟨s, first, hkept, -⟩ := exists_kept (show 1 ≤ ({} : EngineConfig).segmentSize by decide)
    (by decide) 1 0 (by unfold InReach; decide)
  obtain ⟨u, v, hdelete, hcreate, hserves, -⟩ := recreated (t := 1) hkept (by simp)
  refine ⟨⟨false⟩, s, u, v, hdelete, hcreate, fun hall => ?_⟩
  have huser := hserves hall
  rwa [user_update, Function.update_idem] at huser

end Delete

/-! ### Closing after a table was deleted -/

/-- What the engine knows of the table has outlived its directory. -/
def Orphaned (t : Nat) (s : StorageEngine) : Prop :=
  s.tableMetadata.lookup t ≠ none ∧ t ∉ s.vfs.dirs

section Orphans

variable {t : Nat} {α : Type}

/-- Nobody makes the directory. -/
theorem keeps_onVfs {x : LocalFSM α} (h : Keeps (t ∉ ·.dirs) x) : Keeps (Orphaned t) (onVfs x) := by
  intro s hs
  have hdirs := h s.vfs hs.2
  cases hx : x s.vfs with
  | ok a fs =>
    simp only [Exec.after, hx] at hdirs
    simpa only [Exec.after, onVfs, zoom_ok hx] using ⟨hs.1, hdirs⟩
  | error e fs =>
    simp only [Exec.after, hx] at hdirs
    simpa only [Exec.after, onVfs, zoom_error hx] using ⟨hs.1, hdirs⟩

theorem keeps_onFilecache (x : FileCacheM LocalFile α) : Keeps (Orphaned t) (onFilecache x) := by
  intro s hs
  cases hx : x s.filecache with
  | ok a c =>
    rw [Exec.after, onFilecache, zoom_ok hx]
    exact hs
  | error e c =>
    rw [Exec.after, onFilecache, zoom_error hx]
    exact hs

theorem keeps_get : Keeps (Orphaned t) (get : StorageM StorageEngine) := fun _ h => h

theorem keeps_openFile (key : FileKey) : Keeps (t ∉ ·.dirs) (LocalFS.openFile key) := by
  intro fs hfs
  cases hf : fs.files.lookup key with
  | some n => simpa only [Exec.after, LocalFS.openFile_old hf] using hfs
  | none =>
    by_cases hd : key.1 ∈ fs.dirs
    · rw [Exec.after, LocalFS.openFile_new hf hd]
      exact hfs
    · obtain ⟨e, u, hu, -, rfl⟩ := LocalFS.openFile_fails hf hd
      simpa only [Exec.after, hu] using hfs

theorem keeps_read (file : LocalFile) (buffer : List Byte) (len offset : Nat) :
    Keeps (t ∉ ·.dirs) (file.read buffer len offset) := by
  refine Keeps.bind (fun _ h => h) fun fs => ?_
  exact .ite leaves_pure.keeps leaves_throw.keeps

theorem keeps_write (file : LocalFile) (buffer : Option (List Byte)) (len offset : Nat) :
    Keeps (t ∉ ·.dirs) (file.write buffer len offset) :=
  .ite (keeps_modify fun _ h => h) leaves_throw.keeps

theorem keeps_deref (file : Option LocalFile) : Keeps (Orphaned t) (deref file) := by
  cases file with
  | some file => exact leaves_pure.keeps
  | none => exact leaves_throw.keeps

theorem keeps_decode (x : ReadM α) : Keeps (Orphaned t) (decode x) := by
  unfold decode
  cases x 0 with
  | ok a offset => exact leaves_pure.keeps
  | error e offset => exact leaves_throw.keeps

theorem Orphaned.insert {s : StorageEngine} (h : Orphaned t s) (x : Nat) (metadata : TableMetadata) :
    Orphaned t { s with tableMetadata := s.tableMetadata.insert x metadata } := by
  refine ⟨?_, h.2⟩
  by_cases hx : t = x
  · subst hx
    simp
  · rw [AList.lookup_insert_ne hx]
    exact h.1

theorem keeps_unlink (key : FileKey) : Keeps (t ∉ ·.dirs) (LocalFS.unlink key) := by
  intro fs hfs
  by_cases hex : fs.fileExists key = true
  · simpa only [Exec.after, LocalFS.unlink_ok hex] using hfs
  · rw [LocalFS.unlink, Exec.after, bind_ok get_ok, if_neg hex]
    exact hfs

theorem keeps_ls (x : Nat) : Keeps (t ∉ ·.dirs) (LocalFS.ls x) := by
  refine Keeps.bind (fun _ h => h) fun fs => ?_
  exact .ite leaves_pure.keeps leaves_throw.keeps

variable [Build]

theorem keeps_openSegment (x segId : Nat) : Keeps (Orphaned t) (openSegment x segId) := by
  refine (keeps_onFilecache _).bind fun cached => .ite (keeps_onFilecache _) ?_
  exact (keeps_onVfs (keeps_openFile _)).bind fun file =>
    (keeps_onFilecache _).bind fun _ => keeps_onFilecache _

theorem keeps_getSegment (x pgno : Nat) : Keeps (Orphaned t) (getSegment x pgno) := by
  refine keeps_get.bind fun s => leaves_assert.keeps.bind fun _ => (keeps_openSegment _ _).bind fun seg => ?_
  cases seg with
  | some seg => exact leaves_pure.keeps
  | none => exact leaves_throw.keeps

theorem keeps_getLatestPage (x : Nat) : Keeps (Orphaned t) (getLatestPage x) := by
  refine keeps_get.bind fun s => ?_
  cases s.tableMetadata.lookup x with
  | some metadata => exact leaves_pure.keeps
  | none =>
    refine (keeps_openSegment _ _).bind fun seg => leaves_assert.keeps.bind fun _ => ?_
    refine (keeps_deref _).bind fun file => (keeps_onVfs (keeps_read _ _ _ _)).bind fun buffer => ?_
    exact (keeps_decode _).bind fun r => leaves_assert.keeps.bind fun _ =>
      (keeps_modify fun _ h => h.insert _ _).bind fun _ => leaves_pure.keeps

theorem keeps_readPage (pgkey : PageKey) (buffer : List Byte) :
    Keeps (Orphaned t) (readPage pgkey buffer) :=
  (keeps_getLatestPage _).bind fun _ => .ite leaves_throw.keeps
    ((keeps_getSegment _ _).bind fun _ => keeps_get.bind fun _ => keeps_onVfs (keeps_read _ _ _ _))

theorem keeps_writePage (pgkey : PageKey) (buffer : List Byte) :
    Keeps (Orphaned t) (writePage pgkey buffer) :=
  (keeps_getLatestPage _).bind fun _ => .ite leaves_throw.keeps
    ((keeps_getSegment _ _).bind fun _ => keeps_get.bind fun _ =>
      (keeps_onVfs (keeps_write _ _ _ _)).bind fun _ => leaves_pure.keeps)

theorem keeps_allocatePage (x : Nat) : Keeps (Orphaned t) (allocatePage x) := by
  refine keeps_get.bind fun _ => leaves_assert.keeps.bind fun _ => (keeps_getLatestPage _).bind fun _ => ?_
  refine keeps_get.bind fun _ => (keeps_openSegment _ _).bind fun _ => (keeps_deref _).bind fun _ => ?_
  refine (keeps_onVfs (keeps_write _ _ _ _)).bind fun _ s hs => ?_
  exact (leaves_assert.keeps.bind fun _ => leaves_pure.keeps) _ (hs.insert x _)

theorem keeps_createTable {x : Nat} (hx : x ≠ t) : Keeps (Orphaned t) (createTable x) := by
  have hmkdir : Keeps (t ∉ ·.dirs) (LocalFS.mkdir x) := by
    intro fs hfs
    by_cases hdir : fs.dirExists x = true
    · rw [LocalFS.mkdir, Exec.after, bind_ok get_ok, if_pos hdir]
      exact hfs
    · rw [LocalFS.mkdir, Exec.after, bind_ok get_ok, if_neg hdir]
      change t ∉ fs.dirs ++ [x]
      simp [hfs, Ne.symm hx]
  refine keeps_get.bind fun s => .ite leaves_throw.keeps ?_
  refine (keeps_onVfs hmkdir).bind fun _ => (keeps_openSegment _ _).bind fun seg => ?_
  cases seg with
  | none => exact leaves_throw.keeps
  | some seg =>
    exact (keeps_modify fun _ h => h.insert _ _).bind fun _ => keeps_onVfs (keeps_write _ _ _ _)

omit [Build] in
theorem keeps_forM {γ : Type} {g : γ → StorageM PUnit} (h : ∀ c, Keeps (Orphaned t) (g c)) (l : List γ) :
    Keeps (Orphaned t) (l.forM g) := by
  induction l with
  | nil => exact leaves_pure.keeps
  | cons c l ih => exact (h c).bind fun _ => ih

theorem keeps_flushMetadata (x : Nat) : Keeps (Orphaned t) (flushMetadata x) := by
  refine keeps_get.bind fun s => ?_
  cases s.tableMetadata.lookup x with
  | none => exact leaves_pure.keeps
  | some metadata =>
    refine leaves_assert.keeps.bind fun _ => (keeps_openSegment _ _).bind fun _ => ?_
    exact (keeps_deref _).bind fun _ => keeps_onVfs (keeps_write _ _ _ _)

theorem keeps_flushTable (x : Nat) : Keeps (Orphaned t) (flushTable x) := by
  refine (keeps_flushMetadata x).bind fun _ => (keeps_onVfs (keeps_ls x)).bind fun l => keeps_forM (fun seg => ?_) l
  exact (keeps_openSegment _ _).bind fun _ => (keeps_deref _).bind fun _ =>
    keeps_onVfs leaves_pure.keeps

theorem keeps_truncateTable (x : Nat) : Keeps (Orphaned t) (truncateTable x) := by
  refine (keeps_onVfs (keeps_ls x)).bind fun l => (keeps_forM (fun seg => ?_) l).bind fun _ => ?_
  · exact keeps_onVfs (keeps_unlink seg)
  · exact (keeps_onVfs (keeps_ls x)).bind fun _ => leaves_assert.keeps

theorem keeps_deleteTable (x : Nat) : Keeps (Orphaned t) (deleteTable x) := by
  have hrmdir : Keeps (t ∉ ·.dirs) (LocalFS.rmdir x) := by
    intro fs hfs
    by_cases hdir : fs.dirExists x = true ∧ fs.segmentsOf x = []
    · rw [LocalFS.rmdir, Exec.after, bind_ok get_ok, if_pos hdir]
      exact fun hmem => hfs (List.mem_of_mem_filter hmem)
    · rw [LocalFS.rmdir, Exec.after, bind_ok get_ok, if_neg hdir]
      exact hfs
  exact (keeps_truncateTable x).bind fun _ => (keeps_onVfs hrmdir).bind fun _ =>
    keeps_get.bind fun _ => leaves_assert.keeps

/-- The table cannot be flushed. -/
theorem flushTable_orphaned {s : StorageEngine} (h : Orphaned t s) :
    Raises (flushTable t) s (fun _ _ => True) := by
  cases hmeta : flushMetadata t s with
  | error e u => exact ⟨e, u, bind_error hmeta, trivial⟩
  | ok a u =>
    have hu := keeps_flushMetadata t s h
    simp only [Exec.after, hmeta] at hu
    refine .bind_eq hmeta (Raises.bind_left ⟨noSuchDirectory, u, ?_, trivial⟩)
    apply zoom_error
    rw [LocalFS.ls, bind_ok get_ok, if_neg (by simpa [LocalFS.dirExists] using hu.2)]
    rfl

theorem shutdown_orphaned {s : StorageEngine} (h : Orphaned t s) :
    Raises shutdown s (fun _ _ => True) := by
  refine .bind_eq get_ok (.forM (fun x _ => keeps_flushTable x) (fun u hu => flushTable_orphaned hu) ?_ h)
  rw [List.mem_insertionSort, ← AList.mem_keys, ← AList.lookup_isSome]
  exact Option.isSome_iff_ne_none.mpr h.1

/-- What is called after a table was deleted. -/
inductive DropOp where
  | serve (op : Op)
  | truncateTable (tblId : Nat)
  | deleteTable (tblId : Nat)

/-- However the call ends. -/
def DropOp.next : DropOp → StorageEngine → StorageEngine
  | .serve op, s => (op.run s).2
  | .truncateTable tblId, s => after (StorageEngine.truncateTable tblId) s
  | .deleteTable tblId, s => after (StorageEngine.deleteTable tblId) s

def DropOp.nextAll (ops : List DropOp) (s : StorageEngine) : StorageEngine :=
  ops.foldl (fun s op => op.next s) s

omit [Build] in
theorem answer_after (x : StorageM α) (got : α → Answer) (s : StorageEngine) :
    (answer x got s).2 = after x s := by
  unfold answer after
  cases x s with
  | ok a t => rfl
  | error e t => cases e <;> rfl

theorem orphaned_next {s : StorageEngine} {op : DropOp} (h : Orphaned t s)
    (hop : op ≠ .serve (.createTable t)) : Orphaned t (op.next s) := by
  cases op with
  | truncateTable x => exact keeps_truncateTable x s h
  | deleteTable x => exact keeps_deleteTable x s h
  | serve op =>
    rw [DropOp.next]
    cases op <;> rw [Op.run, answer_after]
    case createTable x =>
      exact keeps_createTable (fun hx => hop (by rw [hx])) s h
    case allocatePage x => exact keeps_allocatePage x s h
    case writePage pgkey buffer => exact keeps_writePage pgkey buffer s h
    case readPage pgkey => exact keeps_readPage pgkey [] s h
    case flushTable x => exact keeps_flushTable x s h

theorem orphaned_nextAll {s : StorageEngine} {ops : List DropOp} (h : Orphaned t s)
    (hops : ∀ op ∈ ops, op ≠ .serve (.createTable t)) : Orphaned t (DropOp.nextAll ops s) := by
  induction ops generalizing s with
  | nil => exact h
  | cons op ops ih =>
    exact ih (orphaned_next h (hops op List.mem_cons_self))
      fun op' hop' => hops op' (List.mem_cons_of_mem _ hop')

/-- After a table was deleted, `shutdown` never returns again, unless the table is created again. -/
theorem deleted_never_shuts_down {s u w : StorageEngine} {T : Tables} {ops : List DropOp} (h : Kept s T)
    (ht : T t ≠ none) (hdelete : deleteTable t s = .ok () u)
    (hops : ∀ op ∈ ops, op ≠ .serve (.createTable t)) :
    ¬ shutdown (DropOp.nextAll ops u) = .ok () w := by
  obtain ⟨_, v, hv, fs, hfs, rfl⟩ := deleteTable_ok ((h.dirs t).mpr ht)
  rw [hdelete] at hv
  cases hv
  have horphaned : Orphaned t { s with vfs := removed fs t } := by
    refine ⟨?_, by simp [removed]⟩
    rw [h.counted]
    simpa using ht
  obtain ⟨e, x, hx, -⟩ := shutdown_orphaned (orphaned_nextAll horphaned hops)
  rw [hx]
  exact nofun

omit [Build] in
theorem deleted_never_shuts_down_flush : ∃ (_ : Build) (s u : StorageEngine),
    deleteTable 1 s = .ok () u ∧
    ∀ w, ¬ shutdown (DropOp.nextAll [.serve (.createTable 2), .serve (.flushTable 2)] u) = .ok () w := by
  let _ : Build := ⟨false⟩
  obtain ⟨s, first, hkept, -⟩ := exists_kept (show 1 ≤ ({} : EngineConfig).segmentSize by decide)
    (by decide) 1 0 (by unfold InReach; decide)
  obtain ⟨_, u, hdelete, -⟩ := deleteTable_ok (s := s) ((hkept.dirs 1).mpr (by simp))
  exact ⟨⟨false⟩, s, u, hdelete, fun w =>
    deleted_never_shuts_down (t := 1) hkept (by simp) hdelete (by simp)⟩

end Orphans

end StorageEngine

end Cpplite
