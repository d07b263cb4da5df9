import Cpplite.BufferPool.Contents
import Cpplite.Storage.Reopen

/-!
A pool in one process after another. A process that has dropped its guards can flush its pages and
shut its engine down, and as long as the next one counts the files right, its pool shows what was
last written, in whichever process that was.
-/
namespace Cpplite

open Exec

/-! ### Writing everything back -/

namespace BufferPoolManager

variable {E : Type} {s : BufferPoolManager E} {l : List (PageKey × Nat)} {e : PageKey × Nat}

/-- The frames can be written back, each to a page that the storage has. -/
structure Writable (s : BufferPoolManager E) (l : List (PageKey × Nat)) : Prop where
  size : s.storageEngine.config.pageSize = pageSize
  pages : ∃ T, StorageEngine.Kept s.storageEngine T ∧ ∀ e ∈ l, ∃ page, T.page e.1 = some page
  bound : ∀ e ∈ l, e.2 < s.numFrames
  free : ∀ e ∈ l, (s.shared.frames e.2).Free .write
  length : ∀ e ∈ l, (s.shared.frames e.2).data.length = pageSize

variable [Build]

/-- One of them is, and the others can be still. -/
theorem Writable.one (h : Writable s (e :: l)) :
    ∃ t, flushFrame e.1 e.2 s = .ok () t ∧ Writable t l := by
  obtain ⟨T, hkept, hpages⟩ := h.pages
  have hmem : e ∈ e :: l := List.mem_cons_self
  obtain ⟨page, hpage⟩ := hpages e hmem
  have hlen := (h.length e hmem).trans h.size.symm
  obtain ⟨buffer, eng, hw⟩ := hkept.writable hpage hlen
  obtain ⟨T', hkept', hconfig, hself, hother⟩ := hkept.writes hpage hlen hw
  refine ⟨s.flushed e.2 eng, flushFrame_ok (h.bound e hmem) (h.free e hmem) hw, ?_, ⟨T', hkept', ?_⟩,
    fun x hx => h.bound x (List.mem_cons_of_mem e hx), fun x hx => ?_, fun x hx => ?_⟩
  · exact (congrArg EngineConfig.pageSize hconfig).trans h.size
  · intro x hx
    by_cases hkey : x.1 = e.1
    · exact ⟨_, hkey ▸ hself⟩
    · rw [hother x.1 hkey]
      exact hpages x (List.mem_cons_of_mem e hx)
  · have hfree := h.free x (List.mem_cons_of_mem e hx)
    by_cases hf : x.2 = e.2
    · simpa [flushed, Shared.setFrame, hf, FrameHeader.Free] using hf ▸ hfree
    · simpa [flushed, Shared.setFrame, hf] using hfree
  · have hlength := h.length x (List.mem_cons_of_mem e hx)
    by_cases hf : x.2 = e.2
    · simpa [flushed, Shared.setFrame, hf] using hf ▸ hlength
    · simpa [flushed, Shared.setFrame, hf] using hlength

theorem Writable.all (h : Writable s l) :
    ∃ t, l.forM (fun e => flushFrame e.1 e.2) s = .ok ⟨⟩ t := by
  induction l generalizing s with
  | nil => exact ⟨s, rfl⟩
  | cons e l ih =>
    obtain ⟨u, hu, hrest⟩ := h.one
    obtain ⟨t, ht⟩ := ih hrest
    exact ⟨t, (bind_ok hu).trans ht⟩

theorem flushAllPages_returns (hlatch : s.shared.bpmLatch = false) (h : Writable s s.mapped) :
    ∃ t, flushAllPages s = .ok () t := by
  have hheld : Writable (s.latched true) s.mapped := ⟨h.size, h.pages, h.bound, h.free, h.length⟩
  obtain ⟨t, ht⟩ := hheld.all
  have hstart : flushAllPages s = _ := bind_ok (onShared_lock hlatch)
  rw [bind_ok get_ok] at hstart
  rcases flushFrames_cases s.mapped (s.latched true) with ⟨u, hu, hwb⟩ | ⟨e, u, hu, -⟩ | ⟨e, u, hu, -⟩
  · have hunlock : onShared Shared.unlock u = .ok () (u.latched false) :=
      zoom_ok (Shared.unlock_ok hwb.quiet.latch)
    exact ⟨_, hstart.trans ((bind_ok hu).trans hunlock)⟩
  · rw [ht] at hu
    cases hu
  · rw [ht] at hu
    cases hu

end BufferPoolManager

/-! ### The engine of the next process -/

namespace StorageEngine

variable {s u : StorageEngine} {T T' : Tables} {pgkey : PageKey} {fs : LocalFS}

/-- A listing by which `init_table_metadata` counts every table right. -/
def Recountable [Build] (fs : LocalFS) (s : StorageEngine) : Prop :=
  ∀ t metadata, s.tableMetadata.lookup t = some metadata →
    Countable fs s.config t (metadata.lastPgno + 1)

theorem Kept.reopens [Build] (h : Kept s T) (hfs : fs.Relisted s.vfs) (hcount : Recountable fs s) :
    ∃ u, openAt fs s.config = .ok () u ∧ u.config = s.config ∧ Kept u T := by
  have hall : ∀ t ps, T t = some ps → Countable fs s.config t ps.length := by
    intro t ps ht
    obtain ⟨first, pages, rfl, -⟩ := h.cons ht
    exact hcount t (metadataOf (first :: pages)) (by rw [h.counted, ht, Option.map_some])
  rcases openAt_cases h hfs with ⟨u, hopen, hconfig, -, hkept⟩ | ⟨u, -, t, ps, ht, hbad⟩
  · exact ⟨u, hopen, hconfig, hkept hall⟩
  · exact absurd (hall t ps ht) hbad

/-- Only page 0 is not the caller's. -/
theorem Tables.page_of_user (huser : Tables.user T' = Tables.user T) (hpos : 0 < pgkey.2) :
    T'.page pgkey = T.page pgkey := by
  have hpage : ∀ T : Tables, T.page pgkey = (Tables.user T pgkey.1).bind fun ps => ps[pgkey.2 - 1]? := by
    intro T
    rw [Tables.page, Tables.user]
    cases T pgkey.1 with
    | none => rfl
    | some ps => simp [List.getElem?_tail, Nat.sub_add_cancel hpos]
  rw [hpage, hpage, huser]

end StorageEngine

/-! ### One process after another -/

namespace PoolSession

open BufferPoolManager

variable {E : Type} [Evictor E] [Build]

/-- Sessions of a pool over one directory. Between two of them the pages are flushed, the engine is
shut down and another one is opened, with the same files in any order. -/
inductive Lifetime : Memory → PoolSession E → Prop where
  | first {n : Nat} {evictor : E} {eng : StorageEngine} {T : StorageEngine.Tables}
      (hkept : StorageEngine.Kept eng T) (hsize : eng.config.pageSize = pageSize) :
      Lifetime (fun _ => none) (start (fresh n evictor eng))
  | next {M : Memory} {s t : PoolSession E} {op : Op} {a : Option PageKey} (h : Lifetime M s)
      (hok : Kind M s op) (hnext : Next s op a t) : Lifetime (remember s M op a) t
  | restart {M : Memory} {s : PoolSession E} {p : BufferPoolManager E} {eng u : StorageEngine}
      {fs : LocalFS} {n : Nat} {evictor : E} (h : Lifetime M s)
      (hflush : flushAllPages s.pool = .ok () p)
      (hshut : StorageEngine.shutdown p.storageEngine = .ok () eng) (hfs : fs.Relisted eng.vfs)
      (hcount : StorageEngine.Recountable fs eng)
      (hopen : StorageEngine.openAt fs eng.config = .ok () u) :
      Lifetime M (start (fresh n evictor u))

section Lifetimes

variable {M : Memory} {s t : PoolSession E} {op : Op} {a : Option PageKey} {pgkey : PageKey}

/-- `new_page` never returns page 0. -/
def Numbered (M : Memory) : Prop := ∀ pgkey, M pgkey ≠ none → 0 < pgkey.2

theorem Numbered.next (hnum : Numbered M) (h : Recalls M s) (hok : Kind M s op)
    (hnext : Next s op a t) : Numbered (remember s M op a) := by
  cases op with
  | newPage tblId =>
    rcases next_cases hnext h.settled.balanced with hstep | ⟨rfl, -⟩
    · cases hstep with
      | made hlatch hmade =>
        cases hmade with
        | made s' pgkey f rest buffer eng₁ eng₂ hens hcount halloc hread hfree hf hlen =>
          obtain ⟨-, T, hkept, -⟩ := h.backed hlatch
          obtain ⟨hpos, -⟩ := hkept.allocates hok.2.2 halloc
          intro key hkey
          by_cases hne : key = pgkey
          · exact hne ▸ hpos
          · simp only [remember, Function.update_of_ne hne] at hkey
            exact hnum key hkey
        | refused hr => exact hnum
    · exact hnum
  | overwrite i data =>
    rcases hi : (s.vars .write)[i]? with _ | _ | g
    · simpa only [remember, hi] using hnum
    · simpa only [remember, hi] using hnum
    · intro key hkey
      simp only [remember, hi] at hkey
      by_cases hne : key = g.pgkey
      · obtain ⟨f, -, hmap⟩ := h.bound .write g (List.mem_of_getElem? hi) (hok.1.2 g hi)
        rw [hne]
        exact hnum _ (by rw [h.shows _ f hmap]; exact Option.some_ne_none _)
      · rw [Function.update_of_ne hne] at hkey
        exact hnum key hkey
  | _ => exact hnum

omit [Evictor E] in
/-- What `flush_all_pages` leaves. -/
theorem Recalls.flushedAll {p : BufferPoolManager E} (h : Recalls M s)
    (hflush : flushAllPages s.pool = .ok () p) : ∃ T, StorageEngine.Kept p.storageEngine T ∧
      p.storageEngine.config.pageSize = pageSize ∧
      ∀ pgkey content, M pgkey = some content → T.page pgkey = some content := by
  have hlatch := latch_of_ok hflush
  rcases flushAllPages_cases hlatch with ⟨t, hok, hwb, hlatch'⟩ | ⟨e, t, herr, -⟩ | ⟨e, t, herr, -⟩
  · rw [hflush] at hok
    cases hok
    have hquiet := quiet_of_latched hwb.quiet hlatch hlatch'
    obtain ⟨hsize, T, hkept, hpages⟩ :=
      (h.flushed hlatch hlatch' hwb fun e he => lookup_of_mapped he).backed hlatch'
    refine ⟨T, hkept, hsize, fun pgkey content hmem => ?_⟩
    obtain ⟨page, hpage, hor⟩ := hpages pgkey content hmem
    refine hpage.trans (congrArg some (hor.resolve_left ?_))
    rintro ⟨f, hf, hdirty⟩
    have hold : s.pool.frameTable.lookup pgkey = some f := hquiet.frameTable ▸ hf
    rw [show (p.shared.frames f).dirty = false from hwb.clean (.inl ⟨pgkey, mem_mapped hold⟩)] at hdirty
    cases hdirty
  · rw [hflush] at herr
    cases herr
  · rw [hflush] at herr
    cases herr

theorem Lifetime.recalls (h : Lifetime M s) : Recalls M s ∧ Numbered M := by
  induction h with
  | first hkept hsize => exact ⟨recalls_start hkept hsize, fun key hkey => absurd rfl hkey⟩
  | next _ hok hnext ih => exact ⟨ih.1.next hok.1 hok.2 hnext, ih.2.next ih.1 hok hnext⟩
  | @restart M s p eng u fs n evictor _ hflush hshut hfs hcount hopen ih =>
    obtain ⟨T, hkept, hsize, hpages⟩ := ih.1.flushedAll hflush
    obtain ⟨⟨⟩, eng', hshut', T', hkept', huser, hconfig⟩ := StorageEngine.shutdown_ok hkept
    rw [hshut] at hshut'
    cases hshut'
    obtain ⟨u', hopen', hconfig', hkept''⟩ := hkept'.reopens hfs hcount
    rw [hopen] at hopen'
    cases hopen'
    refine ⟨recalls_fresh hkept'' ?_ fun key content hkey => ?_, ih.2⟩
    · rw [hconfig', hconfig, hsize]
    · have hpos := ih.2 key (by rw [hkey]; exact Option.some_ne_none _)
      rw [StorageEngine.Tables.page_of_user huser hpos]
      exact hpages key content hkey

/-- Every guard was dropped. -/
def Unguarded (s : PoolSession E) : Prop :=
  ∀ kind (g : PageGuard kind), some g ∈ s.vars kind → g.isValid = false

omit [Evictor E] [Build] in
theorem Unguarded.held (h : Unguarded s) (kind : GuardKind) (f : Nat) : s.vars.held kind f = 0 := by
  rw [GuardVars.held, List.countP_eq_zero]
  rintro (_ | g) hmem
  · simp [GuardVars.bound]
  · rw [GuardVars.bound_some, h kind g hmem]
    simp

omit [Evictor E] [Build] in
theorem Recalls.writable (h : Recalls M s) (hlatch : s.pool.shared.bpmLatch = false)
    (hun : Unguarded s) : Writable s.pool s.pool.mapped := by
  have hb := h.settled.balanced hlatch
  obtain ⟨hsize, T, hkept, hpages⟩ := h.backed hlatch
  have hmapped : ∀ e ∈ s.pool.mapped, s.pool.frameTable.lookup e.1 = some e.2 :=
    fun e he => lookup_of_mapped he
  refine ⟨hsize, ⟨T, hkept, fun e he => ?_⟩, fun e he => ?_, fun e _ => ?_, fun e _ => h.length e.2⟩
  · obtain ⟨page, hpage, -⟩ := hpages e.1 _ (h.shows e.1 e.2 (hmapped e he))
    exact ⟨page, hpage⟩
  · exact h.settled.partitioned.lt_iff.mpr (.inr ⟨e.1, hmapped e he⟩)
  · have hwriter := hb.writer e.2
    rw [hun.held] at hwriter
    exact ⟨by simpa using hwriter, (hb.readers e.2).trans (hun.held .read e.2)⟩

/-- A pool is not seen in any process, and a process that has dropped its guards ends in order: its
pages are flushed, its engine is shut down, and the next one opens the directory if it counts the
files right. -/
theorem Lifetime.endures (h : Lifetime M s) : Transparent M s ∧
    (s.pool.shared.bpmLatch = false → Unguarded s → ∃ p eng, flushAllPages s.pool = .ok () p ∧
      StorageEngine.shutdown p.storageEngine = .ok () eng ∧
      ∀ fs, fs.Relisted eng.vfs → StorageEngine.Recountable fs eng →
        ∃ u, StorageEngine.openAt fs eng.config = .ok () u ∧
          ∀ n (evictor : E), Lifetime M (start (fresh n evictor u))) := by
  obtain ⟨hrecalls, -⟩ := h.recalls
  constructor
  · intro g hg hval
    obtain ⟨f, hf, hmap⟩ := hrecalls.bound .read g hg hval
    exact ⟨f, hf, hrecalls.shows _ f hmap⟩
  · intro hlatch hun
    obtain ⟨p, hflush⟩ := flushAllPages_returns hlatch (hrecalls.writable hlatch hun)
    obtain ⟨T, hkept, -⟩ := hrecalls.flushedAll hflush
    obtain ⟨⟨⟩, eng, hshut, T', hkept', -⟩ := StorageEngine.shutdown_ok hkept
    refine ⟨p, eng, hflush, hshut, fun fs hfs hcount => ?_⟩
    obtain ⟨u, hopen, -⟩ := hkept'.reopens hfs hcount
    exact ⟨u, hopen, fun n evictor => h.restart hflush hshut hfs hcount hopen⟩

theorem MemoryRun.lifetime {s₀ : PoolSession E} (h : MemoryRun Kind s₀ M s)
    (hs : Lifetime (fun _ => none) s₀) : Lifetime M s := by
  induction h with
  | start => exact hs
  | next _ hok hnext ih => exact ih.next hok hnext

end Lifetimes

omit [Build] in
/-- A page that was written, with no guard left. -/
theorem Lifetime.endures_written : ∃ (_ : Build) (data : List Byte) (s : PoolSession LRUKEvictor),
    Lifetime (written data) s ∧ Transparent (written data) s ∧ ∃ p eng,
      flushAllPages s.pool = .ok () p ∧ StorageEngine.shutdown p.storageEngine = .ok () eng := by
  let _ : Build := ⟨false⟩
  generalize hdata : List.replicate pageSize (1 : Byte) = data
  have hlen : data.length = pageSize := by rw [← hdata, List.length_replicate]
  obtain ⟨eng, T, eng₁, page, hkept, hsize, hrun⟩ :=
    memoryRun_written ({ k := evictorK } : LRUKEvictor) hlen
  have hlife := hrun.lifetime (.first hkept hsize)
  have hun : Unguarded (overwrittenOnce ({ k := evictorK } : LRUKEvictor) data page eng₁) := by
    rintro (_ | _) g hg
    · cases hg
    · obtain rfl := Option.some_inj.mp (List.mem_singleton.mp hg)
      rfl
  obtain ⟨hshows, hends⟩ := hlife.endures
  obtain ⟨p, eng', hflush, hshut, -⟩ := hends rfl hun
  exact ⟨⟨false⟩, data, _, hlife, hshows, p, eng', hflush, hshut⟩

end PoolSession

end Cpplite
