import Mathlib.Data.List.Perm.Basic
import Mathlib.Data.List.Nodup
import Cpplite.BufferPool.PoolRuns
import Cpplite.Storage.EngineRuns

/-!
The frames of a pool, shared out between the free list and the frame table.

This holds as long as no frame is taken from a victim, which goes to the free list and stays in the
frame table.
-/
namespace Cpplite

open Exec

namespace BufferPoolManager

variable {E : Type} {s t : BufferPoolManager E} {pgkey : PageKey} {f : Nat} {rest : List Nat}
  {buffer : List Byte} {eng : StorageEngine}

/-- Every frame is free, or holds one page. -/
def Partitioned (s : BufferPoolManager E) : Prop :=
  (s.freeList ++ s.frameTable.entries.map Sigma.snd).Perm (List.range s.numFrames)

theorem partitioned_fresh (n : Nat) (evictor : E) (eng : StorageEngine) :
    (fresh n evictor eng).Partitioned := by
  simp [Partitioned, fresh, AList.empty_entries]

theorem Partitioned.of_eq (h : s.Partitioned) (hn : t.numFrames = s.numFrames)
    (hfree : t.freeList = s.freeList) (htable : t.frameTable = s.frameTable) : t.Partitioned := by
  rw [Partitioned, hn, hfree, htable]
  exact h

theorem Alike.partitioned (h : Alike s t) (hs : s.Partitioned) : t.Partitioned :=
  hs.of_eq h.numFrames h.freeList h.frameTable

theorem mapped_mem (h : s.frameTable.lookup pgkey = some f) :
    f ∈ s.frameTable.entries.map Sigma.snd :=
  List.mem_map.mpr ⟨⟨pgkey, f⟩, AList.mem_lookup_iff.mp h, rfl⟩

theorem Partitioned.nodup (h : s.Partitioned) :
    (s.freeList ++ s.frameTable.entries.map Sigma.snd).Nodup :=
  h.nodup_iff.mpr List.nodup_range

theorem Partitioned.lt_iff (h : s.Partitioned) :
    f < s.numFrames ↔ f ∈ s.freeList ∨ ∃ pgkey, s.frameTable.lookup pgkey = some f := by
  rw [← List.mem_range, ← List.Perm.mem_iff h, List.mem_append, List.mem_map]
  refine or_congr_right ⟨?_, ?_⟩
  · rintro ⟨⟨pgkey, f⟩, hmem, rfl⟩
    exact ⟨pgkey, AList.mem_lookup_iff.mpr hmem⟩
  · rintro ⟨pgkey, hmap⟩
    exact List.mem_map.mp (mapped_mem hmap)

/-- A frame with a page is not free. -/
theorem Partitioned.not_free (h : s.Partitioned) (hmap : s.frameTable.lookup pgkey = some f) :
    f ∉ s.freeList :=
  fun hfree => (List.nodup_append.mp h.nodup).2.2 f hfree f (mapped_mem hmap) rfl

/-- No two pages in one frame. -/
theorem Partitioned.injective (h : s.Partitioned) {pgkey' : PageKey}
    (hmap : s.frameTable.lookup pgkey = some f) (hmap' : s.frameTable.lookup pgkey' = some f) :
    pgkey = pgkey' := by
  have hnodup := (List.nodup_append.mp h.nodup).2.1
  have heq := List.inj_on_of_nodup_map hnodup (AList.mem_lookup_iff.mp hmap)
    (AList.mem_lookup_iff.mp hmap') rfl
  exact congrArg Sigma.fst heq

/-- What `size` asserts. -/
theorem Partitioned.size (h : s.Partitioned) :
    s.freeList.length + s.frameTable.entries.length = s.numFrames := by
  have hlen := h.length_eq
  rwa [List.length_append, List.length_map, List.length_range] at hlen

variable [Evictor E]

/-- A page that was nowhere comes into a free frame. -/
theorem Partitioned.loaded (h : s.Partitioned) (hfree : s.freeList = f :: rest)
    (hmap : s.frameTable.lookup pgkey = none) : (s.loaded pgkey f rest buffer eng).Partitioned := by
  have hentries := AList.entries_insert_of_notMem (b := f) (AList.lookup_eq_none.mp hmap)
  rw [Partitioned, hfree] at h
  rw [Partitioned]
  simp only [BufferPoolManager.loaded, hentries, List.map_cons]
  exact List.perm_middle.trans h

/-- A page leaves its frame, which is free from then on. -/
theorem Partitioned.freed (h : s.Partitioned) (hmap : s.frameTable.lookup pgkey = some f) :
    (s.freed pgkey f).Partitioned := by
  have hmem : pgkey ∈ s.frameTable.entries.keys := AList.lookup_isSome.mp (by simp [hmap])
  obtain ⟨f', l₁, l₂, -, hcut, herase⟩ := List.exists_of_kerase hmem
  have hf : f' = f := by
    have hlook : s.frameTable.lookup pgkey = some f' :=
      AList.mem_lookup_iff.mpr (by rw [hcut]; simp)
    rw [hmap, Option.some_inj] at hlook
    exact hlook.symm
  subst hf
  have herased : (s.frameTable.erase pgkey).entries = l₁ ++ l₂ := herase
  rw [Partitioned, hcut] at h
  rw [Partitioned]
  simp only [BufferPoolManager.freed, herased]
  refine List.Perm.trans ?_ h
  simp only [List.map_append, List.map_cons, List.append_assoc, List.cons_append, List.nil_append]
  exact (List.perm_middle.symm).append_left _

/-- The evictor has a victim to give, and it is needed. -/
def Yields (s : BufferPoolManager E) : Prop :=
  s.freeList = [] ∧ (Evictor.evict s.shared.evictor).1 ≠ none

theorem Ensured.eq_of_not_yields (h : Ensured s t) (hs : ¬ s.Yields) : t = s := by
  cases h with
  | free h => rfl
  | victim v h hv => exact absurd ⟨h, by simp [hv]⟩ hs

end BufferPoolManager

namespace PoolSession

open BufferPoolManager

/-- A program that has just made its pool. -/
def start {E : Type} (pool : BufferPoolManager E) : PoolSession E := ⟨pool, fun _ => []⟩

variable {E : Type} [Evictor E] [Build]

/-- A run, with its operations and their answers, newest first; each step meets a condition. -/
inductive Run (ok : PoolSession E → Op → Prop) (s₀ : PoolSession E) :
    List (Op × Option PageKey) → PoolSession E → Prop where
  | start : Run ok s₀ [] s₀
  | next {past : List (Op × Option PageKey)} {s t : PoolSession E} {op : Op} {a : Option PageKey}
      (h : Run ok s₀ past s) (hok : ok s op) (hnext : Next s op a t) :
      Run ok s₀ ((op, a) :: past) t

/-- The operation takes a frame from a victim. -/
def TakesVictim (s : PoolSession E) (op : Op) : Prop := NeedsFrame s op ∧ s.pool.Yields

/-- No victim is taken, and no table runs out of page numbers. -/
def Unforced (s : PoolSession E) (op : Op) : Prop :=
  ¬ TakesVictim s op ∧ ∀ tblId, op = .newPage tblId → s.pool.storageEngine.HasRoom tblId

/-- The pool is in order, and as long as calls come back, so are its pins and its page numbers. -/
structure Settled (s : PoolSession E) : Prop where
  partitioned : s.pool.Partitioned
  free : ∀ f ∈ s.pool.freeList, (s.pool.shared.frames f).pins = 0
  balanced : s.pool.shared.bpmLatch = false → Balanced s.pool.shared s.vars
  known : s.pool.shared.bpmLatch = false → ∀ pgkey f, s.pool.frameTable.lookup pgkey = some f →
    s.pool.storageEngine.Knows pgkey

section Steps

variable {s t : PoolSession E} {op : Op} {a : Option PageKey} {p : BufferPoolManager E}
  {pgkey : PageKey} {f : Nat} {rest : List Nat} {buffer : List Byte} {eng : StorageEngine}
  {vars : GuardVars} {kind : GuardKind}

omit [Evictor E] [Build] in
theorem settled_start (n : Nat) (evictor : E) (eng : StorageEngine) :
    Settled (start (fresh n evictor eng)) := by
  refine ⟨partitioned_fresh n evictor eng, fun _ _ => rfl, fun _ => ?_, fun _ pgkey f hmap => ?_⟩
  · refine ⟨rfl, fun kind g hg => ?_, fun _ => rfl, fun _ => rfl, fun _ => rfl⟩
    simp [start] at hg
  · simp [start, fresh, AList.lookup_empty] at hmap

omit [Evictor E] [Build] in
/-- Nothing but the bytes of pages changed. -/
theorem Settled.quiet (h : Settled s) (hp : Quiet s.pool p) : Settled ⟨p, s.vars⟩ := by
  refine ⟨hp.partitioned h.partitioned, fun f hf => ?_, fun hlatch => ?_, fun hlatch => ?_⟩
  · rw [hp.pins, h.free f (hp.freeList ▸ hf)]
  · have hb := h.balanced (hp.latch ▸ hlatch)
    exact ⟨hlatch, hb.framed, fun f => by rw [hp.pins, hb.pins],
      fun f => by rw [hp.readers, hb.readers], fun f => by rw [hp.writer, hb.writer]⟩
  · intro pgkey f hmap
    exact (h.known (hp.latch ▸ hlatch) pgkey f (hp.frameTable ▸ hmap)).grows hp.grows

omit [Build] in
/-- A page comes into a free frame, whose pin count was 0 already. -/
theorem Settled.loaded (h : Settled s) (hlatch : s.pool.shared.bpmLatch = false)
    (hfree : s.pool.freeList = f :: rest) (hmap : s.pool.frameTable.lookup pgkey = none)
    (hknows : eng.Knows pgkey) (hgrows : StorageEngine.Grows s.pool.storageEngine eng) :
    Settled ⟨s.pool.loaded pgkey f rest buffer eng, s.vars⟩ := by
  have hpins : (s.pool.shared.frames f).pins = 0 := h.free f (by rw [hfree]; exact List.mem_cons_self)
  have hb := h.balanced hlatch
  have hsame : ∀ g, ((s.pool.loaded pgkey f rest buffer eng).shared.frames g).pins =
        (s.pool.shared.frames g).pins ∧
      ((s.pool.loaded pgkey f rest buffer eng).shared.frames g).readers =
        (s.pool.shared.frames g).readers ∧
      ((s.pool.loaded pgkey f rest buffer eng).shared.frames g).writer =
        (s.pool.shared.frames g).writer := by
    intro g
    by_cases hg : g = f
    · subst hg
      simp [BufferPoolManager.loaded, hpins]
    · simp [BufferPoolManager.loaded, hg]
  refine ⟨h.partitioned.loaded hfree hmap, fun g hg => ?_, fun _ => ?_, fun _ pgkey' f' hmap' => ?_⟩
  · rw [(hsame g).1]
    exact h.free g (by rw [hfree]; exact List.mem_cons_of_mem f hg)
  · exact ⟨hlatch, hb.framed, fun g => by rw [(hsame g).1, hb.pins],
      fun g => by rw [(hsame g).2.1, hb.readers], fun g => by rw [(hsame g).2.2, hb.writer]⟩
  · by_cases hkey : pgkey' = pgkey
    · exact hkey ▸ hknows
    · simp only [BufferPoolManager.loaded, AList.lookup_insert_ne hkey] at hmap'
      exact (h.known hlatch pgkey' f' hmap').grows hgrows

omit [Build] in
/-- A guard is made for a frame with a page. -/
theorem Settled.acquired (h : Settled s) (hlatch : s.pool.shared.bpmLatch = false)
    (hmap : s.pool.frameTable.lookup pgkey = some f)
    (hfree : (s.pool.shared.frames f).Free kind) :
    Settled ⟨{ s.pool with shared := s.pool.shared.acquired kind f },
      s.vars.declare (⟨pgkey, some f, true⟩ : PageGuard kind)⟩ := by
  have hb := h.balanced hlatch
  refine ⟨h.partitioned.of_eq rfl rfl rfl, fun g hg => ?_, fun _ => ?_, fun _ => h.known hlatch⟩
  · have hg' : g ∈ s.pool.freeList := hg
    have hne : g ≠ f := by
      rintro rfl
      exact h.partitioned.not_free hmap hg'
    simp [Shared.acquired, hne, h.free g hg']
  · refine hb.acquired hfree (hb.framed.declare (by simp)) fun k g => ?_
    rw [GuardVars.held_declare]
    simp [GuardVars.bound_some, @eq_comm _ f g]

omit [Evictor E] [Build] in
theorem Settled.of_evictor (h : Settled s) (evictor : E) :
    Settled ⟨{ s.pool with shared := { s.pool.shared with evictor } }, s.vars⟩ := by
  refine ⟨h.partitioned, h.free, fun hlatch => ?_, h.known⟩
  have hb := h.balanced hlatch
  exact ⟨hb.latch, hb.framed, hb.pins, hb.readers, hb.writer⟩

omit [Evictor E] [Build] in
theorem Settled.of_vars (h : Settled s) (hb : s.pool.shared.bpmLatch = false → Balanced s.pool.shared vars) :
    Settled ⟨s.pool, vars⟩ :=
  ⟨h.partitioned, h.free, hb, h.known⟩

omit [Evictor E] in
/-- A new page is not in the pool. -/
theorem Settled.new_unmapped {tblId : Nat} (h : Settled s) (hlatch : s.pool.shared.bpmLatch = false)
    (hroom : s.pool.storageEngine.HasRoom tblId)
    (halloc : StorageEngine.allocatePage tblId s.pool.storageEngine = .ok pgkey eng) :
    s.pool.frameTable.lookup pgkey = none := by
  by_contra hsome
  obtain ⟨f, hf⟩ := Option.ne_none_iff_exists'.mp hsome
  exact (StorageEngine.allocatePage_numbers halloc hroom).1 (h.known hlatch pgkey f hf)

theorem Settled.made {tblId : Nat} (h : Settled s) (hlatch : s.pool.shared.bpmLatch = false)
    (hok : Unforced s (.newPage tblId)) (hmade : MadePage s.pool tblId a p) :
    Settled ⟨p, s.vars⟩ := by
  cases hmade with
  | made s' pgkey f rest buffer eng₁ eng₂ hs hcount halloc hread hfree hf hlen =>
    obtain rfl := hs.eq_of_not_yields fun hy => hok.1 ⟨trivial, hy⟩
    obtain ⟨-, hgrows⟩ := StorageEngine.allocatePage_numbers halloc (hok.2 tblId rfl)
    obtain ⟨hknows, hgrows'⟩ := StorageEngine.readPage_numbers hread
    exact h.loaded hlatch hfree (h.new_unmapped hlatch (hok.2 tblId rfl) halloc) hknows (hgrows.trans hgrows')
  | refused hr => exact h.of_evictor _

theorem Settled.got {g : PageGuard kind} (h : Settled s) (hlatch : s.pool.shared.bpmLatch = false)
    (hok : Unforced s (.getPage kind pgkey)) (hgot : GotPage s.pool kind pgkey g p) :
    Settled ⟨p, s.vars.declare g⟩ := by
  cases hgot with
  | hit f hmap hf hfree =>
    exact (h.of_evictor (s.pool.touched f).shared.evictor).acquired hlatch hmap hfree
  | load s' f rest buffer eng hmap hs hread hfree hf hlen hlatch' =>
    obtain rfl := hs.eq_of_not_yields fun hy => hok.1 ⟨hmap, hy⟩
    obtain ⟨hknows, hgrows⟩ := StorageEngine.readPage_numbers hread
    refine (h.loaded hlatch hfree hmap hknows hgrows).acquired hlatch (AList.lookup_insert _) ?_
    cases kind <;> simpa [BufferPoolManager.loaded, FrameHeader.Free] using hlatch'
  | refused hmap hr =>
    refine (h.of_evictor _).of_vars fun _ => ?_
    have hb := (h.of_evictor (Evictor.evict s.pool.shared.evictor).2).balanced hlatch
    refine hb.of_held (hb.framed.declare (by simp)) fun k g => ?_
    simp [GuardVars.held_declare, GuardVars.bound]

omit [Build] in
theorem Settled.released {i : Nat} {g : PageGuard kind} (h : Settled s)
    (hlatch : s.pool.shared.bpmLatch = false) (hi : (s.vars kind)[i]? = some (some g))
    (hval : g.isValid = true) (hf : g.frame = some f) :
    Settled ⟨{ s.pool with shared := s.pool.shared.released kind f },
      s.vars.assign i (some ({ g with isValid := false } : PageGuard kind))⟩ := by
  have hb := h.balanced hlatch
  have hpos := (GuardVars.held_pos hi hval hf).trans_le hb.held_le
  refine ⟨h.partitioned.of_eq rfl rfl rfl, fun f' hf' => ?_, fun _ => ?_, fun _ => h.known hlatch⟩
  · have hzero := h.free f' hf'
    have hne : f' ≠ f := by
      rintro rfl
      omega
    simp [Shared.released, hne, hzero]
  · refine hb.released (hb.framed.assign (by rintro g' ⟨⟩; simp)) fun k f' => ?_
    have hheld := GuardVars.held_assign (k := k) (f := f') hi
      (some ({ g with isValid := false } : PageGuard kind))
    simp only [GuardVars.bound, Option.any_some, hval, Bool.true_and, Bool.false_and,
      Bool.false_eq_true, and_false, if_false, Nat.add_zero, beq_iff_eq] at hheld
    rw [← hheld]
    simp only [hf, Option.some_inj, @eq_comm _ f' f]

omit [Evictor E] [Build] in
/-- A pool that is flushed lets go of its latch again. -/
theorem quiet_of_latched (h : Quiet (s.pool.latched true) (p.latched true))
    (hlatch : s.pool.shared.bpmLatch = false) (hlatch' : p.shared.bpmLatch = false) :
    Quiet s.pool p :=
  ⟨⟨h.numFrames, h.frameTable, h.freeList, h.evictor, h.pins⟩, hlatch'.trans hlatch.symm,
    h.readers, h.writer, h.grows⟩

omit [Build] in
theorem Settled.evicted {r : Bool} (h : Settled s) (hlatch : s.pool.shared.bpmLatch = false)
    (hev : Evicted s.pool pgkey r p) : Settled ⟨p, s.vars⟩ := by
  cases hev with
  | absent hmap => exact h
  | pinned f hmap hpins => exact h
  | freed f hmap hf hpins =>
    have hb := h.balanced hlatch
    have hsame : ∀ g, ((s.pool.freed pgkey f).shared.frames g).pins = (s.pool.shared.frames g).pins ∧
        ((s.pool.freed pgkey f).shared.frames g).readers = (s.pool.shared.frames g).readers ∧
        ((s.pool.freed pgkey f).shared.frames g).writer = (s.pool.shared.frames g).writer := by
      intro g
      by_cases hg : g = f
      · subst hg
        simp [BufferPoolManager.freed, hpins]
      · simp [BufferPoolManager.freed, hg]
    refine ⟨h.partitioned.freed hmap, fun g hg => ?_, fun _ => ?_, fun _ pgkey' f' hmap' => ?_⟩
    · rw [(hsame g).1]
      rcases List.mem_append.mp hg with hg | hg
      · exact h.free g hg
      · rw [List.mem_singleton.mp hg, hpins]
    · exact ⟨hlatch, hb.framed, fun g => by rw [(hsame g).1, hb.pins],
        fun g => by rw [(hsame g).2.1, hb.readers], fun g => by rw [(hsame g).2.2, hb.writer]⟩
    · have hne : pgkey' ≠ pgkey := by
        rintro rfl
        simp [BufferPoolManager.freed] at hmap'
      simp only [BufferPoolManager.freed, AList.lookup_erase_ne hne] at hmap'
      exact h.known hlatch pgkey' f' hmap'

theorem Settled.step (h : Settled s) (hok : Unforced s op) (hstep : Step s op a t) : Settled t := by
  cases hstep with
  | made hlatch hmade => exact h.made hlatch hok hmade
  | got hlatch hgot => exact h.got hlatch hok hgot
  | released hlatch hi hval hf => exact h.released hlatch hi hval hf
  | @dropped kind i g hi hval =>
    refine h.of_vars fun hlatch => ?_
    have hb := h.balanced hlatch
    refine hb.of_held (hb.framed.assign ?_) fun k f => ?_
    · rintro g' ⟨⟩
      simp [hval]
    · exact Nat.add_right_cancel (GuardVars.held_assign hi (some g))
  | overwritten hi hf => exact h.quiet (.setFrame rfl rfl rfl .refl)
  | evicted hlatch hev => exact h.evicted hlatch hev
  | flushed hlatch hlatch' hwb hmap => exact h.quiet (quiet_of_latched hwb.quiet hlatch hlatch')
  | flushedAll hlatch hlatch' hwb => exact h.quiet (quiet_of_latched hwb.quiet hlatch hlatch')

theorem Threw.same (h : Threw s op t) (hok : Unforced s op) : Alike s.pool t.pool := by
  obtain ⟨p, hp, halike⟩ := h.alike
  rcases hp with rfl | ⟨hneeds, hens⟩
  · exact halike
  · rwa [hens.eq_of_not_yields fun hy => hok.1 ⟨hneeds, hy⟩] at halike

theorem Settled.threw (h : Settled s) (hok : Unforced s op) (hthrew : Threw s op t) : Settled t := by
  have halike := hthrew.same hok
  have hlatch : ¬ t.pool.shared.bpmLatch = false := by simp [hthrew.latch]
  refine ⟨halike.partitioned h.partitioned, fun f hf => ?_, fun hb => absurd hb hlatch,
    fun hb => absurd hb hlatch⟩
  rw [halike.pins, h.free f (halike.freeList ▸ hf)]

theorem Settled.next (h : Settled s) (hok : Unforced s op) (hnext : Next s op a t) : Settled t := by
  rcases next_cases hnext h.balanced with hstep | ⟨-, hthrew⟩
  · exact h.step hok hstep
  · exact h.threw hok hthrew

theorem Run.settled {ok : PoolSession E → Op → Prop} {past : List (Op × Option PageKey)}
    (hok : ∀ s op, ok s op → Unforced s op) (hs : Settled s) (h : Run ok s past t) : Settled t := by
  induction h with
  | start => exact hs
  | next _ hstep hnext ih => exact ih.next (hok _ _ hstep) hnext

/-- As long as no victim is taken, every frame is free or holds one page, no two pages are in one
frame, and what `size` asserts holds. -/
theorem run_partitioned {n : Nat} {evictor : E} {past : List (Op × Option PageKey)}
    (h : Run Unforced (start (fresh n evictor eng)) past t) :
    t.pool.Partitioned ∧
      (∀ pgkey pgkey' f, t.pool.frameTable.lookup pgkey = some f →
        t.pool.frameTable.lookup pgkey' = some f → pgkey = pgkey') ∧
      t.pool.freeList.length + t.pool.frameTable.entries.length = t.pool.numFrames := by
  have hp := (h.settled (fun _ _ hok => hok) (settled_start n evictor eng)).partitioned
  exact ⟨hp, fun pgkey pgkey' f hmap hmap' => hp.injective hmap hmap', hp.size⟩

end Steps

/-! ### Two pages in one frame -/

section Overlap

variable {pgkey : PageKey} {buffer : List Byte} {eng eng₁ : StorageEngine} {s : PoolSession E}

theorem next_getPage {kind : GuardKind} {g : PageGuard kind} {p : BufferPoolManager E}
    (h : getPage kind pgkey s.pool = .ok g p) :
    Next s (.getPage kind pgkey) (if g.isValid then some pgkey else none) ⟨p, s.vars.declare g⟩ :=
  .inl (bind_ok (onPool_ok h))

theorem next_drop {kind : GuardKind} {i : Nat} {g g' : PageGuard kind} {sh : Shared E}
    (hi : (s.vars kind)[i]? = some (some g)) (h : g.drop s.pool.shared = .ok g' sh) :
    Next s (.drop kind i) none ⟨{ s.pool with shared := sh }, s.vars.assign i (some g')⟩ := by
  have hdrop : onShared g.drop s = .ok g' ⟨{ s.pool with shared := sh }, s.vars⟩ :=
    onPool_ok (zoom_ok h)
  exact .inl ((bind_ok (read_ok hi)).trans (bind_ok hdrop))

omit [Build] in
/-- A pool of one frame with a page in it, and a guard for it. -/
def reading (evictor : E) (pgkey : PageKey) (buffer : List Byte) (eng : StorageEngine) : PoolSession E :=
  let pool := (fresh 1 evictor eng).loaded pgkey 0 [] buffer eng
  ⟨{ pool with shared := pool.shared.acquired .read 0 },
    (start pool).vars.declare (⟨pgkey, some 0, true⟩ : ReadPageGuard)⟩

/-- The guard is dropped. -/
def readOnce (evictor : E) (pgkey : PageKey) (buffer : List Byte) (eng : StorageEngine) :
    PoolSession E :=
  let s := reading evictor pgkey buffer eng
  ⟨{ s.pool with shared := s.pool.shared.released .read 0 },
    s.vars.assign 0 (some (⟨pgkey, some 0, false⟩ : ReadPageGuard))⟩

theorem next_reading (evictor : E) (h : StorageEngine.readPage pgkey [] eng = .ok buffer eng₁)
    (hlen : pageSize ≤ buffer.length) :
    Next (start (fresh 1 evictor eng)) (.getPage .read pgkey) (some pgkey)
      (reading evictor pgkey buffer eng₁) := by
  have hread : getPage .read pgkey (fresh 1 evictor eng) = _ :=
    getPage_load rfl rfl (.free (by simp [fresh])) h rfl Nat.one_pos hlen rfl
  exact next_getPage (s := start (fresh 1 evictor eng)) hread

theorem next_readOnce (evictor : E) : Next (reading evictor pgkey buffer eng) (.drop .read 0) none
    (readOnce evictor pgkey buffer eng) :=
  next_drop rfl (PageGuard.drop_ok rfl Nat.one_pos Nat.one_pos)

omit [Build] in
/-- The only frame can be taken from its page now. -/
theorem evict_readOnce : (Evictor.evict
    (readOnce ({ k := evictorK } : LRUKEvictor) pgkey buffer eng).pool.shared.evictor).1 = some 0 :=
  rfl

omit [Build] in
theorem length_zeros : pageSize ≤ (StorageEngine.zeros {}).length := by
  rw [StorageEngine.zeros, List.length_replicate]
  exact le_rfl

theorem exists_readable : ∃ eng eng₁ eng₂ : StorageEngine, ∃ page,
    StorageEngine.readPage (1, 1) [] eng = .ok page eng₁ ∧
      StorageEngine.readPage (1, 2) [] eng₁ = .ok page eng₂ ∧ pageSize ≤ page.length := by
  obtain ⟨eng, first, hkept, hconfig⟩ := StorageEngine.exists_kept
    (show 1 ≤ ({} : EngineConfig).segmentSize by decide) (by decide) 1 2
    (by unfold StorageEngine.InReach; decide)
  obtain ⟨c, hread, hkept₁⟩ := StorageEngine.readPage_ok (p := 1) [] hkept (Function.update_self ..) rfl
  obtain ⟨c', hread', -⟩ := StorageEngine.readPage_ok (p := 2) [] hkept₁ (Function.update_self ..) rfl
  rw [List.drop_nil, List.append_nil] at hread hread'
  exact ⟨eng, _, _, _, hread, hread', length_zeros⟩

/-- A storage engine that makes a page, whose zeros are read again and again. -/
theorem exists_allocates : ∃ eng T, StorageEngine.Kept eng T ∧ eng.config = {} ∧
    StorageEngine.Op.Allowed eng (.allocatePage 1) ∧ ∃ eng₁ eng₂ eng₃,
      StorageEngine.allocatePage 1 eng = .ok (1, 1) eng₁ ∧
      StorageEngine.readPage (1, 1) [] eng₁ = .ok (StorageEngine.zeros {}) eng₂ ∧
      StorageEngine.readPage (1, 1) [] eng₂ = .ok (StorageEngine.zeros {}) eng₃ := by
  obtain ⟨eng, first, hkept, hconfig⟩ := StorageEngine.exists_kept
    (show 1 ≤ ({} : EngineConfig).segmentSize by decide) (by decide) 1 0
    (by unfold StorageEngine.InReach; decide)
  have hreach : StorageEngine.InReach eng.config 1 := by
    rw [hconfig]
    unfold StorageEngine.InReach
    decide
  obtain ⟨_, eng₁, halloc, rfl, hkept₁, -⟩ :=
    StorageEngine.allocatePage_ok hkept (Function.update_self ..) hreach
  obtain ⟨c, hread, hkept₂⟩ :=
    StorageEngine.readPage_ok (p := 1) [] hkept₁ (Function.update_self ..) rfl
  obtain ⟨c', hread', -⟩ :=
    StorageEngine.readPage_ok (p := 1) [] hkept₂ (Function.update_self ..) rfl
  rw [List.drop_nil, List.append_nil, hconfig] at hread hread'
  have hallowed := StorageEngine.allowed_allocatePage hkept (Function.update_self ..) hreach
  exact ⟨eng, _, hkept, hconfig, hallowed, eng₁, _, _, halloc, hread, hread'⟩

omit [Build] in
/-- A page is read into the only frame. -/
theorem run_partitioned_reading : ∃ (_ : Build) (eng eng₁ : StorageEngine) (buffer : List Byte),
    Run Unforced (start (initial 1 eng)) [(.getPage .read (1, 1), some (1, 1))]
      (reading { k := evictorK } (1, 1) buffer eng₁) ∧
    (reading ({ k := evictorK } : LRUKEvictor) (1, 1) buffer eng₁).pool.Partitioned := by
  let _ : Build := ⟨false⟩
  obtain ⟨eng, eng₁, -, buffer, hread, -, hlen⟩ := exists_readable
  have hok : Unforced (start (initial 1 eng)) (.getPage .read (1, 1)) :=
    ⟨fun hv => absurd hv.2.1 (by simp [start, initial, fresh]), by simp⟩
  have hrun := Run.start.next hok (next_reading _ hread hlen)
  exact ⟨⟨false⟩, eng, eng₁, buffer, hrun, (run_partitioned hrun).1⟩

omit [Build] in
/-- Two pages are read through one frame, one after the other. Both are then mapped to it. -/
theorem overlapping_run : ¬ ∀ (_ : Build) (n : Nat) (eng : StorageEngine)
    (past : List (Op × Option PageKey)) (t : PoolSession LRUKEvictor),
    Run (fun _ _ => True) (start (initial n eng)) past t → t.pool.Partitioned := by
  intro h
  let _ : Build := ⟨false⟩
  obtain ⟨eng, eng₁, eng₂, buffer, hread, hread', hlen⟩ := exists_readable
  generalize he : ({ k := evictorK } : LRUKEvictor) = e
  have hrun : Run (fun _ _ => True) (start (fresh 1 e eng)) _ (readOnce e (1, 1) buffer eng₁) :=
    (Run.start.next trivial (next_reading e hread hlen)).next trivial (next_readOnce e)
  have hmap : (readOnce e (1, 1) buffer eng₁).pool.frameTable.lookup (1, 2) = none := rfl
  have hvictim : (Evictor.evict (readOnce e (1, 1) buffer eng₁).pool.shared.evictor).1 = some 0 := by
    rw [← he]
    exact evict_readOnce
  have hget : getPage .read (1, 2) (readOnce e (1, 1) buffer eng₁).pool = _ :=
    getPage_load rfl hmap (.victim 0 rfl hvictim) hread' rfl Nat.one_pos hlen rfl
  subst he
  have hsize : 0 + 2 = 1 := (h ⟨false⟩ 1 eng _ _ (hrun.next trivial (next_getPage hget))).size
  exact absurd hsize (by decide)

end Overlap

end PoolSession

end Cpplite
