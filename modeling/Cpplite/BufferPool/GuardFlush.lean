import Cpplite.BufferPool.Contents
import Cpplite.BufferPool.Pins

/-!
`flush` of the guards in `pageguard.cpp`: a guard writes its page back and keeps its frame.

A reader has one share of the latch and writes back under all of it. It gives its share up, takes the
latch, and takes its share again, so it waits for the page's other readers. In one thread it waits for
ever.
-/
namespace Cpplite

open Exec

/-! ### The calls -/

section Calls

variable {E : Type} [Build]

/-- What both do under the latch. -/
def BufferPoolManager.writeBack (pgkey : PageKey) (frameId : Nat) : PoolM E Unit := do
  let s ← get
  let _ ← onStorage (StorageEngine.writePage pgkey (s.shared.frames frameId).data)
  onShared (Shared.onFrame frameId (FrameHeader.setDirty false))

/-- `ReadPageGuard::flush` -/
def ReadPageGuard.flush (this : ReadPageGuard) : PoolM E Unit := do
  assert (this.frame ≠ none)
  match this.frame with
  | none => throw .undefined
  | some frameId => do
    BufferPoolManager.onShared (Shared.onFrame frameId FrameHeader.unlockRead)
    BufferPoolManager.onShared (Shared.onFrame frameId FrameHeader.lockWrite)
    BufferPoolManager.writeBack this.pgkey frameId
    BufferPoolManager.onShared (Shared.onFrame frameId FrameHeader.unlockWrite)
    BufferPoolManager.onShared (Shared.onFrame frameId FrameHeader.lockRead)

/-- `WritePageGuard::flush` -/
def WritePageGuard.flush (this : WritePageGuard) : PoolM E Unit := do
  assert (this.frame ≠ none)
  match this.frame with
  | none => throw .undefined
  | some frameId => BufferPoolManager.writeBack this.pgkey frameId

def PageGuard.flush : {kind : GuardKind} → PageGuard kind → PoolM E Unit
  | .read, this => ReadPageGuard.flush this
  | .write, this => WritePageGuard.flush this

end Calls

/-! ### When they return -/

/-- The latch can be had whole by who holds it. -/
def FrameHeader.Sole : GuardKind → FrameHeader → Prop
  | .read, frame => frame.readers = 1 ∧ frame.writer = false
  | .write, _ => True

namespace PageGuard

open BufferPoolManager

variable {E : Type} [Build] {s p : BufferPoolManager E} {kind : GuardKind} {g : PageGuard kind} {f : Nat}
  {pgkey : PageKey} {buffer : List Byte} {eng : StorageEngine} {e : Error}

theorem writeBack_ok
    (hw : StorageEngine.writePage pgkey (s.shared.frames f).data s.storageEngine = .ok buffer eng) :
    writeBack pgkey f s = .ok () (s.flushed f eng) := by
  have hstart : writeBack pgkey f s = _ := bind_ok get_ok
  exact hstart.trans (bind_ok (onStorage_ok hw))

theorem writeBack_error
    (hw : StorageEngine.writePage pgkey (s.shared.frames f).data s.storageEngine = .error e eng) :
    writeBack pgkey f s = .error e { s with storageEngine := eng } := by
  have hstart : writeBack pgkey f s = _ := bind_ok get_ok
  exact hstart.trans (bind_error (onStorage_error hw))

/-- A frame whose reader has given its share up. -/
def unshared (s : BufferPoolManager E) (f : Nat) : BufferPoolManager E :=
  { s with shared := s.shared.setFrame f ((s.shared.frames f).unlatched .read) }

/-- A writer has the latch whole. -/
theorem flush_write {g : WritePageGuard} (hf : g.frame = some f) : flush g s = writeBack g.pgkey f s := by
  have hstart : flush g s = _ := bind_ok (assert_ok (.inr (by simp [hf])))
  rw [hf] at hstart
  exact hstart

theorem flush_read {g : ReadPageGuard} (hf : g.frame = some f) :
    flush g s = (do
      BufferPoolManager.onShared (Shared.onFrame f FrameHeader.unlockRead)
      BufferPoolManager.onShared (Shared.onFrame f FrameHeader.lockWrite)
      writeBack g.pgkey f
      BufferPoolManager.onShared (Shared.onFrame f FrameHeader.unlockWrite)
      BufferPoolManager.onShared (Shared.onFrame f FrameHeader.lockRead) : PoolM E Unit) s := by
  have hstart : flush g s = _ := bind_ok (assert_ok (.inr (by simp [hf])))
  rw [hf] at hstart
  exact hstart

theorem flush_unshared {g : ReadPageGuard} (hf : g.frame = some f) (hheld : (s.shared.frames f).Held .read) :
    g.flush s = (do
      BufferPoolManager.onShared (Shared.onFrame f FrameHeader.lockWrite)
      writeBack g.pgkey f
      BufferPoolManager.onShared (Shared.onFrame f FrameHeader.unlockWrite)
      BufferPoolManager.onShared (Shared.onFrame f FrameHeader.lockRead) : PoolM E Unit) (unshared s f) := by
  have hunlock : BufferPoolManager.onShared (Shared.onFrame f FrameHeader.unlockRead) s =
      .ok () (unshared s f) := zoom_ok (Shared.onFrame_ok (unlockFrame_ok hheld))
  exact (flush_read hf).trans (bind_ok hunlock)

/-- Under the whole latch, a reader writes back as a writer does. -/
theorem flush_writing {g : ReadPageGuard} (hf : g.frame = some f) (hsole : (s.shared.frames f).Sole .read) :
    g.flush s = (do
      writeBack g.pgkey f
      BufferPoolManager.onShared (Shared.onFrame f FrameHeader.unlockWrite)
      BufferPoolManager.onShared (Shared.onFrame f FrameHeader.lockRead) : PoolM E Unit)
        ((unshared s f).writing f) := by
  have hheld : (s.shared.frames f).Held .read := by
    rw [FrameHeader.Held, hsole.1]
    exact Nat.one_pos
  have hfree : ((unshared s f).shared.frames f).Free .write := by
    simp [unshared, Shared.setFrame, FrameHeader.Free, FrameHeader.unlatched, hsole.1, hsole.2]
  have hlock : BufferPoolManager.onShared (Shared.onFrame f FrameHeader.lockWrite) (unshared s f) =
      .ok () ((unshared s f).writing f) := zoom_ok (Shared.onFrame_ok (lockFrame_ok hfree))
  rw [flush_unshared hf hheld, bind_ok hlock]

omit [Build] in
theorem unshared_data : (((unshared s f).writing f).shared.frames f).data = (s.shared.frames f).data := by
  rw [writing_data]
  simp [unshared, Shared.setFrame, FrameHeader.unlatched]

theorem flush_ok (hf : g.frame = some f) (hsole : (s.shared.frames f).Sole kind)
    (hw : StorageEngine.writePage g.pgkey (s.shared.frames f).data s.storageEngine = .ok buffer eng) :
    g.flush s = .ok () (s.flushed f eng) := by
  cases kind with
  | write => exact (flush_write hf).trans (writeBack_ok hw)
  | read =>
    rw [← unshared_data] at hw
    generalize hs₁ : ((unshared s f).writing f).flushed f eng = s₁
    have hback : writeBack g.pgkey f ((unshared s f).writing f) = .ok () s₁ := by
      rw [← hs₁]
      exact writeBack_ok hw
    have hheld : (s₁.shared.frames f).Held .write := by
      simp [← hs₁, flushed, writing, Shared.setFrame, FrameHeader.Held]
    generalize hs₂ : ({ s₁ with
      shared := s₁.shared.setFrame f ((s₁.shared.frames f).unlatched .write) } : BufferPoolManager E) = s₂
    have hunlock : BufferPoolManager.onShared (Shared.onFrame f FrameHeader.unlockWrite) s₁ = .ok () s₂ := by
      rw [← hs₂]
      exact zoom_ok (Shared.onFrame_ok (unlockFrame_ok hheld))
    have hfree : (s₂.shared.frames f).Free .read := by
      simp [← hs₂, Shared.setFrame, FrameHeader.Free, FrameHeader.unlatched]
    have hlock : BufferPoolManager.onShared (Shared.onFrame f FrameHeader.lockRead) s₂ = _ :=
      zoom_ok (Shared.onFrame_ok (lockFrame_ok hfree))
    have hstart : g.flush s = _ := flush_writing hf hsole
    refine hstart.trans ((bind_ok hback).trans ((bind_ok hunlock).trans (hlock.trans ?_)))
    obtain ⟨hreaders, hwriter⟩ := hsole
    simp [← hs₂, ← hs₁, flushed, writing, unshared, Shared.setFrame, FrameHeader.latched,
      FrameHeader.unlatched, ← hreaders, ← hwriter]

/-- A reader that is not alone waits. -/
theorem flush_blocks (hf : g.frame = some f) (hheld : (s.shared.frames f).Held kind)
    (hsole : ¬ (s.shared.frames f).Sole kind) : Raises g.flush s (fun e _ => e = .diverges) := by
  cases kind with
  | write => exact absurd trivial hsole
  | read =>
    have hfree : ¬ ((unshared s f).shared.frames f).Free .write := by
      intro hfree
      apply hsole
      have hpos : 0 < (s.shared.frames f).readers := hheld
      simp only [unshared, Shared.setFrame, FrameHeader.unlatched, FrameHeader.Free, Function.update_self]
        at hfree
      exact ⟨by omega, hfree.1⟩
    have hlock : BufferPoolManager.onShared (Shared.onFrame f FrameHeader.lockWrite) (unshared s f) =
        .error .diverges _ := zoom_error (Shared.onFrame_error (lockFrame_blocks hfree))
    have hstart : g.flush s = _ := flush_unshared hf hheld
    exact ⟨_, _, hstart.trans (bind_error hlock), rfl⟩

theorem flush_error (hf : g.frame = some f) (hsole : (s.shared.frames f).Sole kind)
    (hw : StorageEngine.writePage g.pgkey (s.shared.frames f).data s.storageEngine = .error e eng) :
    ∃ t, g.flush s = .error e t := by
  cases kind with
  | write => exact ⟨_, (flush_write hf).trans (writeBack_error hw)⟩
  | read =>
    rw [← unshared_data] at hw
    have hback : writeBack g.pgkey f ((unshared s f).writing f) = _ := writeBack_error hw
    have hstart : g.flush s = _ := flush_writing hf hsole
    exact ⟨_, hstart.trans (bind_error hback)⟩

/-- A guard that let go of its share, or never had one. -/
theorem flush_unheld {g : ReadPageGuard} (hf : g.frame = some f) (hheld : ¬ (s.shared.frames f).Held .read) :
    Raises g.flush s (fun e _ => e = .undefined) := by
  have hzero : (s.shared.frames f).readers = 0 := by simpa [FrameHeader.Held] using hheld
  have hframe : FrameHeader.unlockRead (s.shared.frames f) = .error .undefined (s.shared.frames f) := by
    rw [FrameHeader.unlockRead, bind_ok get_ok, if_pos hzero]
    rfl
  have hunlock : BufferPoolManager.onShared (Shared.onFrame f FrameHeader.unlockRead) s =
      .error .undefined _ := zoom_error (Shared.onFrame_error hframe)
  have hstart : PageGuard.flush g s = _ := flush_read hf
  exact ⟨_, _, hstart.trans (bind_error hunlock), rfl⟩

theorem frame_of_flush (h : g.flush s = .ok () p) : ∃ f, g.frame = some f := by
  apply Option.ne_none_iff_exists'.mp
  intro hf
  cases kind <;>
  · obtain ⟨_, _, -, hrest⟩ := bind_eq_ok h
    rw [hf] at hrest
    cases hrest

/-- What a flush that returned has done. -/
theorem flush_cases (h : g.flush s = .ok () p) : ∃ f buffer eng, g.frame = some f ∧
    StorageEngine.writePage g.pgkey (s.shared.frames f).data s.storageEngine = .ok buffer eng ∧
    p = s.flushed f eng := by
  obtain ⟨f, hf⟩ := frame_of_flush h
  by_cases hsole : (s.shared.frames f).Sole kind
  · cases hw : StorageEngine.writePage g.pgkey (s.shared.frames f).data s.storageEngine with
    | ok buffer eng =>
      have hok := flush_ok hf hsole hw
      rw [h] at hok
      cases hok
      exact ⟨f, buffer, eng, hf, hw, rfl⟩
    | error e eng =>
      obtain ⟨t, herr⟩ := flush_error hf hsole hw
      rw [h] at herr
      cases herr
  · have hraises : Raises g.flush s (fun _ _ => True) := by
      by_cases hheld : (s.shared.frames f).Held kind
      · obtain ⟨e, t, he, -⟩ := flush_blocks hf hheld hsole
        exact ⟨e, t, he, trivial⟩
      · cases kind with
        | write => exact absurd trivial hsole
        | read =>
          obtain ⟨e, t, he, -⟩ := flush_unheld hf hheld
          exact ⟨e, t, he, trivial⟩
    exact absurd ⟨_, _, h, trivial⟩ (not_returns_of_raises (P := fun _ _ => True) hraises)

end PageGuard

/-! ### Runs in which guards flush -/

namespace PoolSession

open BufferPoolManager

variable {E : Type} [Evictor E] [Build]

/-- A run with what it remembers, in which guards flush their pages too. -/
inductive FlushRun (s₀ : PoolSession E) : Memory → PoolSession E → Prop where
  | start : FlushRun s₀ (fun _ => none) s₀
  | next {M : Memory} {s t : PoolSession E} {op : Op} {a : Option PageKey}
      (h : FlushRun s₀ M s) (hok : Kind M s op) (hnext : Next s op a t) :
      FlushRun s₀ (remember s M op a) t
  | flush {M : Memory} {s : PoolSession E} {kind : GuardKind} {g : PageGuard kind}
      {p : BufferPoolManager E} (h : FlushRun s₀ M s) (hg : some g ∈ s.vars kind)
      (hval : g.isValid = true) (hflush : g.flush s.pool = .ok () p) : FlushRun s₀ M ⟨p, s.vars⟩

variable {M : Memory} {s s₀ : PoolSession E} {kind : GuardKind} {g : PageGuard kind} {f n : Nat}
  {p : BufferPoolManager E} {eng : StorageEngine} {evictor : E} {T : StorageEngine.Tables}

/-- A run without them is one. -/
theorem MemoryRun.flushRun (h : MemoryRun Kind s₀ M s) : FlushRun s₀ M s := by
  induction h with
  | start => exact .start
  | next _ hok hnext ih => exact ih.next hok hnext

omit [Evictor E] [Build] in
theorem flushed_data (s : BufferPoolManager E) (x : Nat) :
    ((s.flushed f eng).shared.frames x).data = (s.shared.frames x).data := by
  by_cases hx : x = f
  · subst hx
    simp [BufferPoolManager.flushed, Shared.setFrame]
  · simp [BufferPoolManager.flushed, Shared.setFrame, hx]

omit [Evictor E] in
theorem Recalls.guardFlushed (h : Recalls M s) (hg : some g ∈ s.vars kind) (hval : g.isValid = true)
    (hflush : g.flush s.pool = .ok () p) : Recalls M ⟨p, s.vars⟩ := by
  obtain ⟨f, buffer, eng, hf, hw, rfl⟩ := PageGuard.flush_cases hflush
  have hmap := h.lookup hg hval hf
  exact h.repin (h.settled.quiet (quiet_flushed hw)) rfl (flushed_data _) h.bound fun hlatch =>
    (h.backed hlatch).flushed h.settled.partitioned h.shows (h.length f) hmap hw

/-- What such a run keeps. -/
structure Guarded (M : Memory) (s : PoolSession E) : Prop where
  recalls : Recalls M s
  owned : Owned s

theorem Guarded.next {op : Op} {a : Option PageKey} {t : PoolSession E} (h : Guarded M s)
    (hok : Kind M s op) (hnext : Next s op a t) : Guarded (remember s M op a) t := by
  have hunforced := hok.2.unforced
  exact ⟨h.recalls.next hok.1 hok.2 hnext, h.owned.settled.next hunforced hnext,
    h.owned.bound.next h.owned.settled hunforced hnext,
    exclusive_next h.owned.exclusive h.owned.settled hunforced hnext⟩

omit [Evictor E] in
theorem Guarded.flush (h : Guarded M s) (hg : some g ∈ s.vars kind) (hval : g.isValid = true)
    (hflush : g.flush s.pool = .ok () p) : Guarded M ⟨p, s.vars⟩ := by
  have hrecalls := h.recalls.guardFlushed hg hval hflush
  obtain ⟨f, buffer, eng, hf, hw, rfl⟩ := PageGuard.flush_cases hflush
  have hquiet : Quiet s.pool (s.pool.flushed f eng) := quiet_flushed hw
  exact ⟨hrecalls, hrecalls.settled, h.owned.bound.of_eq rfl rfl, fun hlatch =>
    (h.owned.exclusive hlatch).of_eq hquiet.writer hquiet.readers⟩

theorem FlushRun.guarded (h : FlushRun s₀ M s) (hs : Guarded (fun _ => none) s₀) : Guarded M s := by
  induction h with
  | start => exact hs
  | next _ hok hnext ih => exact ih.next hok hnext
  | flush _ hg hval hflush ih => exact ih.flush hg hval hflush

omit [Evictor E] [Build] in
theorem guarded_start (hkept : StorageEngine.Kept eng T) (hsize : eng.config.pageSize = pageSize) :
    Guarded (fun _ => none) (start (fresh n evictor eng)) :=
  ⟨recalls_start hkept hsize, owned_start n evictor eng⟩

omit [Evictor E] [Build] in
/-- A guard has its frame's latch. -/
theorem Guarded.held (h : Guarded M s) (hlatch : s.pool.shared.bpmLatch = false)
    (hg : some g ∈ s.vars kind) (hval : g.isValid = true) (hf : g.frame = some f) :
    (s.pool.shared.frames f).Held kind := by
  obtain ⟨i, hi⟩ := List.getElem?_of_mem hg
  have hpos := GuardVars.held_pos hi hval hf
  have hb := h.owned.settled.balanced hlatch
  cases kind with
  | read => exact hpos.trans_eq (hb.readers f).symm
  | write =>
    rw [← hb.writer] at hpos
    by_contra hw
    simp [FrameHeader.Held] at hw
    simp [hw] at hpos

omit [Evictor E] [Build] in
/-- It has the latch whole just when no other guard reads its page. -/
theorem Guarded.sole_iff (h : Guarded M s) (hlatch : s.pool.shared.bpmLatch = false)
    (hg : some g ∈ s.vars kind) (hval : g.isValid = true) (hf : g.frame = some f) :
    (s.pool.shared.frames f).Sole kind ↔ s.vars.guarding .read g.pgkey ≤ 1 := by
  have hmap := h.recalls.lookup hg hval hf
  have hheld := h.held hlatch hg hval hf
  have hread : s.vars.held .read f = _ := h.owned.bound.held_eq h.owned.settled hmap
  have hreaders := (h.owned.settled.balanced hlatch).readers f
  rw [← hread, ← hreaders]
  cases kind with
  | read =>
    have hpos : 0 < (s.pool.shared.frames f).readers := hheld
    have hwriter : (s.pool.shared.frames f).writer = false := by
      by_contra hw
      rw [Bool.not_eq_false] at hw
      rw [h.owned.exclusive hlatch f hw] at hpos
      omega
    simp only [FrameHeader.Sole, hwriter, and_true]
    omega
  | write =>
    simp only [FrameHeader.Sole, true_iff]
    rw [h.owned.exclusive hlatch f hheld]
    omega

/-- The guard's flush returns with the guard as it was and its frame clean, and what was last written to
its page is where the storage engine alone finds it. -/
def Flushes (M : Memory) (s : PoolSession E) (g : PageGuard kind) : Prop :=
  ∃ p content u, g.flush s.pool = .ok () p ∧ Quiet s.pool p ∧ M g.pgkey = some content ∧
    (∀ f, g.frame = some f → (p.shared.frames f).dirty = false) ∧
    StorageEngine.readPage g.pgkey [] p.storageEngine = .ok content u

omit [Evictor E] in
theorem Guarded.flushes (h : Guarded M s) (hlatch : s.pool.shared.bpmLatch = false)
    (hg : some g ∈ s.vars kind) (hval : g.isValid = true) (halone : s.vars.guarding .read g.pgkey ≤ 1) :
    Flushes M s g := by
  obtain ⟨f, hf, hmap⟩ := h.recalls.bound kind g hg hval
  have hmem : M g.pgkey = some (s.pool.shared.frames f).data := h.recalls.shows _ f hmap
  obtain ⟨hsize, T, hkept, hpages⟩ := h.recalls.backed hlatch
  obtain ⟨page, hpage, -⟩ := hpages _ _ hmem
  obtain ⟨buffer, eng, hw⟩ := hkept.writable hpage ((h.recalls.length f).trans hsize.symm)
  have hflush := PageGuard.flush_ok hf ((h.sole_iff hlatch hg hval hf).mpr halone) hw
  have hclean : ((s.pool.flushed f eng).shared.frames f).dirty = false := by
    simp [BufferPoolManager.flushed, Shared.setFrame]
  have hafter := h.flush hg hval hflush
  obtain ⟨u, hu⟩ := readable_of_backed (hafter.recalls.backed hlatch) hmem fun x hx => by
    rw [Option.some_inj.mp (hx.symm.trans hmap)]
    exact hclean
  refine ⟨_, _, u, hflush, quiet_flushed hw, hmem, fun x hx => ?_, hu⟩
  rw [Option.some_inj.mp (hx.symm.trans hf)]
  exact hclean

/-- Guards that flush are not seen, and a guard flushes just when no other guard reads its page. When one
does, the flush does not come back. -/
theorem run_guards_flush (hkept : StorageEngine.Kept eng T) (hsize : eng.config.pageSize = pageSize)
    (h : FlushRun (start (fresh n evictor eng)) M s) :
    Transparent M s ∧ (s.pool.shared.bpmLatch = false → ∀ kind (g : PageGuard kind),
      some g ∈ s.vars kind → g.isValid = true →
      (s.vars.guarding .read g.pgkey ≤ 1 → Flushes M s g) ∧
      (1 < s.vars.guarding .read g.pgkey → Raises g.flush s.pool (fun e _ => e = .diverges))) := by
  have hguarded := h.guarded (guarded_start hkept hsize)
  refine ⟨fun g hg hval => ?_, fun hlatch kind g hg hval => ⟨hguarded.flushes hlatch hg hval, ?_⟩⟩
  · obtain ⟨f, hf, hmap⟩ := hguarded.recalls.bound .read g hg hval
    exact ⟨f, hf, hguarded.recalls.shows _ f hmap⟩
  · intro hothers
    obtain ⟨f, hf, -⟩ := hguarded.recalls.bound kind g hg hval
    refine PageGuard.flush_blocks hf (hguarded.held hlatch hg hval hf) fun hsole => ?_
    have halone := (hguarded.sole_iff hlatch hg hval hf).mp hsole
    omega

omit [Build] in
/-- A page that was overwritten is read and written back. -/
theorem run_guards_flush_written : ∃ (_ : Build) (eng : StorageEngine) (data : List Byte)
    (t : PoolSession LRUKEvictor), FlushRun (start (initial 1 eng)) (written data) t ∧
      some (⟨(1, 1), some 0, true⟩ : ReadPageGuard) ∈ t.vars .read ∧
      Flushes (written data) t (⟨(1, 1), some 0, true⟩ : ReadPageGuard) := by
  let _ : Build := ⟨false⟩
  generalize hdata : List.replicate pageSize (1 : Byte) = data
  have hlen : data.length = pageSize := by rw [← hdata, List.length_replicate]
  obtain ⟨eng, T, eng₁, page, hkept, hsize, hrun⟩ :=
    memoryRun_written ({ k := evictorK } : LRUKEvictor) hlen
  have hget : getPage .read (1, 1) (overwrittenOnce ({ k := evictorK } : LRUKEvictor) data page eng₁).pool = _ :=
    getPage_hit rfl (AList.lookup_insert _) Nat.one_pos rfl
  have hread := (hrun.next (kind_getPage (Function.update_self ..) (AList.lookup_insert _))
    (next_getPage hget)).flushRun
  have hmem := List.mem_singleton_self (some (⟨(1, 1), some 0, true⟩ : ReadPageGuard))
  exact ⟨⟨false⟩, eng, data, _, hread, hmem,
    ((run_guards_flush hkept hsize hread).2 rfl .read _ hmem rfl).1 (Nat.le_refl 1)⟩

/-! ### Guards that were dropped -/

section Dropped

variable {g : WritePageGuard} {key : PageKey} {content : List Byte}

/-- `flush` does not look at `is_valid`. A write guard whose frame has another page by now was dropped, and
its flush puts that page's bytes over those of its own page, and marks that page clean though the storage
has it as before. -/
theorem dropped_guard_flushes (hkept : StorageEngine.Kept eng T) (hsize : eng.config.pageSize = pageSize)
    (h : FlushRun (start (fresh n evictor eng)) M s) (hlatch : s.pool.shared.bpmLatch = false)
    (hg : some g ∈ s.vars .write) (hf : g.frame = some f) (hkey : s.pool.frameTable.lookup key = some f)
    (hne : key ≠ g.pgkey) (hmem : M g.pgkey = some content) :
    g.isValid = false ∧ ∃ p data u, PageGuard.flush g s.pool = .ok () p ∧ M key = some data ∧
      StorageEngine.readPage g.pgkey [] p.storageEngine = .ok data u ∧
      (p.shared.frames f).dirty = false ∧ ∃ stored v w,
        StorageEngine.readPage key [] s.pool.storageEngine = .ok stored v ∧
        StorageEngine.readPage key [] p.storageEngine = .ok stored w := by
  have hguarded := h.guarded (guarded_start hkept hsize)
  have hrecalls := hguarded.recalls
  constructor
  · by_contra hval
    rw [Bool.not_eq_false] at hval
    exact hne (hrecalls.settled.partitioned.injective hkey (hrecalls.lookup hg hval hf))
  · have hdata : M key = some (s.pool.shared.frames f).data := hrecalls.shows key f hkey
    obtain ⟨hpages, T', hkept', hbacked⟩ := hrecalls.backed hlatch
    obtain ⟨page, hpage, -⟩ := hbacked _ _ hmem
    obtain ⟨stored, hstored, -⟩ := hbacked _ _ hdata
    have hlen := (hrecalls.length f).trans hpages.symm
    obtain ⟨buffer, eng', hw⟩ := hkept'.writable hpage hlen
    obtain ⟨T'', hkept'', -, hself, hother⟩ := hkept'.writes hpage hlen hw
    obtain ⟨u, hu, -⟩ := hkept''.readable hself
    obtain ⟨v, hv, -⟩ := hkept'.readable hstored
    obtain ⟨w, hw', -⟩ := hkept''.readable ((hother key hne).trans hstored)
    have hclean : ((s.pool.flushed f eng').shared.frames f).dirty = false := by
      simp [BufferPoolManager.flushed, Shared.setFrame]
    exact ⟨_, _, u, PageGuard.flush_ok hf trivial hw, hdata, hu, hclean, stored, v, w, hv, hw'⟩

/-- A storage engine that makes a page, stores it, and makes another. -/
theorem exists_stores {data : List Byte} (hlen : data.length = pageSize) :
    ∃ eng T, StorageEngine.Kept eng T ∧ eng.config = {} ∧
      StorageEngine.Op.Allowed eng (.allocatePage 1) ∧ ∃ eng₁ eng₂ eng₃ eng₄ eng₅ buffer,
        StorageEngine.allocatePage 1 eng = .ok (1, 1) eng₁ ∧
        StorageEngine.readPage (1, 1) [] eng₁ = .ok (StorageEngine.zeros {}) eng₂ ∧
        StorageEngine.writePage (1, 1) data eng₂ = .ok buffer eng₃ ∧
        StorageEngine.Op.Allowed eng₃ (.allocatePage 1) ∧
        StorageEngine.allocatePage 1 eng₃ = .ok (1, 2) eng₄ ∧
        StorageEngine.readPage (1, 2) [] eng₄ = .ok (StorageEngine.zeros {}) eng₅ := by
  have hreach : ∀ p ≤ 2, StorageEngine.InReach {} p := by
    unfold StorageEngine.InReach
    decide
  obtain ⟨eng, first, hkept, hconfig⟩ := StorageEngine.exists_kept
    (show 1 ≤ ({} : EngineConfig).segmentSize by decide) (by decide) 1 0
    (by unfold StorageEngine.InReach; decide)
  have hreach₁ : StorageEngine.InReach eng.config 1 := hconfig ▸ hreach 1 (by decide)
  obtain ⟨_, eng₁, halloc, rfl, hkept₁, hconfig₁⟩ :=
    StorageEngine.allocatePage_ok hkept (Function.update_self ..) hreach₁
  obtain ⟨eng₂, hread, hkept₂, hconfig₂⟩ := hkept₁.readable
    (show StorageEngine.Tables.page _ (1, 1) = some (StorageEngine.zeros eng.config) by
      simp [StorageEngine.Tables.page])
  have hsame : eng₂.config = {} := hconfig₂.trans (hconfig₁.trans hconfig)
  obtain ⟨buffer, eng₃, hwrite, -, hkept₃, hconfig₃⟩ := StorageEngine.writePage_ok (p := 1) hkept₂
    (Function.update_self ..) (by simp) (hlen.trans (congrArg EngineConfig.pageSize hsame).symm)
  have hreach₂ : StorageEngine.InReach eng₃.config 2 := by
    rw [hconfig₃, hsame]
    exact hreach 2 le_rfl
  obtain ⟨_, eng₄, halloc', rfl, hkept₄, hconfig₄⟩ :=
    StorageEngine.allocatePage_ok hkept₃ (Function.update_self ..) hreach₂
  obtain ⟨eng₅, hread', -⟩ := hkept₄.readable
    (show StorageEngine.Tables.page _ (1, 2) = some (StorageEngine.zeros eng₃.config) by
      simp [StorageEngine.Tables.page])
  rw [hconfig] at hread
  rw [hconfig₃, hsame] at hread'
  exact ⟨eng, _, hkept, hconfig, StorageEngine.allowed_allocatePage hkept (Function.update_self ..) hreach₁,
    eng₁, eng₂, eng₃, eng₄, eng₅, buffer, halloc, hread, hwrite,
    StorageEngine.allowed_allocatePage hkept₃ (Function.update_self ..) hreach₂, halloc', hread'⟩

/-- A page that nothing holds goes, and a new one takes its frame. -/
theorem FlushRun.replaced {tblId : Nat} {pgkey : PageKey} {buffer : List Byte} {eng₁ eng₂ : StorageEngine}
    (h : FlushRun s₀ M s) (hlatch : s.pool.shared.bpmLatch = false)
    (hmap : s.pool.frameTable.lookup key = some f) (hpins : (s.pool.shared.frames f).pins = 0)
    (hclean : (s.pool.shared.frames f).dirty = false) (hmem : M key ≠ none) (hlist : s.pool.freeList = [])
    (hf : f < s.pool.numFrames) (hcount : Counted (s.pool.freed key f))
    (hroom : StorageEngine.Op.Allowed s.pool.storageEngine (.allocatePage tblId))
    (halloc : StorageEngine.allocatePage tblId s.pool.storageEngine = .ok pgkey eng₁)
    (hread : StorageEngine.readPage pgkey [] eng₁ = .ok buffer eng₂) (hlen : pageSize ≤ buffer.length) :
    ∃ t, FlushRun s₀ (Function.update M pgkey (some (List.replicate pageSize 0))) t ∧ t.vars = s.vars ∧
      t.pool.shared.bpmLatch = false ∧ t.pool.frameTable.lookup pgkey = some f := by
  have hevict : evictPage key s.pool = .ok true (s.pool.freed key f) := evictPage_freed hlatch hmap hf hpins
  have hgone : Next s (.evictPage key) none ⟨s.pool.freed key f, s.vars⟩ :=
    .inl (bind_ok (onPool_ok hevict))
  have hkind : Kind M s (.evictPage key) := by
    refine ⟨hmem, fun hv => hv.1, fun x hx _ => ?_⟩
    rw [Option.some_inj.mp (hx.symm.trans hmap)]
    exact hclean
  have hfree : (s.pool.freed key f).freeList = [f] := by simp [BufferPoolManager.freed, hlist]
  have hnew : newPage tblId (s.pool.freed key f) = _ :=
    newPage_made hlatch (.free (by simp [hfree])) hcount halloc hread hfree hf hlen
  have hmade : Next ⟨s.pool.freed key f, s.vars⟩ (.newPage tblId) (some pgkey) ⟨_, s.vars⟩ :=
    .inl (onPool_ok hnew)
  have hkind' : Kind M ⟨s.pool.freed key f, s.vars⟩ (.newPage tblId) :=
    ⟨trivial, fun hv => absurd hv.2.1 (by simp [hfree]), hroom⟩
  exact ⟨_, (h.next hkind hgone).next hkind' hmade, rfl, hlatch, AList.lookup_insert _⟩

/-- What is remembered of two pages that were made one after the other, the first overwritten. -/
def rewritten (data : List Byte) : Memory :=
  Function.update (written data) (1, 2) (some (List.replicate pageSize 0))

/-- A page is made, overwritten, flushed through its guard and evicted, and another takes its frame. -/
theorem flushRun_rewritten {data : List Byte} (evictor : E) (hlen : data.length = pageSize) :
    ∃ eng T s, StorageEngine.Kept eng T ∧ eng.config.pageSize = pageSize ∧
      FlushRun (start (fresh 1 evictor eng)) (rewritten data) s ∧ s.pool.shared.bpmLatch = false ∧
      some (⟨(1, 1), some 0, false⟩ : WritePageGuard) ∈ s.vars .write ∧
      s.pool.frameTable.lookup (1, 2) = some 0 := by
  obtain ⟨eng, T, hkept, hconfig, hroom, eng₁, eng₂, eng₃, eng₄, eng₅, buffer, halloc, hread, hwrite, hroom',
    halloc', hread'⟩ := exists_stores hlen
  have hover := (memoryRun_overwriting evictor hlen hroom halloc hread length_zeros).flushRun
  have hflush := hover.flush (g := (⟨(1, 1), some 0, true⟩ : WritePageGuard)) List.mem_cons_self rfl
    (PageGuard.flush_ok (f := 0) rfl trivial hwrite)
  have hdrop : FlushRun (start (fresh 1 evictor eng)) (written data) _ :=
    hflush.next kind_drop (next_drop rfl (PageGuard.drop_ok rfl Nat.one_pos rfl))
  obtain ⟨t, hreplaced, hvars, hlatch, hmap⟩ := hdrop.replaced (f := 0) rfl
    (show AList.lookup (1, 1) _ = some 0 from AList.lookup_insert _) rfl rfl (by simp [written]) rfl
    Nat.one_pos (.inr ⟨rfl, Nat.one_pos⟩) hroom' halloc' hread' length_zeros
  refine ⟨eng, T, t, hkept, congrArg EngineConfig.pageSize hconfig, hreplaced, hlatch, ?_, hmap⟩
  rw [hvars]
  exact List.mem_singleton_self _

omit [Build] in
/-- The first page's bytes are gone. -/
theorem dropped_guard_flushes_rewritten : ∃ (_ : Build) (eng : StorageEngine) (data : List Byte)
    (s : PoolSession LRUKEvictor), data ≠ List.replicate pageSize 0 ∧
      FlushRun (start (initial 1 eng)) (rewritten data) s ∧ rewritten data (1, 1) = some data ∧ ∃ p u,
      PageGuard.flush (⟨(1, 1), some 0, false⟩ : WritePageGuard) s.pool = .ok () p ∧
      StorageEngine.readPage (1, 1) [] p.storageEngine = .ok (List.replicate pageSize 0) u := by
  let _ : Build := ⟨false⟩
  generalize hdata : List.replicate pageSize (1 : Byte) = data
  have hlen : data.length = pageSize := by rw [← hdata, List.length_replicate]
  obtain ⟨eng, T, s, hkept, hsize, hrun, hlatch, hg, hmap⟩ :=
    flushRun_rewritten ({ k := evictorK } : LRUKEvictor) hlen
  have hmem : rewritten data (1, 1) = some data := by simp [rewritten, written]
  obtain ⟨-, p, zeros, u, hflush, hzeros, hread, -⟩ :=
    dropped_guard_flushes hkept hsize hrun hlatch hg rfl hmap (by decide) hmem
  obtain rfl : List.replicate pageSize 0 = zeros := by simpa [rewritten] using hzeros
  refine ⟨⟨false⟩, eng, data, s, fun hblank => ?_, hrun, hmem, p, u, hflush, hread⟩
  rw [← hdata] at hblank
  exact absurd ((List.replicate_inj.mp hblank).2.resolve_left (by decide)) (by decide)

end Dropped

end PoolSession

end Cpplite
