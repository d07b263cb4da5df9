import Cpplite.BufferPool.PoolSpec
import Cpplite.Storage.PageNumbers

/-!
Runs of a buffer pool with the guards it hands out, and the frames through them.

A frame is free or holds one page. That is so as long as nothing is evicted to make room: a victim
goes to the free list and stays in the frame table.
-/
namespace Cpplite

open Exec

/-! ### A program with a pool -/

structure PoolSession (E : Type) where
  pool : BufferPoolManager E
  vars : GuardVars

abbrev PoolSessionM (E : Type) := EStateM Error (PoolSession E)

namespace WritePageGuard

/-- `get_data_mut`, and all of the page written through it. -/
def overwrite {E : Type} [Build] (this : WritePageGuard) (data : List Byte) : SharedM E Unit := do
  assert (this.frame ≠ none)
  match this.frame with
  | none => throw .undefined
  | some frameId => do
    Shared.onFrame frameId (FrameHeader.setDirty true)
    Shared.onFrame frameId (modify fun frame => { frame with data })

end WritePageGuard

namespace PoolSession

variable {E α : Type} {kind : GuardKind}

def onPool (x : PoolM E α) : PoolSessionM E α :=
  zoom (·.pool) (fun pool s => { s with pool }) x

def onShared (x : SharedM E α) : PoolSessionM E α := onPool (BufferPoolManager.onShared x)

/-- A variable, which must be alive. -/
def read (kind : GuardKind) (i : Nat) : PoolSessionM E (PageGuard kind) := do
  let s ← get
  match (s.vars kind)[i]? with
  | some (some guard) => return guard
  | _ => throw .undefined

def declare (guard : PageGuard kind) : PoolSessionM E Unit :=
  modify fun s => { s with vars := s.vars.declare guard }

def assign (i : Nat) (guard : Option (PageGuard kind)) : PoolSessionM E Unit :=
  modify fun s => { s with vars := s.vars.assign i guard }

inductive Op where
  | newPage (tblId : Nat)
  /-- `read_page` or `write_page`. -/
  | getPage (kind : GuardKind) (pgkey : PageKey)
  | drop (kind : GuardKind) (i : Nat)
  | overwrite (i : Nat) (data : List Byte)
  | evictPage (pgkey : PageKey)
  | flushPage (pgkey : PageKey)
  | flushAllPages

variable [Evictor E] [Build]

/-- An operation, with the page that it made or gave a valid guard for. -/
def run : Op → PoolSessionM E (Option PageKey)
  | .newPage tblId => onPool (BufferPoolManager.newPage tblId)
  | .getPage kind pgkey => do
    let guard ← onPool (BufferPoolManager.getPage kind pgkey)
    declare guard
    return if guard.isValid then some pgkey else none
  | .drop kind i => do
    let guard ← read kind i
    let guard ← onShared guard.drop
    assign i (some guard)
    return none
  | .overwrite i data => do
    let guard ← read .write i
    onShared (WritePageGuard.overwrite guard data)
    return none
  | .evictPage pgkey => do
    let _ ← onPool (BufferPoolManager.evictPage pgkey)
    return none
  | .flushPage pgkey => do
    let _ ← onPool (BufferPoolManager.flushPage pgkey)
    return none
  | .flushAllPages => do
    onPool BufferPoolManager.flushAllPages
    return none

/-- The program goes on after the operation: it returned, or the exception is caught. -/
def Next (s : PoolSession E) (op : Op) (a : Option PageKey) (t : PoolSession E) : Prop :=
  run op s = .ok a t ∨ a = none ∧ ∃ e, e.Thrown ∧ run op s = .error e t

end PoolSession

/-! ### Frames that keep their pages -/

namespace BufferPoolManager

variable {E : Type} {s t u : BufferPoolManager E}

/-- The same pages in the same frames, pinned as before, and no page forgotten. -/
structure Alike (s t : BufferPoolManager E) : Prop where
  numFrames : t.numFrames = s.numFrames
  frameTable : t.frameTable = s.frameTable
  freeList : t.freeList = s.freeList
  evictor : t.shared.evictor = s.shared.evictor
  pins : ∀ f, (t.shared.frames f).pins = (s.shared.frames f).pins

/-- And the latches are held as before. -/
structure Quiet (s t : BufferPoolManager E) : Prop extends Alike s t where
  latch : t.shared.bpmLatch = s.shared.bpmLatch
  readers : ∀ f, (t.shared.frames f).readers = (s.shared.frames f).readers
  writer : ∀ f, (t.shared.frames f).writer = (s.shared.frames f).writer
  grows : StorageEngine.Grows s.storageEngine t.storageEngine

theorem Alike.refl : Alike s s := ⟨rfl, rfl, rfl, rfl, fun _ => rfl⟩

theorem Alike.trans (h : Alike s t) (h' : Alike t u) : Alike s u :=
  ⟨h'.numFrames.trans h.numFrames, h'.frameTable.trans h.frameTable, h'.freeList.trans h.freeList,
    h'.evictor.trans h.evictor, fun f => (h'.pins f).trans (h.pins f)⟩

theorem Quiet.refl : Quiet s s := ⟨.refl, rfl, fun _ => rfl, fun _ => rfl, .refl⟩

theorem Quiet.trans (h : Quiet s t) (h' : Quiet t u) : Quiet s u :=
  ⟨h.toAlike.trans h'.toAlike, h'.latch.trans h.latch, fun f => (h'.readers f).trans (h.readers f),
    fun f => (h'.writer f).trans (h.writer f), h.grows.trans h'.grows⟩

/-- A frame whose page or dirty bit changes. -/
theorem Quiet.setFrame {f : Nat} {frame : FrameHeader} {eng : StorageEngine}
    (hpins : frame.pins = (s.shared.frames f).pins)
    (hreaders : frame.readers = (s.shared.frames f).readers)
    (hwriter : frame.writer = (s.shared.frames f).writer)
    (hgrows : StorageEngine.Grows s.storageEngine eng) :
    Quiet s { s with shared := s.shared.setFrame f frame, storageEngine := eng } := by
  refine ⟨⟨rfl, rfl, rfl, rfl, ?_⟩, rfl, ?_, ?_, hgrows⟩ <;>
    · intro g
      by_cases hg : g = f
      · subst hg
        simp [Shared.setFrame, hpins, hreaders, hwriter]
      · simp [Shared.setFrame, hg]

/-- Mapped frames written back one after the other. -/
inductive WrittenBack [Build] : BufferPoolManager E → List (PageKey × Nat) → BufferPoolManager E → Prop
  | nil (s : BufferPoolManager E) : WrittenBack s [] s
  | cons {s t : BufferPoolManager E} {pgkey : PageKey} {f : Nat} {rest : List (PageKey × Nat)}
      {buffer : List Byte} {eng : StorageEngine} (hlatch : (s.shared.frames f).Free .write)
      (hw : StorageEngine.writePage pgkey (s.shared.frames f).data s.storageEngine = .ok buffer eng)
      (hrest : WrittenBack (s.flushed f eng) rest t) : WrittenBack s ((pgkey, f) :: rest) t

theorem quiet_flushed [Build] {f : Nat} {pgkey : PageKey} {data buffer : List Byte}
    {eng : StorageEngine} (hw : StorageEngine.writePage pgkey data s.storageEngine = .ok buffer eng) :
    Quiet s (s.flushed f eng) :=
  .setFrame rfl rfl rfl (StorageEngine.writePage_grows hw)

theorem WrittenBack.quiet [Build] {l : List (PageKey × Nat)} (h : WrittenBack s l t) : Quiet s t := by
  induction h with
  | nil s => exact .refl
  | cons _ hw _ ih => exact (quiet_flushed hw).trans ih

theorem WrittenBack.data [Build] {l : List (PageKey × Nat)} (h : WrittenBack s l t) (f : Nat) :
    (t.shared.frames f).data = (s.shared.frames f).data := by
  induction h with
  | nil s => rfl
  | @cons s t pgkey g rest buffer eng _ _ _ ih =>
    rw [ih]
    by_cases hf : f = g
    · subst hf
      simp [flushed, Shared.setFrame]
    · simp [flushed, Shared.setFrame, hf]

/-- An exception in the middle. -/
structure Broken (s t : BufferPoolManager E) : Prop extends Alike s t where
  latch : t.shared.bpmLatch = s.shared.bpmLatch
  data : ∀ f, (t.shared.frames f).data = (s.shared.frames f).data

theorem flushFrames_cases [Build] (l : List (PageKey × Nat)) (s : BufferPoolManager E) :
    (∃ t, l.forM (fun e => flushFrame e.1 e.2) s = .ok ⟨⟩ t ∧ WrittenBack s l t) ∨
    (∃ e t, l.forM (fun e => flushFrame e.1 e.2) s = .error e t ∧ Broken s t) ∨
    Raises (l.forM fun e => flushFrame e.1 e.2) s (fun e _ => ¬ e.Thrown) := by
  induction l generalizing s with
  | nil => exact .inl ⟨s, rfl, .nil s⟩
  | cons entry l ih =>
    obtain ⟨pgkey, f⟩ := entry
    rcases flushFrame_cases pgkey f s with ⟨buffer, eng, -, hfree, hw, hok⟩ | ⟨e, eng, hw, herr⟩ | hfatal
    · have hstep : ((pgkey, f) :: l).forM (fun e => flushFrame e.1 e.2) s =
          l.forM (fun e => flushFrame e.1 e.2) (s.flushed f eng) := bind_ok hok
      have hquiet := quiet_flushed (f := f) hw
      rcases ih (s.flushed f eng) with ⟨t, ht, hwb⟩ | ⟨e, t, ht, hbroken⟩ | hfatal
      · exact .inl ⟨t, hstep.trans ht, .cons hfree hw hwb⟩
      · refine .inr (.inl ⟨e, t, hstep.trans ht, hquiet.toAlike.trans hbroken.toAlike,
          hbroken.latch.trans hquiet.latch, fun g => (hbroken.data g).trans ?_⟩)
        exact (WrittenBack.cons hfree hw (.nil _)).data g
      · refine .inr (.inr ?_)
        rw [Raises, hstep]
        exact hfatal
    · refine .inr (.inl ⟨e, _, bind_error herr, ⟨rfl, rfl, rfl, rfl, fun g => ?_⟩, rfl, fun g => ?_⟩) <;>
        · by_cases hg : g = f
          · subst hg
            simp [Shared.setFrame]
          · simp [Shared.setFrame, hg]
    · exact .inr (.inr hfatal.bind_left)

section Flush

variable [Build]

/-- Both flushes, which take `bpm_latch_` and write mapped frames back. -/
theorem flush_cases {l : List (PageKey × Nat)} {α : Type} {b : α} {x : PoolM E α}
    (hx : x s = (do
      l.forM fun e => flushFrame e.1 e.2
      onShared Shared.unlock
      return b : PoolM E α) (s.latched true)) :
    (∃ t, x s = .ok b t ∧ WrittenBack (s.latched true) l (t.latched true) ∧
      t.shared.bpmLatch = false) ∨
    (∃ e t, x s = .error e t ∧ Broken (s.latched true) t) ∨ Raises x s (fun e _ => ¬ e.Thrown) := by
  rcases flushFrames_cases l (s.latched true) with ⟨t, ht, hwb⟩ | ⟨e, t, ht, hbroken⟩ | hfatal
  · have hlatch : t.shared.bpmLatch = true := hwb.quiet.latch
    have hsame : (t.latched false).latched true = t := by
      simp only [latched, ← hlatch]
    refine .inl ⟨t.latched false, hx.trans ((bind_ok ht).trans ?_), by rwa [hsame], rfl⟩
    have hunlock : onShared Shared.unlock t = .ok () (t.latched false) := zoom_ok (Shared.unlock_ok hlatch)
    exact bind_ok hunlock
  · exact .inr (.inl ⟨e, t, hx.trans (bind_error ht), hbroken⟩)
  · refine .inr (.inr ?_)
    rw [Raises, hx]
    exact hfatal.bind_left

variable (h : s.shared.bpmLatch = false)
include h

theorem flushPage_cases (pgkey : PageKey) :
    (∃ r t l, flushPage pgkey s = .ok r t ∧ WrittenBack (s.latched true) l (t.latched true) ∧
      t.shared.bpmLatch = false ∧ (∀ e ∈ l, s.frameTable.lookup e.1 = some e.2) ∧
      (r = true → ∃ f, l = [(pgkey, f)])) ∨
    (∃ e t, flushPage pgkey s = .error e t ∧ Broken (s.latched true) t) ∨
    Raises (flushPage pgkey) s (fun e _ => ¬ e.Thrown) := by
  have hstart : flushPage pgkey s = _ := bind_ok (onShared_lock h)
  rw [bind_ok get_ok] at hstart
  cases hmap : s.frameTable.lookup pgkey with
  | none =>
    have hlook : (s.latched true).frameTable.lookup pgkey = none := hmap
    rw [hlook] at hstart
    exact .inl ⟨false, s, [], hstart.trans (bind_ok (unlock_latched h)), .nil _, h, by simp, by simp⟩
  | some f =>
    have hlook : (s.latched true).frameTable.lookup pgkey = some f := hmap
    rw [hlook] at hstart
    have hx : flushPage pgkey s = (do
        [(pgkey, f)].forM fun e => flushFrame e.1 e.2
        onShared Shared.unlock
        return true : PoolM E Bool) (s.latched true) := by
      rw [hstart]
      simp [List.forM_cons]
    rcases flush_cases hx with ⟨t, ht, hwb, hlatch⟩ | hrest
    · exact .inl ⟨true, t, _, ht, hwb, hlatch, by simpa using hmap, fun _ => ⟨f, rfl⟩⟩
    · exact .inr hrest

theorem flushPage_ok {pgkey : PageKey} {f : Nat} {buffer : List Byte} {eng : StorageEngine}
    (hmap : s.frameTable.lookup pgkey = some f) (hf : f < s.numFrames)
    (hfree : (s.shared.frames f).Free .write)
    (hw : StorageEngine.writePage pgkey (s.shared.frames f).data s.storageEngine = .ok buffer eng) :
    flushPage pgkey s = .ok true (s.flushed f eng) := by
  have hstart : flushPage pgkey s = _ := bind_ok (onShared_lock h)
  have hlook : (s.latched true).frameTable.lookup pgkey = some f := hmap
  have hflush : flushFrame pgkey f (s.latched true) = .ok () ((s.flushed f eng).latched true) :=
    flushFrame_ok (s := s.latched true) hf hfree hw
  have hunlock : onShared Shared.unlock ((s.flushed f eng).latched true) = .ok () (s.flushed f eng) :=
    unlock_latched (s := s.flushed f eng) h
  rw [bind_ok get_ok, hlook] at hstart
  exact hstart.trans ((bind_ok hflush).trans (bind_ok hunlock))

theorem flushAllPages_cases :
    (∃ t, flushAllPages s = .ok () t ∧ WrittenBack (s.latched true) s.mapped (t.latched true) ∧
      t.shared.bpmLatch = false) ∨
    (∃ e t, flushAllPages s = .error e t ∧ Broken (s.latched true) t) ∨
    Raises flushAllPages s (fun e _ => ¬ e.Thrown) := by
  have hstart : flushAllPages s = _ := bind_ok (onShared_lock h)
  rw [bind_ok get_ok] at hstart
  refine flush_cases (hstart.trans ?_)
  rw [bind_pure_unit]
  rfl

end Flush

end BufferPoolManager

/-! ### Steps -/

/-- A page is written through a guard. -/
def BufferPoolManager.overwritten {E : Type} (s : BufferPoolManager E) (f : Nat) (data : List Byte) :
    BufferPoolManager E :=
  { s with shared := s.shared.setFrame f { s.shared.frames f with dirty := true, data := data } }

namespace PoolSession

open BufferPoolManager

variable {E : Type} [Evictor E] [Build] {s t : PoolSession E} {op : Op} {a : Option PageKey}

/-- How an operation returns. -/
inductive Step (s : PoolSession E) : Op → Option PageKey → PoolSession E → Prop where
  | made {tblId : Nat} {r : Option PageKey} {p : BufferPoolManager E}
      (hlatch : s.pool.shared.bpmLatch = false) (h : MadePage s.pool tblId r p) :
      Step s (.newPage tblId) r ⟨p, s.vars⟩
  | got {kind : GuardKind} {pgkey : PageKey} {g : PageGuard kind} {p : BufferPoolManager E}
      (hlatch : s.pool.shared.bpmLatch = false) (h : GotPage s.pool kind pgkey g p) :
      Step s (.getPage kind pgkey) (if g.isValid then some pgkey else none) ⟨p, s.vars.declare g⟩
  | released {kind : GuardKind} {i f : Nat} {g : PageGuard kind}
      (hlatch : s.pool.shared.bpmLatch = false) (hi : (s.vars kind)[i]? = some (some g))
      (hval : g.isValid = true) (hf : g.frame = some f) :
      Step s (.drop kind i) none ⟨{ s.pool with shared := s.pool.shared.released kind f },
        s.vars.assign i (some ({ g with isValid := false } : PageGuard kind))⟩
  | dropped {kind : GuardKind} {i : Nat} {g : PageGuard kind}
      (hi : (s.vars kind)[i]? = some (some g)) (hval : g.isValid = false) :
      Step s (.drop kind i) none ⟨s.pool, s.vars.assign i (some g)⟩
  | overwritten {i f : Nat} {data : List Byte} {g : WritePageGuard}
      (hi : (s.vars .write)[i]? = some (some g)) (hf : g.frame = some f) :
      Step s (.overwrite i data) none ⟨s.pool.overwritten f data, s.vars⟩
  | evicted {pgkey : PageKey} {r : Bool} {p : BufferPoolManager E}
      (hlatch : s.pool.shared.bpmLatch = false) (h : Evicted s.pool pgkey r p) :
      Step s (.evictPage pgkey) none ⟨p, s.vars⟩
  | flushed {pgkey : PageKey} {l : List (PageKey × Nat)} {p : BufferPoolManager E}
      (hlatch : s.pool.shared.bpmLatch = false) (hlatch' : p.shared.bpmLatch = false)
      (h : WrittenBack (s.pool.latched true) l (p.latched true))
      (hmap : ∀ e ∈ l, s.pool.frameTable.lookup e.1 = some e.2) :
      Step s (.flushPage pgkey) none ⟨p, s.vars⟩
  | flushedAll {p : BufferPoolManager E}
      (hlatch : s.pool.shared.bpmLatch = false) (hlatch' : p.shared.bpmLatch = false)
      (h : WrittenBack (s.pool.latched true) s.pool.mapped (p.latched true)) :
      Step s .flushAllPages none ⟨p, s.vars⟩

/-- The operation has to find a frame for a page. -/
def NeedsFrame (s : PoolSession E) : Op → Prop
  | .newPage _ => True
  | .getPage _ pgkey => s.pool.frameTable.lookup pgkey = none
  | _ => False

/-- The storage does what the operation asks of it to fill a frame. -/
def StorageServes (s : PoolSession E) : Op → Prop
  | .newPage tblId => ∃ pgkey buffer eng₁ eng₂,
    StorageEngine.allocatePage tblId s.pool.storageEngine = .ok pgkey eng₁ ∧
      StorageEngine.readPage pgkey [] eng₁ = .ok buffer eng₂
  | .getPage _ pgkey => ∃ buffer eng,
    StorageEngine.readPage pgkey [] s.pool.storageEngine = .ok buffer eng
  | _ => True

/-- How an operation throws: the pages are where they were, or a frame was made free for one, and
`bpm_latch_` is not given back. -/
structure Threw (s : PoolSession E) (op : Op) (t : PoolSession E) : Prop where
  vars : t.vars = s.vars
  before : s.pool.shared.bpmLatch = false
  latch : t.pool.shared.bpmLatch = true
  storage : NeedsFrame s op → ¬ StorageServes s op
  data : ∀ f, (t.pool.shared.frames f).data = (s.pool.shared.frames f).data
  alike : ∃ p, (p = s.pool ∨ NeedsFrame s op ∧ Ensured s.pool p) ∧ Alike p t.pool

theorem Next.of_ok {a' : Option PageKey} {t' : PoolSession E} (h : Next s op a t)
    (hrun : run op s = .ok a' t') : a = a' ∧ t = t' := by
  rcases h with h | ⟨-, e, -, h⟩
  · rw [hrun] at h
    cases h
    exact ⟨rfl, rfl⟩
  · rw [hrun] at h
    cases h

theorem Next.of_error {e : Error} {t' : PoolSession E} (h : Next s op a t)
    (hrun : run op s = .error e t') : a = none ∧ t = t' ∧ e.Thrown := by
  rcases h with h | ⟨ha, e', he', h⟩
  · rw [hrun] at h
    cases h
  · rw [hrun] at h
    cases h
    exact ⟨ha, rfl, he'⟩

theorem Next.not_fatal (h : Next s op a t) : ¬ Raises (run op) s (fun e _ => ¬ e.Thrown) := by
  rintro ⟨e, u, hrun, hfatal⟩
  exact hfatal (h.of_error hrun).2.2

omit [Evictor E] [Build] in
theorem onPool_ok {α : Type} {x : PoolM E α} {b : α} {p : BufferPoolManager E}
    (h : x s.pool = .ok b p) : onPool x s = .ok b ⟨p, s.vars⟩ :=
  zoom_ok h

omit [Evictor E] [Build] in
theorem onPool_error {α : Type} {x : PoolM E α} {e : Error} {p : BufferPoolManager E}
    (h : x s.pool = .error e p) : onPool x s = .error e ⟨p, s.vars⟩ :=
  zoom_error h

theorem newPage_next {tblId : Nat} (h : Next s (.newPage tblId) a t)
    (hlatch : s.pool.shared.bpmLatch = false) :
    Step s (.newPage tblId) a t ∨ a = none ∧ Threw s (.newPage tblId) t := by
  rcases newPage_cases tblId hlatch with ⟨r, p, hok, hmade⟩ | ⟨e, eng, p, hens, hthrows, herr⟩ | ⟨e, u, he, hfatal⟩
  · have hrun : run (.newPage tblId) s = .ok r ⟨p, s.vars⟩ := onPool_ok hok
    obtain ⟨rfl, rfl⟩ := h.of_ok hrun
    exact .inl (.made hlatch hmade)
  · have hrun : run (.newPage tblId) s =
        .error e ⟨{ p with storageEngine := eng }.latched true, s.vars⟩ := onPool_error herr
    obtain ⟨ha, rfl, -⟩ := h.of_error hrun
    refine .inr ⟨ha, rfl, hlatch, rfl, fun _ => ?_, fun f => by simp [latched, hens.same.2.2.2.1],
      p, .inr ⟨trivial, hens⟩, rfl, rfl, rfl, rfl, fun _ => rfl⟩
    rintro ⟨pgkey, buffer, eng₁, eng₂, halloc, hread⟩
    rcases hthrows with hfail | ⟨pgkey', eng', halloc', hfail⟩
    · rw [halloc] at hfail
      cases hfail
    · rw [halloc] at halloc'
      cases halloc'
      rw [hread] at hfail
      cases hfail
  · exact absurd ⟨e, _, onPool_error he, hfatal⟩ h.not_fatal

theorem getPage_next {kind : GuardKind} {pgkey : PageKey} (h : Next s (.getPage kind pgkey) a t)
    (hlatch : s.pool.shared.bpmLatch = false) :
    Step s (.getPage kind pgkey) a t ∨ a = none ∧ Threw s (.getPage kind pgkey) t := by
  rcases getPage_cases kind pgkey hlatch with
    ⟨g, p, hok, hgot⟩ | ⟨e, eng, p, hmap, hens, hfail, herr⟩ | ⟨e, u, he, hfatal⟩
  · have hrun : run (.getPage kind pgkey) s = .ok (if g.isValid then some pgkey else none)
        ⟨p, s.vars.declare g⟩ := bind_ok (onPool_ok hok)
    obtain ⟨rfl, rfl⟩ := h.of_ok hrun
    exact .inl (.got hlatch hgot)
  · have hrun : run (.getPage kind pgkey) s =
        .error e ⟨{ p with storageEngine := eng }.latched true, s.vars⟩ :=
      bind_error (onPool_error herr)
    obtain ⟨ha, rfl, -⟩ := h.of_error hrun
    refine .inr ⟨ha, rfl, hlatch, rfl, fun _ => ?_, fun f => by simp [latched, hens.same.2.2.2.1],
      p, .inr ⟨hmap, hens⟩, rfl, rfl, rfl, rfl, fun _ => rfl⟩
    rintro ⟨buffer, eng', hread⟩
    rw [hread] at hfail
    cases hfail
  · exact absurd ⟨e, _, bind_error (onPool_error he), hfatal⟩ h.not_fatal

theorem evictPage_next {pgkey : PageKey} (h : Next s (.evictPage pgkey) a t)
    (hlatch : s.pool.shared.bpmLatch = false) : Step s (.evictPage pgkey) a t := by
  rcases evictPage_cases pgkey hlatch with ⟨r, p, hok, hev⟩ | ⟨e, u, he, hfatal⟩
  · have hrun : run (.evictPage pgkey) s = .ok none ⟨p, s.vars⟩ := bind_ok (onPool_ok hok)
    obtain ⟨rfl, rfl⟩ := h.of_ok hrun
    exact .evicted hlatch hev
  · exact absurd ⟨e, _, bind_error (onPool_error he), hfatal⟩ h.not_fatal

theorem threw_of_broken {p : BufferPoolManager E} (h : Broken (s.pool.latched true) p)
    (hlatch : s.pool.shared.bpmLatch = false) (hop : ¬ NeedsFrame s op) : Threw s op ⟨p, s.vars⟩ :=
  ⟨rfl, hlatch, h.latch, fun hneeds => absurd hneeds hop, h.data, s.pool, .inl rfl,
    h.numFrames, h.frameTable, h.freeList, h.evictor, h.pins⟩

theorem flushPage_next {pgkey : PageKey} (h : Next s (.flushPage pgkey) a t)
    (hlatch : s.pool.shared.bpmLatch = false) :
    Step s (.flushPage pgkey) a t ∨ a = none ∧ Threw s (.flushPage pgkey) t := by
  rcases flushPage_cases hlatch pgkey with
    ⟨r, p, l, hok, hwb, hlatch', hmap, -⟩ | ⟨e, p, herr, hbroken⟩ | ⟨e, u, he, hfatal⟩
  · have hrun : run (.flushPage pgkey) s = .ok none ⟨p, s.vars⟩ := bind_ok (onPool_ok hok)
    obtain ⟨rfl, rfl⟩ := h.of_ok hrun
    exact .inl (.flushed hlatch hlatch' hwb hmap)
  · have hrun : run (.flushPage pgkey) s = .error e ⟨p, s.vars⟩ := bind_error (onPool_error herr)
    obtain ⟨ha, rfl, -⟩ := h.of_error hrun
    exact .inr ⟨ha, threw_of_broken hbroken hlatch id⟩
  · exact absurd ⟨e, _, bind_error (onPool_error he), hfatal⟩ h.not_fatal

theorem flushAllPages_next (h : Next s .flushAllPages a t)
    (hlatch : s.pool.shared.bpmLatch = false) :
    Step s .flushAllPages a t ∨ a = none ∧ Threw s .flushAllPages t := by
  rcases flushAllPages_cases hlatch with
    ⟨p, hok, hwb, hlatch'⟩ | ⟨e, p, herr, hbroken⟩ | ⟨e, u, he, hfatal⟩
  · have hrun : run .flushAllPages s = .ok none ⟨p, s.vars⟩ := bind_ok (onPool_ok hok)
    obtain ⟨rfl, rfl⟩ := h.of_ok hrun
    exact .inl (.flushedAll hlatch hlatch' hwb)
  · have hrun : run .flushAllPages s = .error e ⟨p, s.vars⟩ := bind_error (onPool_error herr)
    obtain ⟨ha, rfl, -⟩ := h.of_error hrun
    exact .inr ⟨ha, threw_of_broken hbroken hlatch id⟩
  · exact absurd ⟨e, _, bind_error (onPool_error he), hfatal⟩ h.not_fatal

omit [Evictor E] [Build] in
theorem read_ok {kind : GuardKind} {i : Nat} {g : PageGuard kind}
    (h : (s.vars kind)[i]? = some (some g)) : read kind i s = .ok g s := by
  simp only [read, bind_ok get_ok, h]
  rfl

omit [Evictor E] [Build] in
/-- A variable that was read is alive. -/
theorem read_alive {α : Type} {kind : GuardKind} {i : Nat} {f : PageGuard kind → PoolSessionM E α}
    (h : ¬ Raises (read kind i >>= f) s (fun e _ => ¬ e.Thrown)) :
    ∃ g, (s.vars kind)[i]? = some (some g) := by
  by_contra hno
  refine h (Raises.bind_left ⟨.undefined, s, ?_, id⟩)
  unfold read
  rw [bind_ok get_ok]
  cases hi : (s.vars kind)[i]? with
  | none => rfl
  | some o =>
    cases o with
    | none => rfl
    | some g => exact absurd ⟨g, hi⟩ hno

theorem drop_next {kind : GuardKind} {i : Nat} (h : Next s (.drop kind i) a t)
    (hs : s.pool.shared.bpmLatch = false → Balanced s.pool.shared s.vars) :
    Step s (.drop kind i) a t := by
  obtain ⟨g, hi⟩ := read_alive h.not_fatal
  by_cases hval : g.isValid = true
  · by_cases hlatch : s.pool.shared.bpmLatch = true
    · refine absurd (.bind_eq (read_ok hi) (Raises.bind_left ?_)) h.not_fatal
      have hdrop : Raises g.drop s.pool.shared (fun e _ => ¬ e.Thrown) := by
        by_cases hf : g.frame = none
        · by_cases hb : Build.ndebug = true
          · refine .bind_eq (assert_ok (.inl hb)) ?_
            rw [if_pos hval, hf]
            exact raises_throw.mpr id
          · exact ⟨_, _, bind_error (assert_fails (by simpa using hb) (by simp [hf])), id⟩
        · obtain ⟨f, hf'⟩ := Option.ne_none_iff_exists'.mp hf
          refine .bind_eq (assert_ok (.inr hf)) ?_
          rw [if_pos hval, hf']
          exact ⟨_, _, bind_error (Shared.lock_blocks hlatch), id⟩
      obtain ⟨e, u, he, hfatal⟩ := hdrop
      exact ⟨e, _, onPool_error (zoom_error he), hfatal⟩
    · have hfree : s.pool.shared.bpmLatch = false := by simpa using hlatch
      obtain ⟨f, hf, hdrop⟩ := (hs hfree).drop hi hval
      have hon : onShared g.drop s = .ok { g with isValid := false }
          ⟨{ s.pool with shared := s.pool.shared.released kind f }, s.vars⟩ :=
        onPool_ok (zoom_ok hdrop)
      have hrun : run (.drop kind i) s = _ := (bind_ok (read_ok hi)).trans (bind_ok hon)
      obtain ⟨rfl, rfl⟩ := h.of_ok hrun
      exact .released hfree hi hval hf
  · have hfalse : g.isValid = false := by simpa using hval
    by_cases hf : Build.ndebug = true ∨ g.frame ≠ none
    · have hdrop : g.drop s.pool.shared = .ok g s.pool.shared := by
        rw [PageGuard.drop, bind_ok (assert_ok hf)]
        simp only [hval]
        rfl
      have hon : onShared g.drop s = .ok g s := onPool_ok (zoom_ok hdrop)
      have hrun : run (.drop kind i) s = _ := (bind_ok (read_ok hi)).trans (bind_ok hon)
      obtain ⟨rfl, rfl⟩ := h.of_ok hrun
      exact .dropped hi hfalse
    · simp only [not_or, Bool.not_eq_true, ne_eq, not_not] at hf
      refine absurd (.bind_eq (read_ok hi) (Raises.bind_left ?_)) h.not_fatal
      have hdrop : g.drop s.pool.shared = .error .assertion s.pool.shared :=
        bind_error (assert_fails hf.1 (by simp [hf.2]))
      exact ⟨_, _, onPool_error (zoom_error hdrop), id⟩

omit [Evictor E] in
theorem overwrite_ok {g : WritePageGuard} {f : Nat} (data : List Byte) (hf : g.frame = some f) :
    WritePageGuard.overwrite g data s.pool.shared = .ok () (s.pool.overwritten f data).shared := by
  have hsome : g.frame ≠ none := by simp [hf]
  rw [WritePageGuard.overwrite, bind_ok (assert_ok (.inr hsome)), hf]
  change EStateM.Result.ok () (Shared.setFrame f _ (Shared.setFrame f _ _)) = _
  simp [overwritten, Shared.setFrame]

theorem overwrite_next {i : Nat} {data : List Byte} (h : Next s (.overwrite i data) a t) :
    Step s (.overwrite i data) a t := by
  obtain ⟨g, hi⟩ := read_alive h.not_fatal
  by_cases hf : g.frame = none
  · refine absurd (.bind_eq (read_ok hi) (Raises.bind_left ?_)) h.not_fatal
    have hover : Raises (WritePageGuard.overwrite g data) s.pool.shared (fun e _ => ¬ e.Thrown) := by
      by_cases hb : Build.ndebug = true
      · refine .bind_eq (assert_ok (.inl hb)) ?_
        rw [hf]
        exact raises_throw.mpr id
      · exact ⟨_, _, bind_error (assert_fails (by simpa using hb) (by simp [hf])), id⟩
    obtain ⟨e, u, he, hfatal⟩ := hover
    exact ⟨e, _, onPool_error (zoom_error he), hfatal⟩
  · obtain ⟨f, hf'⟩ := Option.ne_none_iff_exists'.mp hf
    have hon : onShared (WritePageGuard.overwrite g data) s = .ok () ⟨s.pool.overwritten f data, s.vars⟩ :=
      onPool_ok (zoom_ok (overwrite_ok data hf'))
    have hrun : run (.overwrite i data) s = _ := (bind_ok (read_ok hi)).trans (bind_ok hon)
    obtain ⟨rfl, rfl⟩ := h.of_ok hrun
    exact .overwritten hi hf'

/-- A call that takes `bpm_latch_` does not come back while it is taken. -/
theorem latch_of_next (h : Next s op a t) (hop : (∀ kind i, op ≠ .drop kind i) ∧
    ∀ i data, op ≠ .overwrite i data) : s.pool.shared.bpmLatch = false := by
  by_contra hb
  have hlatch : s.pool.shared.bpmLatch = true := by simpa using hb
  have hlock : BufferPoolManager.onShared Shared.lock s.pool = .error .diverges s.pool :=
    zoom_error (Shared.lock_blocks hlatch)
  apply h.not_fatal
  cases op with
  | newPage tblId => exact ⟨_, _, onPool_error (bind_error hlock), id⟩
  | getPage kind pgkey => exact ⟨_, _, bind_error (onPool_error (bind_error hlock)), id⟩
  | drop kind i => exact absurd rfl (hop.1 kind i)
  | overwrite i data => exact absurd rfl (hop.2 i data)
  | evictPage pgkey => exact ⟨_, _, bind_error (onPool_error (bind_error hlock)), id⟩
  | flushPage pgkey => exact ⟨_, _, bind_error (onPool_error (bind_error hlock)), id⟩
  | flushAllPages => exact ⟨_, _, bind_error (onPool_error (bind_error hlock)), id⟩

/-- What an operation can do. -/
theorem next_cases (h : Next s op a t)
    (hs : s.pool.shared.bpmLatch = false → Balanced s.pool.shared s.vars) :
    Step s op a t ∨ a = none ∧ Threw s op t := by
  cases op with
  | newPage tblId => exact newPage_next h (latch_of_next h (by simp))
  | getPage kind pgkey => exact getPage_next h (latch_of_next h (by simp))
  | drop kind i => exact .inl (drop_next h hs)
  | overwrite i data => exact .inl (overwrite_next h)
  | evictPage pgkey => exact .inl (evictPage_next h (latch_of_next h (by simp)))
  | flushPage pgkey => exact flushPage_next h (latch_of_next h (by simp))
  | flushAllPages => exact flushAllPages_next h (latch_of_next h (by simp))

end PoolSession

end Cpplite
