import Cpplite.BufferPool.Lruk

/-!
`frameheader.cpp` and `pageguard.cpp`: the guards through which a page in a frame is read and
written, run by one thread.

A guard pins its frame and holds the frame's latch for as long as it is valid. Guards are moved
about, and a moved-from guard must not let go of what it no longer owns.
-/
namespace Cpplite

open Exec

/-- The calls of `evictor.h` that the pool and its guards make. -/
class Evictor (E : Type) where
  evict : E → Option Nat × E
  recordAccess : E → Nat → E
  setEvictable : E → Nat → Bool → E
  remove : E → Nat → E

instance lrukEvictor : Evictor LRUKEvictor where
  evict := LRUKEvictor.evict
  recordAccess := LRUKEvictor.recordAccess
  setEvictable := LRUKEvictor.setEvictable
  remove := LRUKEvictor.remove

/-! ### `frameheader.cpp` -/

/-- A frame, with who holds its latch. There are never `2^64` guards: `pins_` wraps where it goes
below zero only. -/
structure FrameHeader where
  readers : Nat := 0
  writer : Bool := false
  dirty : Bool := false
  data : List Byte := List.replicate pageSize 0
  pins : Nat := 0

abbrev FrameM := EStateM Error FrameHeader

namespace FrameHeader

def reset : FrameM Unit := modify fun frame => { frame with
  dirty := false
  pins := 0
  data := List.replicate pageSize 0 ++ frame.data.drop pageSize }

def setDirty (dirty : Bool) : FrameM Unit := modify fun frame => { frame with dirty }

/-- A thread that waits for a latch it holds itself waits for ever. -/
def lockRead : FrameM Unit := do
  let frame ← get
  if frame.writer then throw .diverges
  else set { frame with readers := frame.readers + 1 }

def unlockRead : FrameM Unit := do
  let frame ← get
  if frame.readers = 0 then throw .undefined
  else set { frame with readers := frame.readers - 1 }

def lockWrite : FrameM Unit := do
  let frame ← get
  if frame.writer ∨ frame.readers ≠ 0 then throw .diverges
  else set { frame with writer := true }

def unlockWrite : FrameM Unit := do
  let frame ← get
  if frame.writer then set { frame with writer := false }
  else throw .undefined

/-- `fetch_sub`: the value before. -/
def decrPins : FrameM Nat := do
  let frame ← get
  set { frame with pins := if frame.pins = 0 then 2 ^ 64 - 1 else frame.pins - 1 }
  return frame.pins

def incrPins : FrameM Nat := do
  let frame ← get
  set { frame with pins := frame.pins + 1 }
  return frame.pins

end FrameHeader

/-! ### `pageguard.cpp` -/

inductive GuardKind where
  | read
  | write
deriving DecidableEq, Repr

/-- `ReadPageGuard` and `WritePageGuard`. The pointers to the frame, the evictor, `bpm_latch_` and
the storage engine are set together, moved together and null together. -/
structure PageGuard (kind : GuardKind) where
  pgkey : PageKey := (0, 0)
  frame : Option Nat := none
  isValid : Bool := false

abbrev ReadPageGuard := PageGuard .read

abbrev WritePageGuard := PageGuard .write

/-- What the guards of a pool point to. -/
structure Shared (E : Type) where
  frames : Nat → FrameHeader
  bpmLatch : Bool
  evictor : E

abbrev SharedM (E : Type) := EStateM Error (Shared E)

namespace Shared

variable {E α : Type}

def onFrame (frameId : Nat) (x : FrameM α) : SharedM E α :=
  zoom (·.frames frameId) (fun frame s => { s with frames := Function.update s.frames frameId frame }) x

/-- `bpm_latch_->lock()` -/
def lock : SharedM E Unit := do
  let s ← get
  if s.bpmLatch then throw .diverges
  else set { s with bpmLatch := true }

/-- `bpm_latch_->unlock()` -/
def unlock : SharedM E Unit := do
  let s ← get
  if s.bpmLatch then set { s with bpmLatch := false }
  else throw .undefined

variable [Evictor E]

def recordAccess (frameId : Nat) : SharedM E Unit :=
  modify fun s => { s with evictor := Evictor.recordAccess s.evictor frameId }

def setEvictable (frameId : Nat) (evictable : Bool) : SharedM E Unit :=
  modify fun s => { s with evictor := Evictor.setEvictable s.evictor frameId evictable }

end Shared

namespace PageGuard

variable {E : Type} [Evictor E] {kind : GuardKind}

/-- The latch call of the guard's constructor. -/
def lockFrame : GuardKind → FrameM Unit
  | .read => FrameHeader.lockRead
  | .write => FrameHeader.lockWrite

/-- The latch call at the end of `drop`. -/
def unlockFrame : GuardKind → FrameM Unit
  | .read => FrameHeader.unlockRead
  | .write => FrameHeader.unlockWrite

def construct (kind : GuardKind) (pgkey : PageKey) (frameId : Nat) : SharedM E (PageGuard kind) := do
  let _ ← Shared.onFrame frameId FrameHeader.incrPins
  Shared.recordAccess frameId
  Shared.onFrame frameId (lockFrame kind)
  return ⟨pgkey, some frameId, true⟩

section Drop

variable [Build]

/-- `drop`, with the guard it leaves. -/
def drop (this : PageGuard kind) : SharedM E (PageGuard kind) := do
  assert (this.frame ≠ none)
  if this.isValid then
    match this.frame with
    | none => throw .undefined
    | some frameId => do
      Shared.lock
      let prevNumPins ← Shared.onFrame frameId FrameHeader.decrPins
      when (prevNumPins = 1) (Shared.setEvictable frameId true)
      Shared.unlock
      Shared.onFrame frameId (unlockFrame kind)
      return { this with isValid := false }
  else return this

def destruct (this : PageGuard kind) : SharedM E Unit :=
  when (this.isValid = true) (do let _ ← this.drop)

end Drop

/-- What a move leaves. -/
def movedFrom (that : PageGuard kind) : PageGuard kind := { that with frame := none, isValid := false }

end PageGuard

namespace ReadPageGuard

variable {E : Type} [Evictor E] [Build]

def construct : PageKey → Nat → SharedM E ReadPageGuard := PageGuard.construct .read

def drop : ReadPageGuard → SharedM E ReadPageGuard := PageGuard.drop

end ReadPageGuard

namespace WritePageGuard

variable {E : Type} [Evictor E] [Build]

def construct : PageKey → Nat → SharedM E WritePageGuard := PageGuard.construct .write

def drop : WritePageGuard → SharedM E WritePageGuard := PageGuard.drop

end WritePageGuard

/-! ### A program with guards -/

/-- The guards a program has, by their variables; none where one was destroyed. A guard is never
assigned to one of the other kind. -/
abbrev GuardVars := (kind : GuardKind) → List (Option (PageGuard kind))

namespace GuardVars

variable {kind : GuardKind}

/-- A new variable. -/
def declare (vars : GuardVars) (guard : PageGuard kind) : GuardVars :=
  Function.update vars kind (vars kind ++ [some guard])

def assign (vars : GuardVars) (i : Nat) (guard : Option (PageGuard kind)) : GuardVars :=
  Function.update vars kind ((vars kind).set i guard)

end GuardVars

structure GuardSession (E : Type) where
  shared : Shared E
  vars : GuardVars

abbrev GuardSessionM (E : Type) := EStateM Error (GuardSession E)

namespace GuardSession

variable {E α : Type} [Evictor E] [Build] {kind : GuardKind}

def onShared (x : SharedM E α) : GuardSessionM E α :=
  zoom (·.shared) (fun shared s => { s with shared }) x

/-- A variable, which must be alive. -/
def read (kind : GuardKind) (i : Nat) : GuardSessionM E (PageGuard kind) := do
  let s ← get
  match (s.vars kind)[i]? with
  | some (some guard) => return guard
  | _ => throw .undefined

def write (i : Nat) (guard : Option (PageGuard kind)) : GuardSessionM E Unit :=
  modify fun s => { s with vars := s.vars.assign i guard }

def declare (guard : PageGuard kind) : GuardSessionM E Unit :=
  modify fun s => { s with vars := s.vars.declare guard }

inductive Op where
  | constructDefault (kind : GuardKind)
  | construct (kind : GuardKind) (pgkey : PageKey) (frameId : Nat)
  | moveConstruct (kind : GuardKind) (that : Nat)
  | moveAssign (kind : GuardKind) (this that : Nat)
  | drop (kind : GuardKind) (this : Nat)
  | destruct (kind : GuardKind) (this : Nat)
deriving DecidableEq, Repr

def moveConstruct (kind : GuardKind) (that : Nat) : GuardSessionM E Unit := do
  let guard ← read kind that
  declare guard
  write that (some guard.movedFrom)

/-- `operator=`; variables are the same object when they are the same. -/
def moveAssign (kind : GuardKind) (this that : Nat) : GuardSessionM E Unit := do
  let old ← read kind this
  let guard ← read kind that
  when (this ≠ that) (do
    when (old.isValid = true) (do let _ ← onShared old.drop)
    write this (some guard)
    write that (some guard.movedFrom))

def drop (kind : GuardKind) (this : Nat) : GuardSessionM E Unit := do
  let guard ← read kind this
  let guard ← onShared guard.drop
  write this (some guard)

def destruct (kind : GuardKind) (this : Nat) : GuardSessionM E Unit := do
  let guard ← read kind this
  onShared guard.destruct
  write this (none : Option (PageGuard kind))

def run : Op → GuardSessionM E Unit
  | .constructDefault kind => declare ({} : PageGuard kind)
  | .construct kind pgkey frameId => do
    let guard ← onShared (PageGuard.construct kind pgkey frameId)
    declare guard
  | .moveConstruct kind that => moveConstruct kind that
  | .moveAssign kind this that => moveAssign kind this that
  | .drop kind this => drop kind this
  | .destruct kind this => destruct kind this

end GuardSession

/-! ### What a guard's life does to its frame -/

namespace FrameHeader

/-- The latch can be taken. -/
def Free : GuardKind → FrameHeader → Prop
  | .read, frame => frame.writer = false
  | .write, frame => frame.writer = false ∧ frame.readers = 0

/-- The latch is taken. -/
def Held : GuardKind → FrameHeader → Prop
  | .read, frame => 0 < frame.readers
  | .write, frame => frame.writer = true

/-- The latch taken once more. -/
def latched : GuardKind → FrameHeader → FrameHeader
  | .read, frame => { frame with readers := frame.readers + 1 }
  | .write, frame => { frame with writer := true }

/-- The latch given back once. -/
def unlatched : GuardKind → FrameHeader → FrameHeader
  | .read, frame => { frame with readers := frame.readers - 1 }
  | .write, frame => { frame with writer := false }

/-- A guard more. -/
def acquired (kind : GuardKind) (frame : FrameHeader) : FrameHeader :=
  { frame.latched kind with pins := frame.pins + 1 }

/-- A guard less. -/
def released (kind : GuardKind) (frame : FrameHeader) : FrameHeader :=
  { frame.unlatched kind with pins := frame.pins - 1 }

end FrameHeader

namespace Shared

variable {E : Type}

def setFrame (f : Nat) (frame : FrameHeader) (s : Shared E) : Shared E :=
  { s with frames := Function.update s.frames f frame }

theorem onFrame_ok {α : Type} {s : Shared E} {f : Nat} {x : FrameM α} {a : α} {frame : FrameHeader}
    (h : x (s.frames f) = .ok a frame) : onFrame f x s = .ok a (s.setFrame f frame) :=
  zoom_ok h

theorem onFrame_error {α : Type} {s : Shared E} {f : Nat} {x : FrameM α} {e : Error}
    {frame : FrameHeader} (h : x (s.frames f) = .error e frame) :
    onFrame f x s = .error e (s.setFrame f frame) :=
  zoom_error h

theorem lock_ok {s : Shared E} (h : s.bpmLatch = false) :
    lock s = .ok () { s with bpmLatch := true } := by
  rw [lock, bind_ok get_ok, if_neg (by simp [h])]
  rfl

theorem lock_blocks {s : Shared E} (h : s.bpmLatch = true) : lock s = .error .diverges s := by
  rw [lock, bind_ok get_ok, if_pos h]
  rfl

theorem unlock_ok {s : Shared E} (h : s.bpmLatch = true) :
    unlock s = .ok () { s with bpmLatch := false } := by
  rw [unlock, bind_ok get_ok, if_pos h]
  rfl

variable [Evictor E]

def acquired (kind : GuardKind) (f : Nat) (s : Shared E) : Shared E :=
  { s with
    frames := Function.update s.frames f ((s.frames f).acquired kind)
    evictor := Evictor.recordAccess s.evictor f }

def released (kind : GuardKind) (f : Nat) (s : Shared E) : Shared E :=
  { s with
    frames := Function.update s.frames f ((s.frames f).released kind)
    evictor := if (s.frames f).pins = 1 then Evictor.setEvictable s.evictor f true else s.evictor }

end Shared

namespace PageGuard

variable {E : Type} [Evictor E] {kind : GuardKind} {s : Shared E} {f : Nat} {pgkey : PageKey}
  {frame : FrameHeader}

theorem lockFrame_ok (h : frame.Free kind) : lockFrame kind frame = .ok () (frame.latched kind) := by
  cases kind with
  | read =>
    have hw : ¬ frame.writer = true := by simpa [FrameHeader.Free] using h
    rw [lockFrame, FrameHeader.lockRead, bind_ok get_ok, if_neg hw]
    rfl
  | write =>
    have hw : ¬ (frame.writer = true ∨ frame.readers ≠ 0) := by
      simpa [FrameHeader.Free] using h
    rw [lockFrame, FrameHeader.lockWrite, bind_ok get_ok, if_neg hw]
    rfl

theorem lockFrame_blocks (h : ¬ frame.Free kind) : lockFrame kind frame = .error .diverges frame := by
  cases kind with
  | read =>
    have hw : frame.writer = true := by simpa [FrameHeader.Free] using h
    rw [lockFrame, FrameHeader.lockRead, bind_ok get_ok, if_pos hw]
    rfl
  | write =>
    have hw : frame.writer = true ∨ frame.readers ≠ 0 := by
      by_cases hw : frame.writer = true
      · exact .inl hw
      · exact .inr (by simpa [FrameHeader.Free, hw] using h)
    rw [lockFrame, FrameHeader.lockWrite, bind_ok get_ok, if_pos hw]
    rfl

theorem unlockFrame_ok (h : frame.Held kind) :
    unlockFrame kind frame = .ok () (frame.unlatched kind) := by
  cases kind with
  | read =>
    rw [unlockFrame, FrameHeader.unlockRead, bind_ok get_ok, if_neg (Nat.ne_of_gt h)]
    rfl
  | write =>
    have hw : frame.writer = true := h
    rw [unlockFrame, FrameHeader.unlockWrite, bind_ok get_ok, if_pos hw]
    rfl

/-- The constructor up to its latch call. -/
theorem construct_eq : construct kind pgkey f s =
    (do Shared.onFrame f (lockFrame kind); return ⟨pgkey, some f, true⟩ : SharedM E (PageGuard kind))
      { s.setFrame f { s.frames f with pins := (s.frames f).pins + 1 } with
        evictor := Evictor.recordAccess s.evictor f } := by
  have h1 : Shared.onFrame f FrameHeader.incrPins s = .ok (s.frames f).pins
      (s.setFrame f { s.frames f with pins := (s.frames f).pins + 1 }) :=
    Shared.onFrame_ok rfl
  rw [construct, bind_ok h1]
  rfl

theorem construct_ok (h : (s.frames f).Free kind) :
    construct kind pgkey f s = .ok ⟨pgkey, some f, true⟩ (s.acquired kind f) := by
  generalize hs₁ : ({ s.setFrame f { s.frames f with pins := (s.frames f).pins + 1 } with
    evictor := Evictor.recordAccess s.evictor f } : Shared E) = s₁
  have hfree : (s₁.frames f).Free kind := by
    subst hs₁
    cases kind <;> simpa [Shared.setFrame, FrameHeader.Free] using h
  rw [construct_eq, hs₁, bind_ok (Shared.onFrame_ok (lockFrame_ok hfree))]
  subst hs₁
  cases kind <;> simp [Shared.setFrame, Shared.acquired, FrameHeader.acquired, FrameHeader.latched,
    pure, EStateM.pure]

theorem construct_blocks (pgkey : PageKey) (h : ¬ (s.frames f).Free kind) :
    Raises (construct kind pgkey f) s (fun e _ => e = .diverges) := by
  generalize hs₁ : ({ s.setFrame f { s.frames f with pins := (s.frames f).pins + 1 } with
    evictor := Evictor.recordAccess s.evictor f } : Shared E) = s₁
  have hfree : ¬ (s₁.frames f).Free kind := by
    subst hs₁
    cases kind <;> simpa [Shared.setFrame, FrameHeader.Free] using h
  exact ⟨_, _, by rw [construct_eq, hs₁, bind_error (Shared.onFrame_error (lockFrame_blocks hfree))],
    rfl⟩

variable [Build]

/-- A valid guard lets go of its frame. -/
theorem drop_ok (hl : s.bpmLatch = false) (hp : 0 < (s.frames f).pins) (hh : (s.frames f).Held kind) :
    drop (⟨pgkey, some f, true⟩ : PageGuard kind) s =
      .ok ⟨pgkey, some f, false⟩ (s.released kind f) := by
  generalize hs₁ : ({ s with bpmLatch := true } : Shared E) = s₁
  have h1 : Shared.lock s = .ok () s₁ := by
    rw [← hs₁]
    exact Shared.lock_ok hl
  generalize hs₂ : s₁.setFrame f { s.frames f with pins := (s.frames f).pins - 1 } = s₂
  have h2 : Shared.onFrame f FrameHeader.decrPins s₁ = .ok (s.frames f).pins s₂ := by
    subst hs₁ hs₂
    apply Shared.onFrame_ok
    have hz : (s.frames f).pins ≠ 0 := Nat.ne_of_gt hp
    change EStateM.Result.ok (s.frames f).pins { s.frames f with
      pins := if (s.frames f).pins = 0 then 2 ^ 64 - 1 else (s.frames f).pins - 1 } = _
    rw [if_neg hz]
  generalize hs₃ : ({ s₂ with
    evictor := if (s.frames f).pins = 1 then Evictor.setEvictable s.evictor f true
      else s.evictor } : Shared E) = s₃
  have h3 : when ((s.frames f).pins = 1) (Shared.setEvictable f true) s₂ = .ok () s₃ := by
    subst hs₁ hs₂ hs₃
    by_cases hone : (s.frames f).pins = 1
    · simp only [when, hone, if_true]
      rfl
    · simp only [when, hone, if_false]
      rfl
  generalize hs₄ : ({ s₃ with bpmLatch := false } : Shared E) = s₄
  have h4 : Shared.unlock s₃ = .ok () s₄ := by
    rw [← hs₄]
    apply Shared.unlock_ok
    subst hs₁ hs₂ hs₃
    rfl
  have hheld : (s₄.frames f).Held kind := by
    subst hs₁ hs₂ hs₃ hs₄
    cases kind <;> simpa [Shared.setFrame, FrameHeader.Held] using hh
  have hassert : assert (σ := Shared E) (some f ≠ none) s = .ok () s := assert_ok (by simp)
  rw [drop, bind_ok hassert]
  change (do
    Shared.lock
    let prevNumPins ← Shared.onFrame f FrameHeader.decrPins
    when (prevNumPins = 1) (Shared.setEvictable f true)
    Shared.unlock
    Shared.onFrame f (unlockFrame kind)
    return (⟨pgkey, some f, false⟩ : PageGuard kind)) s = _
  rw [bind_ok h1, bind_ok h2, bind_ok h3, bind_ok h4, bind_ok (Shared.onFrame_ok (unlockFrame_ok hheld))]
  subst hs₁ hs₂ hs₃ hs₄
  cases kind <;> simp [Shared.setFrame, Shared.released, FrameHeader.released, FrameHeader.unlatched,
    pure, EStateM.pure, hl]

/-- A guard that let go already does nothing. -/
theorem drop_invalid : drop (⟨pgkey, some f, false⟩ : PageGuard kind) s =
    .ok ⟨pgkey, some f, false⟩ s := by
  have hassert : assert (σ := Shared E) (some f ≠ none) s = .ok () s := assert_ok (by simp)
  rw [drop, bind_ok hassert]
  rfl

end PageGuard

/-! ### Pins, latches and guards -/

namespace GuardVars

variable {kind k : GuardKind} {f : Nat} {vars : GuardVars}

/-- A valid guard bound to the frame. -/
def bound (f : Nat) (guard : Option (PageGuard kind)) : Bool :=
  guard.any fun g => g.isValid && g.frame == some f

/-- The number of valid guards of a kind bound to the frame. -/
def held (vars : GuardVars) (kind : GuardKind) (f : Nat) : Nat := (vars kind).countP (bound f)

/-- A valid guard has a frame. -/
def Framed (vars : GuardVars) : Prop :=
  ∀ (kind : GuardKind) (g : PageGuard kind), some g ∈ vars kind → g.isValid = true → g.frame ≠ none

theorem bound_some {g : PageGuard kind} : bound f (some g) = true ↔ g.isValid = true ∧ g.frame = some f := by
  simp [bound]

theorem held_declare {g : PageGuard kind} : held (vars.declare g) k f =
    held vars k f + if k = kind ∧ bound f (some g) = true then 1 else 0 := by
  by_cases hk : k = kind
  · subst hk
    simp [held, declare, List.countP_append, List.countP_singleton]
  · simp [held, declare, hk]

theorem countP_set {α : Type} {l : List α} {i : Nat} {a : α} (h : l[i]? = some a) (p : α → Bool)
    (b : α) : (l.set i b).countP p + (if p a = true then 1 else 0) =
      l.countP p + if p b = true then 1 else 0 := by
  induction l generalizing i with
  | nil => simp at h
  | cons c l ih =>
    cases i with
    | zero =>
      simp only [List.getElem?_cons_zero, Option.some.injEq] at h
      subst h
      simp only [List.set_cons_zero, List.countP_cons]
      omega
    | succ i =>
      have hl := ih (by simpa using h)
      simp only [List.set_cons_succ, List.countP_cons]
      omega

theorem held_assign {i : Nat} {g : Option (PageGuard kind)} (h : (vars kind)[i]? = some g)
    (g' : Option (PageGuard kind)) :
    held (vars.assign i g') k f + (if k = kind ∧ bound f g = true then 1 else 0) =
      held vars k f + if k = kind ∧ bound f g' = true then 1 else 0 := by
  by_cases hk : k = kind
  · subst hk
    simpa [held, assign] using countP_set h (bound f) g'
  · simp [held, assign, hk]

/-- A valid guard counts. -/
theorem held_pos {i : Nat} {g : PageGuard kind} (h : (vars kind)[i]? = some (some g))
    (hv : g.isValid = true) (hf : g.frame = some f) : 0 < held vars kind f :=
  List.countP_pos_iff.mpr ⟨some g, List.mem_of_getElem? h, bound_some.mpr ⟨hv, hf⟩⟩

/-- What all guards of a program have. -/
theorem declare_all {P : ∀ k, PageGuard k → Prop} {g : PageGuard kind}
    (h : ∀ k (g' : PageGuard k), some g' ∈ vars k → P k g') (hg : P kind g) :
    ∀ k (g' : PageGuard k), some g' ∈ vars.declare g k → P k g' := by
  intro k g' hmem
  by_cases hk : k = kind
  · subst hk
    simp only [GuardVars.declare, Function.update_self, List.mem_append, List.mem_singleton,
      Option.some_inj] at hmem
    rcases hmem with hmem | rfl
    · exact h k g' hmem
    · exact hg
  · simp only [GuardVars.declare, Function.update_of_ne hk] at hmem
    exact h k g' hmem

theorem assign_all {P : ∀ k, PageGuard k → Prop} {i : Nat} {g : Option (PageGuard kind)}
    (h : ∀ k (g' : PageGuard k), some g' ∈ vars k → P k g') (hg : ∀ g', g = some g' → P kind g') :
    ∀ k (g' : PageGuard k), some g' ∈ vars.assign i g k → P k g' := by
  intro k g' hmem
  by_cases hk : k = kind
  · subst hk
    simp only [GuardVars.assign, Function.update_self] at hmem
    rcases List.mem_or_eq_of_mem_set hmem with hmem | heq
    · exact h k g' hmem
    · exact hg g' heq.symm
  · simp only [GuardVars.assign, Function.update_of_ne hk] at hmem
    exact h k g' hmem

theorem Framed.declare {g : PageGuard kind} (h : Framed vars) (hg : g.isValid = true → g.frame ≠ none) :
    Framed (vars.declare g) :=
  declare_all h hg

theorem Framed.assign {i : Nat} {g : Option (PageGuard kind)} (h : Framed vars)
    (hg : ∀ g', g = some g' → g'.isValid = true → g'.frame ≠ none) : Framed (vars.assign i g) :=
  assign_all h hg

end GuardVars

open GuardVars

/-- Every frame is pinned, and its latch held, once for each valid guard bound to it. -/
structure Balanced {E : Type} (shared : Shared E) (vars : GuardVars) : Prop where
  latch : shared.bpmLatch = false
  framed : Framed vars
  pins : ∀ f, (shared.frames f).pins = vars.held .read f + vars.held .write f
  readers : ∀ f, (shared.frames f).readers = vars.held .read f
  writer : ∀ f, (shared.frames f).writer.toNat = vars.held .write f

section Balanced

variable {E : Type} {sh : Shared E} {vars vars' : GuardVars} {kind : GuardKind} {f : Nat}

theorem Balanced.held_le (h : Balanced sh vars) : vars.held kind f ≤ (sh.frames f).pins := by
  rw [h.pins f]
  cases kind <;> omega

/-- A frame with a valid guard has its latch taken. -/
theorem Balanced.latched (h : Balanced sh vars) (hpos : 0 < vars.held kind f) :
    (sh.frames f).Held kind := by
  cases kind with
  | read =>
    have hr := h.readers f
    simp only [FrameHeader.Held]
    omega
  | write =>
    have hw := h.writer f
    simp only [FrameHeader.Held]
    cases hb : (sh.frames f).writer with
    | true => rfl
    | false =>
      rw [hb, Bool.toNat_false] at hw
      omega

theorem Balanced.of_held (h : Balanced sh vars) (hframed : Framed vars')
    (hv : ∀ k g, vars'.held k g = vars.held k g) : Balanced sh vars' where
  latch := h.latch
  framed := hframed
  pins g := by rw [hv, hv, h.pins]
  readers g := by rw [hv, h.readers]
  writer g := by rw [hv, h.writer]

variable [Evictor E]

theorem Balanced.acquired (h : Balanced sh vars) (hfree : (sh.frames f).Free kind)
    (hframed : Framed vars')
    (hv : ∀ k g, vars'.held k g = vars.held k g + if k = kind ∧ g = f then 1 else 0) :
    Balanced (sh.acquired kind f) vars' := by
  refine ⟨h.latch, hframed, ?_, ?_, ?_⟩
  · intro g
    have hp := h.pins g
    rw [hv, hv]
    by_cases hg : g = f
    · subst hg
      cases kind <;> simp [Shared.acquired, FrameHeader.acquired] <;> omega
    · simp [Shared.acquired, hg, hp]
  · intro g
    have hr := h.readers g
    rw [hv]
    by_cases hg : g = f
    · subst hg
      cases kind <;> simp [Shared.acquired, FrameHeader.acquired, FrameHeader.latched, hr]
    · simp [Shared.acquired, hg, hr]
  · intro g
    have hw := h.writer g
    rw [hv]
    by_cases hg : g = f
    · subst hg
      cases kind with
      | read => simp [Shared.acquired, FrameHeader.acquired, FrameHeader.latched, hw]
      | write =>
        rw [hfree.1, Bool.toNat_false] at hw
        simp [Shared.acquired, FrameHeader.acquired, FrameHeader.latched, ← hw]
    · simp [Shared.acquired, hg, hw]

theorem Balanced.released (h : Balanced sh vars) (hframed : Framed vars')
    (hv : ∀ k g, vars.held k g = vars'.held k g + if k = kind ∧ g = f then 1 else 0) :
    Balanced (sh.released kind f) vars' := by
  refine ⟨h.latch, hframed, ?_, ?_, ?_⟩
  · intro g
    have hp := h.pins g
    rw [hv, hv] at hp
    by_cases hg : g = f
    · subst hg
      cases kind <;> simp [Shared.released, FrameHeader.released] at hp ⊢ <;> omega
    · simpa [Shared.released, hg] using hp
  · intro g
    have hr := h.readers g
    rw [hv] at hr
    by_cases hg : g = f
    · subst hg
      cases kind <;>
        simp [Shared.released, FrameHeader.released, FrameHeader.unlatched] at hr ⊢ <;> omega
    · simpa [Shared.released, hg] using hr
  · intro g
    have hw := h.writer g
    rw [hv] at hw
    by_cases hg : g = f
    · subst hg
      cases kind with
      | read => simpa [Shared.released, FrameHeader.released, FrameHeader.unlatched] using hw
      | write =>
        have hle := Bool.toNat_le (sh.frames g).writer
        simp [Shared.released, FrameHeader.released, FrameHeader.unlatched] at hw ⊢
        omega
    · simpa [Shared.released, hg] using hw

/-- A guard of the program is dropped. -/
theorem Balanced.drop [Build] (h : Balanced sh vars) {i : Nat} {g : PageGuard kind}
    (hi : (vars kind)[i]? = some (some g)) (hval : g.isValid = true) :
    ∃ f, g.frame = some f ∧ g.drop sh = .ok { g with isValid := false } (sh.released kind f) := by
  obtain ⟨f, hf⟩ := Option.ne_none_iff_exists'.mp (h.framed kind g (List.mem_of_getElem? hi) hval)
  have hpos := held_pos hi hval hf
  refine ⟨f, hf, ?_⟩
  obtain ⟨pgkey, frame, isValid⟩ := g
  simp only at hf hval
  subst hf hval
  exact PageGuard.drop_ok h.latch (hpos.trans_le h.held_le) (h.latched hpos)

end Balanced

/-! ### Runs -/

inductive EvictorCall where
  | evict
  | recordAccess (f : Nat)
  | setEvictable (f : Nat) (evictable : Bool)
  | remove (f : Nat)
deriving DecidableEq, Repr

/-- An evictor with the calls made to it, oldest first. -/
structure Traced (E : Type) where
  evictor : E
  calls : List EvictorCall

instance tracedEvictor {E : Type} [Evictor E] : Evictor (Traced E) where
  evict e := ((Evictor.evict e.evictor).1, ⟨(Evictor.evict e.evictor).2, e.calls ++ [.evict]⟩)
  recordAccess e f := ⟨Evictor.recordAccess e.evictor f, e.calls ++ [.recordAccess f]⟩
  setEvictable e f b := ⟨Evictor.setEvictable e.evictor f b, e.calls ++ [.setEvictable f b]⟩
  remove e f := ⟨Evictor.remove e.evictor f, e.calls ++ [.remove f]⟩

namespace GuardSession

variable {E : Type} [Evictor E] {s t u : GuardSession E} {kind : GuardKind} {i j f : Nat}
  {g g' : PageGuard kind}

/-- What an operation does: nothing that counts, or a guard more, or a guard less. -/
inductive Effect (s t : GuardSession E) : Prop where
  | keep (hs : t.shared = s.shared) (hv : ∀ k g, t.vars.held k g = s.vars.held k g)
  | acquire (kind : GuardKind) (f : Nat) (hfree : (s.shared.frames f).Free kind)
      (hs : t.shared = s.shared.acquired kind f)
      (hv : ∀ k g, t.vars.held k g = s.vars.held k g + if k = kind ∧ g = f then 1 else 0)
  | release (kind : GuardKind) (f : Nat) (hs : t.shared = s.shared.released kind f)
      (hv : ∀ k g, s.vars.held k g = t.vars.held k g + if k = kind ∧ g = f then 1 else 0)

theorem Effect.balanced (h : Effect s t) (hs : Balanced s.shared s.vars) (ht : Framed t.vars) :
    Balanced t.shared t.vars := by
  cases h with
  | keep hsh hv =>
    rw [hsh]
    exact hs.of_held ht hv
  | acquire kind f hfree hsh hv =>
    rw [hsh]
    exact hs.acquired hfree ht hv
  | release kind f hsh hv =>
    rw [hsh]
    exact hs.released ht hv

/-- The operations a program may make: on variables that are alive, no construction that waits for
the program itself, and no `drop` without a frame unless `assert` is off. -/
def Allowed [Build] (s : GuardSession E) : Op → Prop
  | .constructDefault _ => True
  | .construct kind _ f => (s.shared.frames f).Free kind
  | .moveConstruct kind that => ∃ g, (s.vars kind)[that]? = some (some g)
  | .moveAssign kind this that =>
    (∃ g, (s.vars kind)[this]? = some (some g)) ∧ ∃ g, (s.vars kind)[that]? = some (some g)
  | .drop kind this =>
    ∃ g, (s.vars kind)[this]? = some (some g) ∧ (Build.ndebug = true ∨ g.frame ≠ none)
  | .destruct kind this => ∃ g, (s.vars kind)[this]? = some (some g)

omit [Evictor E] in
theorem read_ok (h : (s.vars kind)[i]? = some (some g)) : read kind i s = .ok g s := by
  simp only [read, bind_ok get_ok, h]
  rfl

omit [Evictor E] in
theorem read_error (h : ∀ g, (s.vars kind)[i]? ≠ some (some g)) :
    Raises (read kind i) s (fun _ _ => True) := by
  refine ⟨.undefined, s, ?_, trivial⟩
  unfold read
  rw [bind_ok get_ok]
  cases hi : (s.vars kind)[i]? with
  | none => rfl
  | some o =>
    cases o with
    | none => rfl
    | some g => exact absurd hi (h g)

@[simp] theorem bound_movedFrom : bound f (some g.movedFrom) = false := by
  simp [bound, PageGuard.movedFrom]

@[simp] theorem bound_none : bound f (none : Option (PageGuard kind)) = false := rfl

theorem bound_of_invalid (h : g.isValid = false) : bound f (some g) = false := by
  simp [bound, h]

/-- The guard in a variable gives up its frame, and the variable gets `g'` that counts for none. -/
theorem held_release {vars : GuardVars} (hi : (vars kind)[i]? = some (some g))
    (hval : g.isValid = true) (hf : g.frame = some f) {o : Option (PageGuard kind)}
    (ho : ∀ x, bound x o = false) (k : GuardKind) (x : Nat) :
    vars.held k x = (vars.assign i o).held k x + if k = kind ∧ x = f then 1 else 0 := by
  have hset := held_assign (k := k) (f := x) hi o
  have hb : bound x (some g) = true ↔ x = f := by
    rw [bound_some, hf, Option.some_inj]
    simp [hval, eq_comm]
  simp only [ho, hb] at hset
  simpa using hset.symm

section Run

variable (hs : Balanced s.shared s.vars)
include hs

theorem moveConstruct_effect (hi : (s.vars kind)[i]? = some (some g)) :
    Returns (moveConstruct kind i) s (fun _ t => Effect s t ∧ Framed t.vars) := by
  have hi' : (s.vars.declare g kind)[i]? = some (some g) := by
    rw [GuardVars.declare, Function.update_self, List.getElem?_append_left (List.getElem?_eq_some_iff.mp hi).1, hi]
  apply Returns.bind_eq (read_ok hi)
  refine ⟨(), _, rfl, .keep rfl ?_, (hs.framed.declare ?_).assign ?_⟩
  · intro k x
    have h1 : (s.vars.declare g).held k x = _ := held_declare
    have h2 := held_assign (k := k) (f := x) hi' (some g.movedFrom)
    simp only [bound_movedFrom, Bool.false_eq_true, and_false, if_false] at h2
    change ((s.vars.declare g).assign i (some g.movedFrom)).held k x = _
    omega
  · exact hs.framed kind g (List.mem_of_getElem? hi)
  · rintro _ ⟨⟩ h
    cases h

variable [Build]

theorem drop_effect (hi : (s.vars kind)[i]? = some (some g))
    (hf : Build.ndebug = true ∨ g.frame ≠ none) :
    Returns (drop kind i) s (fun _ t => Effect s t ∧ Framed t.vars) := by
  apply Returns.bind_eq (read_ok hi)
  by_cases hval : g.isValid = true
  · obtain ⟨f, hframe, hdrop⟩ := hs.drop hi hval
    apply Returns.bind_eq (zoom_ok hdrop)
    refine ⟨(), _, rfl, .release kind f rfl ?_, hs.framed.assign ?_⟩
    · exact held_release hi hval hframe (fun _ => bound_of_invalid rfl)
    · rintro _ ⟨⟩ h
      cases h
  · have hdrop : g.drop s.shared = .ok g s.shared := by
      rw [PageGuard.drop, bind_ok (assert_ok hf)]
      simp only [hval]
      rfl
    apply Returns.bind_eq (zoom_ok hdrop)
    refine ⟨(), _, rfl, .keep rfl ?_, hs.framed.assign ?_⟩
    · intro k x
      have h := held_assign (k := k) (f := x) hi (some g)
      exact Nat.add_right_cancel h
    · rintro _ ⟨⟩ h
      exact absurd h hval

theorem destruct_effect (hi : (s.vars kind)[i]? = some (some g)) :
    Returns (destruct kind i) s (fun _ t => Effect s t ∧ Framed t.vars) := by
  apply Returns.bind_eq (read_ok hi)
  by_cases hval : g.isValid = true
  · obtain ⟨f, hframe, hdrop⟩ := hs.drop hi hval
    have hd : g.destruct s.shared = .ok () (s.shared.released kind f) := by
      simp only [PageGuard.destruct, when, hval, if_true]
      exact bind_ok hdrop
    apply Returns.bind_eq (zoom_ok hd)
    refine ⟨(), _, rfl, .release kind f rfl ?_, hs.framed.assign ?_⟩
    · exact held_release hi hval hframe (fun _ => rfl)
    · rintro _ ⟨⟩
  · have hd : g.destruct s.shared = .ok () s.shared := by
      simp only [PageGuard.destruct, when, hval]
      rfl
    apply Returns.bind_eq (zoom_ok hd)
    refine ⟨(), _, rfl, .keep rfl ?_, hs.framed.assign ?_⟩
    · intro k x
      have h := held_assign (k := k) (f := x) hi none
      have hb : bound x (some g) = false := bound_of_invalid (by simpa using hval)
      simpa [hb] using h
    · rintro _ ⟨⟩

/-- `operator=` onto a valid guard lets go of what that guard had. -/
theorem moveAssign_effect (hi : (s.vars kind)[i]? = some (some g))
    (hj : (s.vars kind)[j]? = some (some g')) :
    Returns (moveAssign kind i j) s (fun _ t => Effect s t ∧ Framed t.vars) := by
  apply Returns.bind_eq (read_ok hi)
  apply Returns.bind_eq (read_ok hj)
  by_cases hij : i = j
  · simp only [when, hij, ne_eq, not_true_eq_false, if_false]
    exact ⟨(), s, rfl, .keep rfl (fun _ _ => rfl), hs.framed⟩
  · simp only [when, hij, ne_eq, not_false_eq_true, if_true]
    have hj' : (s.vars.assign i (some g') kind)[j]? = some (some g') := by
      rw [GuardVars.assign, Function.update_self, List.getElem?_set_ne hij, hj]
    have hframed : Framed ((s.vars.assign i (some g')).assign j (some g'.movedFrom)) := by
      refine (hs.framed.assign ?_).assign ?_
      · rintro _ ⟨⟩
        exact hs.framed kind g' (List.mem_of_getElem? hj)
      · rintro _ ⟨⟩ h
        cases h
    -- the new guard moves over, so only the old one's frame loses
    have hcount : ∀ k x, s.vars.held k x =
        ((s.vars.assign i (some g')).assign j (some g'.movedFrom)).held k x +
          if k = kind ∧ bound x (some g) = true then 1 else 0 := by
      intro k x
      have h1 := held_assign (k := k) (f := x) hi (some g')
      have h2 := held_assign (k := k) (f := x) hj' (some g'.movedFrom)
      simp only [bound_movedFrom, Bool.false_eq_true, and_false, if_false] at h2
      omega
    by_cases hval : g.isValid = true
    · obtain ⟨f, hframe, hdrop⟩ := hs.drop hi hval
      have hd : (do let _ ← onShared g.drop : GuardSessionM E Unit) s =
          .ok () ⟨s.shared.released kind f, s.vars⟩ := bind_ok (zoom_ok hdrop)
      simp only [hval, if_true]
      apply Returns.bind_eq hd
      refine ⟨(), _, rfl, .release kind f rfl ?_, hframed⟩
      intro k x
      have hb : bound x (some g) = true ↔ x = f := by
        rw [bound_some, hframe, Option.some_inj]
        simp [hval, eq_comm]
      simpa only [hb] using hcount k x
    · simp only [hval]
      refine ⟨(), _, rfl, .keep rfl ?_, hframed⟩
      intro k x
      have hb : bound x (some g) = false := bound_of_invalid (by simpa using hval)
      simpa [hb] using (hcount k x).symm

/-- An allowed operation comes back, and has one of the three effects. -/
theorem run_effect {op : Op} (h : Allowed s op) :
    Returns (run op) s (fun _ t => Effect s t ∧ Framed t.vars) := by
  cases op with
  | constructDefault kind =>
    refine ⟨(), _, rfl, .keep rfl ?_, hs.framed.declare (by simp)⟩
    intro k x
    have hd : (s.vars.declare ({} : PageGuard kind)).held k x = _ := held_declare
    simpa [bound] using hd
  | construct kind pgkey f =>
    have hc : PageGuard.construct kind pgkey f s.shared = .ok _ _ := PageGuard.construct_ok h
    refine Returns.bind_eq (zoom_ok hc) ⟨(), _, rfl, .acquire kind f h rfl ?_, hs.framed.declare ?_⟩
    · intro k x
      have hb : bound x (some (⟨pgkey, some f, true⟩ : PageGuard kind)) = true ↔ x = f := by
        rw [bound_some, Option.some_inj]
        exact ⟨fun hx => hx.2.symm, fun hx => ⟨rfl, hx.symm⟩⟩
      have hd : (s.vars.declare (⟨pgkey, some f, true⟩ : PageGuard kind)).held k x = _ := held_declare
      simpa only [hb] using hd
    · simp
  | moveConstruct kind that =>
    obtain ⟨g, hi⟩ := h
    exact moveConstruct_effect hs hi
  | moveAssign kind this that =>
    obtain ⟨⟨g, hi⟩, g', hj⟩ := h
    exact moveAssign_effect hs hi hj
  | drop kind this =>
    obtain ⟨g, hi, hf⟩ := h
    exact drop_effect hs hi hf
  | destruct kind this =>
    obtain ⟨g, hi⟩ := h
    exact destruct_effect hs hi

omit hs in
/-- The others do not. -/
theorem run_refused {op : Op} (h : ¬ Allowed s op) : Raises (run op) s (fun _ _ => True) := by
  cases op with
  | constructDefault kind => exact absurd trivial h
  | construct kind pgkey f =>
    obtain ⟨e, t, he, -⟩ := PageGuard.construct_blocks pgkey h
    exact Raises.bind_left ⟨e, _, zoom_error he, trivial⟩
  | moveConstruct kind that =>
    exact (read_error fun g hg => h ⟨g, hg⟩).bind_left
  | moveAssign kind this that =>
    by_cases hi : ∃ g, (s.vars kind)[this]? = some (some g)
    · obtain ⟨g, hg⟩ := hi
      exact .bind_eq (read_ok hg) (read_error fun g' hg' => h ⟨⟨g, hg⟩, g', hg'⟩).bind_left
    · exact (read_error fun g hg => hi ⟨g, hg⟩).bind_left
  | drop kind this =>
    by_cases hi : ∃ g, (s.vars kind)[this]? = some (some g)
    · obtain ⟨g, hg⟩ := hi
      have hf : Build.ndebug = false ∧ g.frame = none := by
        constructor
        · by_contra hb
          exact h ⟨g, hg, .inl (by simpa using hb)⟩
        · by_contra hb
          exact h ⟨g, hg, .inr hb⟩
      have ha : g.drop s.shared = .error .assertion s.shared :=
        bind_error (assert_fails hf.1 (by simp [hf.2]))
      exact .bind_eq (read_ok hg) (Raises.bind_left ⟨_, _, zoom_error ha, trivial⟩)
    · exact (read_error fun g hg => hi ⟨g, hg⟩).bind_left
  | destruct kind this =>
    exact (read_error fun g hg => h ⟨g, hg⟩).bind_left

end Run

/-- The calls an operation makes to the evictor. -/
def Calls (s t : GuardSession (Traced E)) (new : List EvictorCall) : Prop :=
  t.shared.evictor.calls = s.shared.evictor.calls ++ new

/-- `set_evictable(f, true)` is called once if the last pin of the frame goes, and else not. -/
theorem Effect.calls {s t : GuardSession (Traced E)} (h : Effect s t) :
    ∃ new, Calls s t new ∧ ∀ f, new.count (.setEvictable f true) =
      if (s.shared.frames f).pins = 1 ∧ (t.shared.frames f).pins = 0 then 1 else 0 := by
  cases h with
  | keep hsh hv =>
    refine ⟨[], by simp [Calls, hsh], fun f => ?_⟩
    rw [hsh, if_neg (by omega)]
    rfl
  | acquire kind f hfree hsh hv =>
    refine ⟨[.recordAccess f], by rw [Calls, hsh]; rfl, fun x => ?_⟩
    have hpins : ¬ ((s.shared.frames x).pins = 1 ∧ (t.shared.frames x).pins = 0) := by
      by_cases hx : x = f
      · simp [hsh, Shared.acquired, FrameHeader.acquired, hx]
      · simp only [hsh, Shared.acquired, Function.update_of_ne hx]
        omega
    rw [if_neg hpins]
    simp
  | release kind f hsh hv =>
    by_cases hone : (s.shared.frames f).pins = 1
    · refine ⟨[.setEvictable f true], ?_, fun x => ?_⟩
      · rw [Calls, hsh, Shared.released, if_pos hone]
        rfl
      · by_cases hx : x = f
        · subst hx
          simp [hsh, Shared.released, FrameHeader.released, hone]
        · simp only [hsh, Shared.released, Function.update_of_ne hx]
          rw [if_neg (by omega)]
          simp [Ne.symm hx]
    · refine ⟨[], ?_, fun x => ?_⟩
      · rw [Calls, hsh, Shared.released, if_neg hone, List.append_nil]
      · have hpins : ¬ ((s.shared.frames x).pins = 1 ∧ (t.shared.frames x).pins = 0) := by
          by_cases hx : x = f
          · subst hx
            exact fun h => hone h.1
          · simp only [hsh, Shared.released, Function.update_of_ne hx]
            omega
        rw [if_neg hpins]
        rfl

variable [Build]

/-- The states of a program that begins without guards, over frames that nobody holds or pins. -/
inductive Reached : GuardSession E → Prop where
  | start (frames : Nat → FrameHeader) (evictor : E)
      (h : ∀ f, (frames f).pins = 0 ∧ (frames f).readers = 0 ∧ (frames f).writer = false) :
      Reached ⟨⟨frames, false, evictor⟩, fun _ => []⟩
  | step {s t : GuardSession E} (op : Op) : Reached s → run op s = .ok () t → Reached t

theorem effect_of_ok {op : Op} (hs : Balanced s.shared s.vars) (h : run op s = .ok () t) :
    Effect s t ∧ Framed t.vars := by
  by_cases hop : Allowed s op
  · exact (returns_of_eq h).mp (run_effect hs hop)
  · exact absurd (⟨(), t, h, trivial⟩ : Returns (run op) s fun _ _ => True)
      (not_returns_of_raises (run_refused hop))

theorem balanced_of_reached (h : Reached s) : Balanced s.shared s.vars := by
  induction h with
  | start frames evictor h =>
    refine ⟨rfl, ?_, ?_, ?_, ?_⟩
    · intro kind g hg
      cases hg
    · intro f
      exact (h f).1
    · intro f
      exact (h f).2.1
    · intro f
      change (frames f).writer.toNat = 0
      rw [(h f).2.2]
      rfl
  | step op _ hrun ih =>
    obtain ⟨heffect, hframed⟩ := effect_of_ok ih hrun
    exact heffect.balanced ih hframed

/-- However guards are made, moved, dropped and destroyed, every frame is pinned and latched once
for each valid guard bound to it, and the evictor is told that a frame is free in the step that
takes its last pin away, once, and in no other. No allowed operation is stuck. -/
theorem guards_balance {s : GuardSession (Traced E)} (h : Reached s) :
    (∀ f, (s.shared.frames f).pins = s.vars.held .read f + s.vars.held .write f ∧
      (s.shared.frames f).readers = s.vars.held .read f ∧
      (s.shared.frames f).writer.toNat = s.vars.held .write f) ∧
    (∀ op, Allowed s op ↔ ∃ t, run op s = .ok () t) ∧
    ∀ op t, run op s = .ok () t → ∃ new, Calls s t new ∧ ∀ f, new.count (.setEvictable f true) =
      if (s.shared.frames f).pins = 1 ∧ (t.shared.frames f).pins = 0 then 1 else 0 := by
  have hs := balanced_of_reached h
  refine ⟨fun f => ⟨hs.pins f, hs.readers f, hs.writer f⟩, fun op => ⟨fun hop => ?_, ?_⟩, ?_⟩
  · obtain ⟨_, t, ht, -⟩ := run_effect hs hop
    exact ⟨t, ht⟩
  · rintro ⟨t, ht⟩
    by_contra hop
    obtain ⟨e, u, hu, -⟩ := run_refused hop
    rw [ht] at hu
    cases hu
  · intro op t ht
    exact (effect_of_ok hs ht).1.calls

omit [Build] in
/-- Two readers of a frame; the first guard is dropped twice. -/
theorem guards_balance_drop : ∃ s : GuardSession (Traced LRUKEvictor), @Reached _ _ ⟨false⟩ s ∧
    (s.shared.frames 0).pins = 1 ∧ s.vars.held .read 0 + s.vars.held .write 0 = 1 := by
  let _ : Build := ⟨false⟩
  have h0 := Reached.start (fun _ => {}) (⟨{ k := 2 }, []⟩ : Traced LRUKEvictor)
    (fun _ => ⟨rfl, rfl, rfl⟩)
  have h1 := h0.step (.construct .read (1, 1) 0) rfl
  have h2 := h1.step (.construct .read (1, 1) 0) rfl
  have h3 := h2.step (.drop .read 0) rfl
  have h4 := h3.step (.drop .read 0) rfl
  exact ⟨_, h4, rfl, ((guards_balance h4).1 0).1.symm⟩

end GuardSession

end Cpplite
