import Mathlib.Data.Finset.Basic
import Mathlib.Logic.Function.Basic
import Mathlib.Tactic
import Cpplite.Base

/-!
The latches of the buffer pool: `read_page`, `write_page` and the page guards of
`pageguard.cpp`, seen as the lock and unlock steps their threads take.

Every page is cached, so a thread waits for latches only. Acquisition takes the frame's
latch while it holds `bpm_latch_`; `drop` takes `bpm_latch_` while it holds the frame's
latch.
-/
namespace Cpplite.Latches

inductive Mode where
  | read
  | write
deriving DecidableEq

/-- One guard: `read_page` or `write_page` on a page, and its `drop`. -/
structure Request where
  mode : Mode
  page : PageKey

/-- Where a thread stands with its current request. -/
inductive Control where
  /-- Before `bpm_latch_->lock()` of `read_page` or `write_page`. -/
  | start
  /-- In the guard's constructor, before `lock_read` or `lock_write`; holds `bpm_latch_`. -/
  | latched
  /-- Behind the constructor, before `bpm_latch_->unlock()`; holds both. -/
  | guarded
  /-- The guard is in use, up to `bpm_latch_->lock()` of `drop`; holds the frame's latch. -/
  | holding
  /-- In `drop`, before `bpm_latch_->unlock()`; holds both. -/
  | dropping
  /-- Before `unlock_read` or `unlock_write`; holds the frame's latch. -/
  | releasing

/-- The threads with the requests still to come, the current one first, and the owners of the
latches. -/
structure State (T : Type) where
  pc : T → Control
  plan : T → List Request
  bpm : Option T
  excl : Nat → Option T
  shared : Nat → Finset T

variable {T : Type} [DecidableEq T]

def State.setPC (s : State T) (t : T) (c : Control) : State T :=
  { s with pc := Function.update s.pc t c }

def initial (plans : T → List Request) : State T where
  pc := fun _ => .start
  plan := plans
  bpm := none
  excl := fun _ => none
  shared := fun _ => ∅

variable (frameTable : PageKey → Nat)

/-- One thread takes one step. A `std::shared_mutex` is shared while nobody owns it, and owned
while nobody else has it. -/
inductive Step : State T → T → State T → Prop where
  | lockPool {s : State T} {t : T} (hpc : s.pc t = .start) (hplan : s.plan t ≠ [])
      (hfree : s.bpm = none) : Step s t { s.setPC t .latched with bpm := some t }
  | lockRead {s : State T} {t : T} {p : PageKey} {rest : List Request} (hpc : s.pc t = .latched)
      (hplan : s.plan t = ⟨.read, p⟩ :: rest) (hexcl : s.excl (frameTable p) = none) :
      Step s t { s.setPC t .guarded with
        shared := Function.update s.shared (frameTable p) (insert t (s.shared (frameTable p))) }
  | lockWrite {s : State T} {t : T} {p : PageKey} {rest : List Request} (hpc : s.pc t = .latched)
      (hplan : s.plan t = ⟨.write, p⟩ :: rest) (hexcl : s.excl (frameTable p) = none)
      (hshared : s.shared (frameTable p) = ∅) :
      Step s t { s.setPC t .guarded with excl := Function.update s.excl (frameTable p) (some t) }
  | unlockPool {s : State T} {t : T} (hpc : s.pc t = .guarded) :
      Step s t { s.setPC t .holding with bpm := none }
  | lockDrop {s : State T} {t : T} (hpc : s.pc t = .holding) (hfree : s.bpm = none) :
      Step s t { s.setPC t .dropping with bpm := some t }
  | unlockDrop {s : State T} {t : T} (hpc : s.pc t = .dropping) :
      Step s t { s.setPC t .releasing with bpm := none }
  | unlockRead {s : State T} {t : T} {p : PageKey} {rest : List Request}
      (hpc : s.pc t = .releasing) (hplan : s.plan t = ⟨.read, p⟩ :: rest) :
      Step s t { s.setPC t .start with
        plan := Function.update s.plan t rest
        shared := Function.update s.shared (frameTable p) ((s.shared (frameTable p)).erase t) }
  | unlockWrite {s : State T} {t : T} {p : PageKey} {rest : List Request}
      (hpc : s.pc t = .releasing) (hplan : s.plan t = ⟨.write, p⟩ :: rest) :
      Step s t { s.setPC t .start with
        plan := Function.update s.plan t rest
        excl := Function.update s.excl (frameTable p) none }

inductive Steps : State T → State T → Prop where
  | refl {s : State T} : Steps s s
  | tail {s u v : State T} {t : T} : Steps s u → Step frameTable u t v → Steps s v

/-- Somebody is not finished and nobody can take a step. -/
def Deadlock (s : State T) : Prop :=
  (∃ t, s.plan t ≠ []) ∧ ∀ t u, ¬ Step frameTable s t u

/-- Two threads come to use one frame, one of them to write. -/
def Contended (plans : T → List Request) : Prop :=
  ∃ t u r r', t ≠ u ∧ r ∈ plans t ∧ r' ∈ plans u ∧ r.mode = .write ∧
    frameTable r.page = frameTable r'.page

variable {frameTable} {s u v : State T} {t x : T} {plans plan : T → List Request}

theorem Steps.trans (h : Steps frameTable s u) (h' : Steps frameTable u v) :
    Steps frameTable s v := by
  induction h' with
  | refl => exact h
  | tail _ hstep ih => exact .tail ih hstep

@[simp] theorem setPC_self (c : Control) : (s.setPC t c).pc t = c := by
  simp [State.setPC]

theorem setPC_of_ne {c : Control} (h : x ≠ t) : (s.setPC t c).pc x = s.pc x := by
  simp [State.setPC, h]

/-! ### Who holds what -/

/-- The places where a thread holds `bpm_latch_`. -/
def InPool : Control → Prop
  | .latched | .guarded | .dropping => True
  | _ => False

/-- The places where it holds its frame's latch. -/
def InFrame : Control → Prop
  | .guarded | .holding | .dropping | .releasing => True
  | _ => False

/-- The thread is inside a request of this mode for this frame. -/
def Uses (frameTable : PageKey → Nat) (s : State T) (t : T) (m : Mode) (f : Nat) : Prop :=
  InFrame (s.pc t) ∧ ∃ p rest, s.plan t = ⟨m, p⟩ :: rest ∧ frameTable p = f

/-- The owners of the latches are where they can own them. -/
structure Owned (frameTable : PageKey → Nat) (plans : T → List Request) (s : State T) : Prop where
  sub : ∀ t, ∀ r ∈ s.plan t, r ∈ plans t
  active : ∀ t, s.pc t ≠ .start → s.plan t ≠ []
  pool : ∀ t, s.bpm = some t → InPool (s.pc t)
  excl : ∀ f t, s.excl f = some t → Uses frameTable s t .write f
  shared : ∀ f t, t ∈ s.shared f → Uses frameTable s t .read f

omit [DecidableEq T] in
theorem owned_initial : Owned frameTable plans (initial plans) := by
  refine ⟨fun _ _ h => h, fun _ h => absurd rfl h, ?_, ?_, ?_⟩ <;> intros <;> simp_all [initial]

omit [DecidableEq T] in
/-- What another thread is doing is not affected. -/
theorem Uses.frame {m : Mode} {f : Nat} (h : Uses frameTable s x m f) (hpc : u.pc x = s.pc x)
    (hplan : u.plan x = s.plan x) : Uses frameTable u x m f := by
  rw [Uses, hpc, hplan]
  exact h

omit [DecidableEq T] in
theorem not_uses {m : Mode} {f : Nat} (h : ¬ InFrame (s.pc t)) : ¬ Uses frameTable s t m f :=
  fun hu => h hu.1

/-- A thread that uses a frame still does when it moves on inside its request. -/
theorem Uses.move {m : Mode} {f : Nat} {c : Control} (h : Uses frameTable s x m f) (hc : InFrame c)
    (hpc : u.pc = (s.setPC t c).pc) (hplan : u.plan = s.plan) : Uses frameTable u x m f := by
  refine ⟨?_, by rw [hplan]; exact h.2⟩
  rw [hpc]
  by_cases hx : x = t
  · subst hx
    rwa [setPC_self]
  · rw [setPC_of_ne hx]
    exact h.1

/-- A thread that does not use a frame moves on: the others' use is as before. -/
theorem Uses.other {m : Mode} {f : Nat} {c : Control} (h : Uses frameTable s x m f)
    (ht : ¬ InFrame (s.pc t)) (hpc : u.pc = (s.setPC t c).pc) (hplan : u.plan = s.plan) :
    Uses frameTable u x m f := by
  have hx : x ≠ t := by
    rintro rfl
    exact not_uses ht h
  exact h.frame (by rw [hpc, setPC_of_ne hx]) (by rw [hplan])

/-- A step inside a request keeps the plans; what is left is who owns what. -/
theorem Owned.advance {c : Control} (hs : Owned frameTable plans s) (hne : s.plan t ≠ [])
    (hpc : u.pc = (s.setPC t c).pc) (hplan : u.plan = s.plan)
    (hpool : ∀ x, u.bpm = some x → (x = t ∧ InPool c) ∨ (x ≠ t ∧ s.bpm = some x))
    (hexcl : ∀ f x, u.excl f = some x → Uses frameTable u x .write f)
    (hshared : ∀ f x, x ∈ u.shared f → Uses frameTable u x .read f) :
    Owned frameTable plans u := by
  refine ⟨by rw [hplan]; exact hs.sub, ?_, ?_, hexcl, hshared⟩
  · intro x hx
    rw [hplan]
    by_cases hxt : x = t
    · rwa [hxt]
    · rw [hpc, setPC_of_ne hxt] at hx
      exact hs.active x hx
  · intro x hx
    rw [hpc]
    rcases hpool x hx with ⟨rfl, hin⟩ | ⟨hxt, hb⟩
    · rwa [setPC_self]
    · rw [setPC_of_ne hxt]
      exact hs.pool x hb

/-- The end of a request: the thread owns nothing any more. -/
theorem Owned.finish {r : Request} {rest : List Request} (hs : Owned frameTable plans s)
    (hpc : s.pc t = .releasing) (hplan : s.plan t = r :: rest)
    (hpc' : u.pc = (s.setPC t .start).pc) (hplan' : u.plan = Function.update s.plan t rest)
    (hbpm : u.bpm = s.bpm) (hexcl : ∀ f x, u.excl f = some x → x ≠ t ∧ s.excl f = some x)
    (hshared : ∀ f x, x ∈ u.shared f → x ≠ t ∧ x ∈ s.shared f) : Owned frameTable plans u := by
  have hother : ∀ x, x ≠ t → u.pc x = s.pc x ∧ u.plan x = s.plan x := by
    intro x hx
    rw [hpc', hplan', setPC_of_ne hx, Function.update_of_ne hx]
    exact ⟨rfl, rfl⟩
  refine ⟨?_, ?_, ?_, ?_, ?_⟩
  · intro x r' hr'
    by_cases hx : x = t
    · subst hx
      rw [hplan', Function.update_self] at hr'
      exact hs.sub x r' (by rw [hplan]; exact List.mem_cons_of_mem _ hr')
    · rw [(hother x hx).2] at hr'
      exact hs.sub x r' hr'
  · intro x hx
    by_cases hxt : x = t
    · subst hxt
      rw [hpc', setPC_self] at hx
      exact absurd rfl hx
    · rw [(hother x hxt).1] at hx
      rw [(hother x hxt).2]
      exact hs.active x hx
  · intro x hx
    rw [hbpm] at hx
    have hin := hs.pool x hx
    have hxt : x ≠ t := by
      rintro rfl
      rw [hpc] at hin
      exact hin
    rwa [(hother x hxt).1]
  · intro f x hx
    obtain ⟨hxt, hx⟩ := hexcl f x hx
    exact (hs.excl f x hx).frame (hother x hxt).1 (hother x hxt).2
  · intro f x hx
    obtain ⟨hxt, hx⟩ := hshared f x hx
    exact (hs.shared f x hx).frame (hother x hxt).1 (hother x hxt).2

theorem owned_step (h : Step frameTable s t u) (hs : Owned frameTable plans s) :
    Owned frameTable plans u := by
  cases h with
  | lockPool hpc hplan hfree =>
    have hnot : ¬ InFrame (s.pc t) := by
      rw [hpc]
      exact id
    refine hs.advance hplan rfl rfl ?_ ?_ ?_
    · intro x hx
      cases hx
      exact .inl ⟨rfl, trivial⟩
    · exact fun f x hx => (hs.excl f x hx).other hnot rfl rfl
    · exact fun f x hx => (hs.shared f x hx).other hnot rfl rfl
  | @lockRead p rest hpc hplan hexcl =>
    have hnot : ¬ InFrame (s.pc t) := by
      rw [hpc]
      exact id
    refine hs.advance (by rw [hplan]; simp) rfl rfl ?_ ?_ ?_
    · intro x hx
      by_cases hxt : x = t
      · exact .inl ⟨hxt, trivial⟩
      · exact .inr ⟨hxt, hx⟩
    · exact fun f x hx => (hs.excl f x hx).other hnot rfl rfl
    · intro f x hx
      by_cases hf : f = frameTable p
      · subst hf
        simp only [Function.update_self, Finset.mem_insert] at hx
        rcases hx with rfl | hx
        · exact ⟨by simp [InFrame], p, rest, hplan, rfl⟩
        · exact (hs.shared _ x hx).other hnot rfl rfl
      · simp only [Function.update_of_ne hf] at hx
        exact (hs.shared f x hx).other hnot rfl rfl
  | @lockWrite p rest hpc hplan hexcl hshared =>
    have hnot : ¬ InFrame (s.pc t) := by
      rw [hpc]
      exact id
    refine hs.advance (by rw [hplan]; simp) rfl rfl ?_ ?_ ?_
    · intro x hx
      by_cases hxt : x = t
      · exact .inl ⟨hxt, trivial⟩
      · exact .inr ⟨hxt, hx⟩
    · intro f x hx
      by_cases hf : f = frameTable p
      · subst hf
        simp only [Function.update_self, Option.some_inj] at hx
        subst hx
        exact ⟨by simp [InFrame], p, rest, hplan, rfl⟩
      · simp only [Function.update_of_ne hf] at hx
        exact (hs.excl f x hx).other hnot rfl rfl
    · exact fun f x hx => (hs.shared f x hx).other hnot rfl rfl
  | unlockPool hpc =>
    refine hs.advance (hs.active t (by rw [hpc]; simp)) rfl rfl ?_ ?_ ?_
    · intro x hx
      cases hx
    · exact fun f x hx => (hs.excl f x hx).move (c := .holding) trivial rfl rfl
    · exact fun f x hx => (hs.shared f x hx).move (c := .holding) trivial rfl rfl
  | lockDrop hpc hfree =>
    refine hs.advance (hs.active t (by rw [hpc]; simp)) rfl rfl ?_ ?_ ?_
    · intro x hx
      cases hx
      exact .inl ⟨rfl, trivial⟩
    · exact fun f x hx => (hs.excl f x hx).move (c := .dropping) trivial rfl rfl
    · exact fun f x hx => (hs.shared f x hx).move (c := .dropping) trivial rfl rfl
  | unlockDrop hpc =>
    refine hs.advance (hs.active t (by rw [hpc]; simp)) rfl rfl ?_ ?_ ?_
    · intro x hx
      cases hx
    · exact fun f x hx => (hs.excl f x hx).move (c := .releasing) trivial rfl rfl
    · exact fun f x hx => (hs.shared f x hx).move (c := .releasing) trivial rfl rfl
  | @unlockRead p rest hpc hplan =>
    refine hs.finish hpc hplan rfl rfl rfl ?_ ?_
    · intro f x hx
      refine ⟨?_, hx⟩
      rintro rfl
      obtain ⟨-, q, rest', hq, -⟩ := hs.excl f x hx
      rw [hplan] at hq
      cases hq
    · intro f x hx
      by_cases hf : f = frameTable p
      · subst hf
        simp only [Function.update_self, Finset.mem_erase] at hx
        exact hx
      · simp only [Function.update_of_ne hf] at hx
        refine ⟨?_, hx⟩
        rintro rfl
        obtain ⟨-, q, rest', hq, hqf⟩ := hs.shared f x hx
        rw [hplan] at hq
        cases hq
        exact hf hqf.symm
  | @unlockWrite p rest hpc hplan =>
    refine hs.finish hpc hplan rfl rfl rfl ?_ ?_
    · intro f x hx
      by_cases hf : f = frameTable p
      · subst hf
        simp only [Function.update_self] at hx
        cases hx
      · simp only [Function.update_of_ne hf] at hx
        refine ⟨?_, hx⟩
        rintro rfl
        obtain ⟨-, q, rest', hq, hqf⟩ := hs.excl f x hx
        rw [hplan] at hq
        cases hq
        exact hf hqf.symm
    · intro f x hx
      refine ⟨?_, hx⟩
      rintro rfl
      obtain ⟨-, q, rest', hq, -⟩ := hs.shared f x hx
      rw [hplan] at hq
      cases hq

theorem owned_steps (h : Steps frameTable (initial plans) s) : Owned frameTable plans s := by
  induction h with
  | refl => exact owned_initial
  | tail _ hstep ih => exact owned_step hstep ih

/-! ### No contention, no deadlock -/

/-- Without contention, a thread in a guard's constructor gets the frame's latch. -/
theorem latched_moves (hs : Owned frameTable plans s) (hno : ¬ Contended frameTable plans)
    (hpc : s.pc t = .latched) : ∃ u, Step frameTable s t u := by
  have hnot : ∀ {m f}, ¬ Uses frameTable s t m f := fun hu => by
    have hin := hu.1
    rw [hpc] at hin
    exact hin
  obtain ⟨⟨m, p⟩, rest, hplan⟩ := List.exists_cons_of_ne_nil (hs.active t (by rw [hpc]; simp))
  have hr : (⟨m, p⟩ : Request) ∈ plans t := hs.sub t _ (by simp [hplan])
  have hexcl : s.excl (frameTable p) = none := by
    cases he : s.excl (frameTable p) with
    | none => rfl
    | some x =>
      obtain ⟨hin, q, rest', hq, hqf⟩ := hs.excl _ x he
      have hx : x ≠ t := by
        rintro rfl
        exact hnot ⟨hin, q, rest', hq, hqf⟩
      exact absurd ⟨x, t, ⟨.write, q⟩, ⟨m, p⟩, hx, hs.sub x _ (by simp [hq]), hr, rfl, hqf⟩ hno
  cases m with
  | read => exact ⟨_, .lockRead hpc hplan hexcl⟩
  | write =>
    have hshared : s.shared (frameTable p) = ∅ := by
      apply Finset.eq_empty_of_forall_notMem
      intro x hx
      obtain ⟨hin, q, rest', hq, hqf⟩ := hs.shared _ x hx
      have hxt : t ≠ x := by
        rintro rfl
        exact hnot ⟨hin, q, rest', hq, hqf⟩
      exact hno ⟨t, x, ⟨.write, p⟩, ⟨.read, q⟩, hxt, hr, hs.sub x _ (by simp [hq]), rfl, hqf.symm⟩
    exact ⟨_, .lockWrite hpc hplan hexcl hshared⟩

/-- A thread that does not wait for `bpm_latch_` can move. -/
theorem moves_of_free (hs : Owned frameTable plans s) (hno : ¬ Contended frameTable plans)
    (hplan : s.plan t ≠ []) (h : s.bpm = none ∨ InPool (s.pc t)) : ∃ u, Step frameTable s t u := by
  cases hpc : s.pc t with
  | start =>
    rcases h with hfree | hin
    · exact ⟨_, .lockPool hpc hplan hfree⟩
    · rw [hpc] at hin
      exact hin.elim
  | latched => exact latched_moves hs hno hpc
  | guarded => exact ⟨_, .unlockPool hpc⟩
  | holding =>
    rcases h with hfree | hin
    · exact ⟨_, .lockDrop hpc hfree⟩
    · rw [hpc] at hin
      exact hin.elim
  | dropping => exact ⟨_, .unlockDrop hpc⟩
  | releasing =>
    obtain ⟨⟨m, p⟩, rest, hr⟩ := List.exists_cons_of_ne_nil hplan
    cases m with
    | read => exact ⟨_, .unlockRead hpc hr⟩
    | write => exact ⟨_, .unlockWrite hpc hr⟩

theorem not_deadlock_of_owned (hs : Owned frameTable plans s) (hno : ¬ Contended frameTable plans) :
    ¬ Deadlock frameTable s := by
  rintro ⟨⟨t, ht⟩, hstuck⟩
  cases hb : s.bpm with
  | none =>
    obtain ⟨u, hu⟩ := moves_of_free hs hno ht (.inl hb)
    exact hstuck t u hu
  | some x =>
    have hin := hs.pool x hb
    have hx : s.plan x ≠ [] := hs.active x (by
      intro hpc
      rw [hpc] at hin
      exact hin)
    obtain ⟨u, hu⟩ := moves_of_free hs hno hx (.inr hin)
    exact hstuck x u hu

/-! ### Contention, a deadlock -/

section Acquire

variable {p : PageKey} {rest : List Request}

/-- A thread gets its read guard, when nothing stands in the way. -/
theorem acquireRead (hpc : s.pc t = .start) (hplan : s.plan t = ⟨.read, p⟩ :: rest)
    (hb : s.bpm = none) (he : s.excl (frameTable p) = none) :
    Steps frameTable s ⟨Function.update s.pc t .holding, s.plan, none, s.excl,
      Function.update s.shared (frameTable p) (insert t (s.shared (frameTable p)))⟩ := by
  generalize hs₁ : ({ s.setPC t .latched with bpm := some t } : State T) = s₁
  have h1 : Step frameTable s t s₁ := hs₁ ▸ .lockPool hpc (by simp [hplan]) hb
  generalize hs₂ : ({ s₁.setPC t .guarded with
    shared := Function.update s₁.shared (frameTable p)
      (insert t (s₁.shared (frameTable p))) } : State T) = s₂
  have h2 : Step frameTable s₁ t s₂ := by
    subst hs₁ hs₂
    exact .lockRead (setPC_self _) hplan he
  generalize hs₃ : ({ s₂.setPC t .holding with bpm := none } : State T) = s₃
  have h3 : Step frameTable s₂ t s₃ := by
    subst hs₂ hs₃
    exact .unlockPool (setPC_self _)
  have hend : s₃ = ⟨Function.update s.pc t .holding, s.plan, none, s.excl,
      Function.update s.shared (frameTable p) (insert t (s.shared (frameTable p)))⟩ := by
    subst hs₁ hs₂ hs₃
    simp [State.setPC]
  rw [← hend]
  exact ((Steps.refl.tail h1).tail h2).tail h3

/-- And its write guard. -/
theorem acquireWrite (hpc : s.pc t = .start) (hplan : s.plan t = ⟨.write, p⟩ :: rest)
    (hb : s.bpm = none) (he : s.excl (frameTable p) = none) (hsh : s.shared (frameTable p) = ∅) :
    Steps frameTable s ⟨Function.update s.pc t .holding, s.plan, none,
      Function.update s.excl (frameTable p) (some t), s.shared⟩ := by
  generalize hs₁ : ({ s.setPC t .latched with bpm := some t } : State T) = s₁
  have h1 : Step frameTable s t s₁ := hs₁ ▸ .lockPool hpc (by simp [hplan]) hb
  generalize hs₂ : ({ s₁.setPC t .guarded with
    excl := Function.update s₁.excl (frameTable p) (some t) } : State T) = s₂
  have h2 : Step frameTable s₁ t s₂ := by
    subst hs₁ hs₂
    exact .lockWrite (setPC_self _) hplan he hsh
  generalize hs₃ : ({ s₂.setPC t .holding with bpm := none } : State T) = s₃
  have h3 : Step frameTable s₂ t s₃ := by
    subst hs₂ hs₃
    exact .unlockPool (setPC_self _)
  have hend : s₃ = ⟨Function.update s.pc t .holding, s.plan, none,
      Function.update s.excl (frameTable p) (some t), s.shared⟩ := by
    subst hs₁ hs₂ hs₃
    simp [State.setPC]
  rw [← hend]
  exact ((Steps.refl.tail h1).tail h2).tail h3

/-- A guard is dropped, up to the frame's latch. -/
theorem dropPool (hpc : s.pc t = .holding) (hb : s.bpm = none) :
    Steps frameTable s ⟨Function.update s.pc t .releasing, s.plan, none, s.excl, s.shared⟩ := by
  generalize hs₁ : ({ s.setPC t .dropping with bpm := some t } : State T) = s₁
  have h1 : Step frameTable s t s₁ := hs₁ ▸ .lockDrop hpc hb
  generalize hs₂ : ({ s₁.setPC t .releasing with bpm := none } : State T) = s₂
  have h2 : Step frameTable s₁ t s₂ := by
    subst hs₁ hs₂
    exact .unlockDrop (setPC_self _)
  have hend : s₂ = ⟨Function.update s.pc t .releasing, s.plan, none, s.excl, s.shared⟩ := by
    subst hs₁ hs₂
    simp [State.setPC]
  rw [← hend]
  exact (Steps.refl.tail h1).tail h2

end Acquire

/-- A thread alone goes through one request. -/
theorem solo {r : Request} {rest : List Request} (h : plan t = r :: rest) :
    Steps frameTable (initial plan) (initial (Function.update plan t rest)) := by
  obtain ⟨m, p⟩ := r
  cases m with
  | read =>
    have h1 : Steps frameTable (initial plan) ⟨Function.update (fun _ => .start) t .holding, plan,
        none, fun _ => none, Function.update (fun _ => ∅) (frameTable p) (insert t ∅)⟩ :=
      acquireRead rfl h rfl rfl
    have h2 := h1.trans (dropPool (t := t) (by simp) rfl)
    have h3 := h2.tail (.unlockRead (t := t) (by simp) h)
    have hend : (fun _ => ∅ : Nat → Finset T) = Function.update (Function.update (fun _ => ∅)
        (frameTable p) (insert t ∅)) (frameTable p) ((insert t ∅ : Finset T).erase t) := by
      rw [Function.update_idem, Finset.erase_insert (by simp), Function.update_eq_self]
    simpa [initial, State.setPC, ← hend] using h3
  | write =>
    have h1 : Steps frameTable (initial plan) ⟨Function.update (fun _ => .start) t .holding, plan,
        none, Function.update (fun _ => none) (frameTable p) (some t), fun _ => ∅⟩ :=
      acquireWrite rfl h rfl rfl rfl
    have h2 := h1.trans (dropPool (t := t) (by simp) rfl)
    have h3 := h2.tail (.unlockWrite (t := t) (by simp) h)
    simpa [initial, State.setPC] using h3

/-- A thread alone goes through a part of its plan. -/
theorem solo_all {pre rest : List Request} (h : plan t = pre ++ rest) :
    Steps frameTable (initial plan) (initial (Function.update plan t rest)) := by
  induction pre generalizing plan with
  | nil =>
    have hsame : Function.update plan t rest = plan := by
      rw [← List.nil_append rest, ← h, Function.update_eq_self]
    rw [hsame]
    exact .refl
  | cons r pre ih =>
    have hrest : Steps frameTable (initial (Function.update plan t (pre ++ rest))) _ :=
      ih (Function.update_self _ _ _)
    rw [Function.update_idem] at hrest
    exact (solo h).trans hrest

/-- The writer holds the frame and wants `bpm_latch_`; the other holds `bpm_latch_` and wants the
frame. -/
theorem deadlock_of_contended (h : Contended frameTable plans) :
    ∃ s, Steps frameTable (initial plans) s ∧ Deadlock frameTable s := by
  obtain ⟨t, x, ⟨m, p⟩, r', htx, hr, hr', hm, hf⟩ := h
  simp only at hm hf
  subst hm
  obtain ⟨pre, rest, hpt⟩ := List.append_of_mem hr
  obtain ⟨pre', rest', hpx⟩ := List.append_of_mem hr'
  have hpx' : Function.update plans t (⟨.write, p⟩ :: rest) x = pre' ++ r' :: rest' := by
    rw [Function.update_of_ne (Ne.symm htx), hpx]
  have hquiet : Steps frameTable (initial plans) _ := (solo_all hpt).trans (solo_all hpx')
  generalize hplan : Function.update (Function.update plans t (⟨.write, p⟩ :: rest)) x
    (r' :: rest') = plan at hquiet
  have ht : plan t = ⟨.write, p⟩ :: rest := by
    rw [← hplan, Function.update_of_ne htx, Function.update_self]
  have hx : plan x = r' :: rest' := by rw [← hplan, Function.update_self]
  have hguard : Steps frameTable (initial plan) ⟨Function.update (fun _ => .start) t .holding, plan,
      none, Function.update (fun _ => none) (frameTable p) (some t), fun _ => ∅⟩ :=
    acquireWrite rfl ht rfl rfl rfl
  have hlast := (hquiet.trans hguard).tail (.lockPool (t := x) (by simp [Ne.symm htx]) (by simp [hx]) rfl)
  refine ⟨_, hlast, ⟨t, by simp [State.setPC, ht]⟩, ?_⟩
  -- nobody can move: `bpm_latch_` is taken, and so is the one frame that is waited for
  have hpcs : ∀ y c, Function.update (Function.update (fun _ => Control.start) t .holding) x .latched y =
      c → c = .latched ∧ y = x ∨ c = .holding ∨ c = .start := by
    rintro y c rfl
    by_cases hy : y = x
    · exact .inl ⟨by rw [hy, Function.update_self], hy⟩
    · rw [Function.update_of_ne hy]
      by_cases hyt : y = t
      · exact .inr (.inl (by rw [hyt, Function.update_self]))
      · exact .inr (.inr (Function.update_of_ne hyt _ _))
  have hexcl : ∀ {y : T} {q : PageKey} {m : Mode} {rest'' : List Request},
      Function.update (Function.update (fun _ => Control.start) t .holding) x .latched y = .latched →
      plan y = ⟨m, q⟩ :: rest'' →
      Function.update (fun _ => none) (frameTable p) (some t) (frameTable q) ≠ none := by
    intro y q m rest'' hpc hpl
    rcases hpcs y _ hpc with ⟨-, hy⟩ | h | h
    rotate_left
    · cases h
    · cases h
    rw [hy, hx] at hpl
    have hq : r'.page = q := congrArg Request.page (List.cons.inj hpl).1
    rw [← hq, ← hf, Function.update_self]
    simp
  intro y u hstep
  cases hstep with
  | lockPool _ _ hfree => cases hfree
  | lockRead hpc hpl hfree => exact hexcl hpc hpl hfree
  | lockWrite hpc hpl hfree _ => exact hexcl hpc hpl hfree
  | lockDrop _ hfree => cases hfree
  | unlockPool hpc =>
    rcases hpcs y _ hpc with ⟨h, -⟩ | h | h <;> cases h
  | unlockDrop hpc =>
    rcases hpcs y _ hpc with ⟨h, -⟩ | h | h <;> cases h
  | unlockRead hpc _ =>
    rcases hpcs y _ hpc with ⟨h, -⟩ | h | h <;> cases h
  | unlockWrite hpc _ =>
    rcases hpcs y _ hpc with ⟨h, -⟩ | h | h <;> cases h

/-- Threads that take one guard at a time never deadlock, exactly when no thread writes a frame
that another thread also uses. -/
theorem never_deadlock_iff (frameTable : PageKey → Nat) (plans : T → List Request) :
    (∀ s, Steps frameTable (initial plans) s → ¬ Deadlock frameTable s) ↔
      ¬ Contended frameTable plans := by
  constructor
  · intro h hc
    obtain ⟨s, hsteps, hdead⟩ := deadlock_of_contended hc
    exact h s hsteps hdead
  · intro hno s hsteps
    exact not_deadlock_of_owned (owned_steps hsteps) hno

/-- Two threads, each to write the same page once. -/
theorem deadlock_two_writers : ¬ ∀ (plans : Fin 2 → List Request) (s : State (Fin 2)),
    Steps (fun p => p.2) (initial plans) s → ¬ Deadlock (fun p => p.2) s := by
  intro h
  have hc : Contended (fun p => p.2) (fun _ : Fin 2 => [⟨.write, (0, 1)⟩]) :=
    ⟨0, 1, ⟨.write, (0, 1)⟩, ⟨.write, (0, 1)⟩, by decide, by simp, by simp, rfl, rfl⟩
  obtain ⟨s, hsteps, hdead⟩ := deadlock_of_contended hc
  exact h _ s hsteps hdead

end Cpplite.Latches
