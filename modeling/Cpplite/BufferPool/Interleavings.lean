import Mathlib.Algebra.BigOperators.Group.Finset.Basic
import Mathlib.Data.Fintype.Basic
import Cpplite.BufferPool.Latches

/-!
What holds in every interleaving of threads that take one guard at a time: `bpm_latch_` and the
frames' latches keep them apart, and no run goes on for ever.
-/
namespace Cpplite.Latches

variable {T : Type} [DecidableEq T] {frameTable : PageKey → Nat} {s u v : State T} {t x : T}
  {plans : T → List Request} {m : Mode} {f : Nat}

/-! ### Threads apart -/

/-- Where a thread is, it holds what it needs there. -/
structure Held (frameTable : PageKey → Nat) (s : State T) : Prop where
  pool : ∀ t, InPool (s.pc t) → s.bpm = some t
  excl : ∀ f t, Uses frameTable s t .write f → s.excl f = some t
  shared : ∀ f t, Uses frameTable s t .read f → t ∈ s.shared f
  apart : ∀ f t, s.excl f = some t → s.shared f = ∅

omit [DecidableEq T] in
theorem held_initial : Held frameTable (initial plans) := by
  refine ⟨fun t h => ?_, fun f t h => ?_, fun f t h => ?_, fun f t h => ?_⟩
  · exact h.elim
  · exact h.1.elim
  · exact h.1.elim
  · rfl

/-- Who does not take the step stays where it is. -/
theorem step_other (h : Step frameTable s t u) (hx : x ≠ t) :
    u.pc x = s.pc x ∧ u.plan x = s.plan x := by
  cases h <;> simp [State.setPC, hx]

theorem uses_other (h : Step frameTable s t u) (hx : x ≠ t) (hu : Uses frameTable u x m f) :
    Uses frameTable s x m f := by
  obtain ⟨hpc, hplan⟩ := step_other h hx
  exact hu.frame hpc.symm hplan.symm

/-- The frames' latches stay with those who have them. -/
theorem Held.keep (hs : Held frameTable s) (h : Step frameTable s t u)
    (hpool : ∀ x, InPool (u.pc x) → u.bpm = some x) (hexcl : u.excl = s.excl)
    (hshared : u.shared = s.shared)
    (huses : ∀ m f, Uses frameTable u t m f → Uses frameTable s t m f) : Held frameTable u := by
  have hall : ∀ x m f, Uses frameTable u x m f → Uses frameTable s x m f := by
    intro x m f hu
    by_cases hx : x = t
    · subst hx
      exact huses m f hu
    · exact uses_other h hx hu
  refine ⟨hpool, fun f x hu => ?_, fun f x hu => ?_, fun f x hx => ?_⟩
  · rw [hexcl]
    exact hs.excl f x (hall x _ f hu)
  · rw [hshared]
    exact hs.shared f x (hall x _ f hu)
  · rw [hshared]
    exact hs.apart f x (hexcl ▸ hx)

/-- `bpm_latch_` is taken. -/
theorem pool_taken {c : Control} (hs : Held frameTable s) (hfree : s.bpm = none)
    (hpc : u.pc = (s.setPC t c).pc) (hbpm : u.bpm = some t) :
    ∀ x, InPool (u.pc x) → u.bpm = some x := by
  intro x hx
  by_cases hxt : x = t
  · rw [hbpm, hxt]
  · rw [hpc, setPC_of_ne hxt] at hx
    have hb := hs.pool x hx
    rw [hfree] at hb
    cases hb

/-- `bpm_latch_` is given back. -/
theorem pool_left {c : Control} (hs : Held frameTable s) (ht : InPool (s.pc t)) (hc : ¬ InPool c)
    (hpc : u.pc = (s.setPC t c).pc) : ∀ x, InPool (u.pc x) → u.bpm = some x := by
  intro x hx
  by_cases hxt : x = t
  · subst hxt
    rw [hpc, setPC_self] at hx
    exact absurd hx hc
  · rw [hpc, setPC_of_ne hxt] at hx
    have hb := hs.pool x hx
    rw [hs.pool t ht, Option.some_inj] at hb
    exact absurd hb.symm hxt

/-- `bpm_latch_` stays with its owner. -/
theorem pool_kept {c : Control} (hs : Held frameTable s) (hc : InPool c → InPool (s.pc t))
    (hpc : u.pc = (s.setPC t c).pc) (hbpm : u.bpm = s.bpm) :
    ∀ x, InPool (u.pc x) → u.bpm = some x := by
  intro x hx
  rw [hbpm]
  by_cases hxt : x = t
  · subst hxt
    rw [hpc, setPC_self] at hx
    exact hs.pool x (hc hx)
  · rw [hpc, setPC_of_ne hxt] at hx
    exact hs.pool x hx

section Frame

variable {p : PageKey} {rest : List Request}

theorem Held.lockRead (hs : Held frameTable s) (h : Step frameTable s t u)
    (hpool : ∀ x, InPool (u.pc x) → u.bpm = some x) (hplan : u.plan t = ⟨.read, p⟩ :: rest)
    (hfree : s.excl (frameTable p) = none) (hexcl : u.excl = s.excl)
    (hshared : u.shared = Function.update s.shared (frameTable p) (insert t (s.shared (frameTable p)))) :
    Held frameTable u := by
  refine ⟨hpool, fun f x hu => ?_, fun f x hu => ?_, fun f x hx => ?_⟩
  · have hx : x ≠ t := by
      rintro rfl
      obtain ⟨-, q, rest', hq, -⟩ := hu
      rw [hplan] at hq
      cases hq
    rw [hexcl]
    exact hs.excl f x (uses_other h hx hu)
  · rw [hshared]
    by_cases hx : x = t
    · subst hx
      obtain ⟨-, q, rest', hq, rfl⟩ := hu
      rw [hplan] at hq
      cases hq
      simp
    · have hmem := hs.shared f x (uses_other h hx hu)
      by_cases hf : f = frameTable p
      · subst hf
        simp [hmem]
      · simpa [hf] using hmem
  · rw [hexcl] at hx
    have hne : f ≠ frameTable p := by
      rintro rfl
      rw [hfree] at hx
      cases hx
    rw [hshared, Function.update_of_ne hne]
    exact hs.apart f x hx

theorem Held.lockWrite (hs : Held frameTable s) (h : Step frameTable s t u)
    (hpool : ∀ x, InPool (u.pc x) → u.bpm = some x) (hplan : u.plan t = ⟨.write, p⟩ :: rest)
    (hfree : s.excl (frameTable p) = none) (hnone : s.shared (frameTable p) = ∅)
    (hexcl : u.excl = Function.update s.excl (frameTable p) (some t)) (hshared : u.shared = s.shared) :
    Held frameTable u := by
  refine ⟨hpool, fun f x hu => ?_, fun f x hu => ?_, fun f x hx => ?_⟩
  · rw [hexcl]
    by_cases hx : x = t
    · subst hx
      obtain ⟨-, q, rest', hq, rfl⟩ := hu
      rw [hplan] at hq
      cases hq
      simp
    · have hex := hs.excl f x (uses_other h hx hu)
      have hne : f ≠ frameTable p := by
        rintro rfl
        rw [hfree] at hex
        cases hex
      rwa [Function.update_of_ne hne]
  · have hx : x ≠ t := by
      rintro rfl
      obtain ⟨-, q, rest', hq, -⟩ := hu
      rw [hplan] at hq
      cases hq
    rw [hshared]
    exact hs.shared f x (uses_other h hx hu)
  · rw [hshared]
    by_cases hf : f = frameTable p
    · subst hf
      exact hnone
    · rw [hexcl, Function.update_of_ne hf] at hx
      exact hs.apart f x hx

theorem Held.unlockRead (hs : Held frameTable s) (h : Step frameTable s t u)
    (hpool : ∀ x, InPool (u.pc x) → u.bpm = some x) (hout : ¬ InFrame (u.pc t)) (hexcl : u.excl = s.excl)
    (hshared : u.shared = Function.update s.shared (frameTable p) ((s.shared (frameTable p)).erase t)) :
    Held frameTable u := by
  have hne : ∀ {x m f}, Uses frameTable u x m f → x ≠ t := by
    rintro x m f hu rfl
    exact not_uses hout hu
  refine ⟨hpool, fun f x hu => ?_, fun f x hu => ?_, fun f x hx => ?_⟩
  · rw [hexcl]
    exact hs.excl f x (uses_other h (hne hu) hu)
  · have hmem := hs.shared f x (uses_other h (hne hu) hu)
    rw [hshared]
    by_cases hf : f = frameTable p
    · subst hf
      simp [hmem, hne hu]
    · rwa [Function.update_of_ne hf]
  · have hnone := hs.apart f x (hexcl ▸ hx)
    rw [hshared]
    by_cases hf : f = frameTable p
    · subst hf
      simp [hnone]
    · rwa [Function.update_of_ne hf]

theorem Held.unlockWrite (hs : Held frameTable s) (h : Step frameTable s t u)
    (hpool : ∀ x, InPool (u.pc x) → u.bpm = some x) (hout : ¬ InFrame (u.pc t))
    (hown : s.excl (frameTable p) = some t)
    (hexcl : u.excl = Function.update s.excl (frameTable p) none) (hshared : u.shared = s.shared) :
    Held frameTable u := by
  have hne : ∀ {x m f}, Uses frameTable u x m f → x ≠ t := by
    rintro x m f hu rfl
    exact not_uses hout hu
  refine ⟨hpool, fun f x hu => ?_, fun f x hu => ?_, fun f x hx => ?_⟩
  · have hex := hs.excl f x (uses_other h (hne hu) hu)
    have hf : f ≠ frameTable p := by
      rintro rfl
      rw [hown, Option.some_inj] at hex
      exact hne hu hex.symm
    rwa [hexcl, Function.update_of_ne hf]
  · rw [hshared]
    exact hs.shared f x (uses_other h (hne hu) hu)
  · rw [hshared]
    by_cases hf : f = frameTable p
    · subst hf
      rw [hexcl, Function.update_self] at hx
      cases hx
    · rw [hexcl, Function.update_of_ne hf] at hx
      exact hs.apart f x hx

end Frame

theorem held_step (h : Step frameTable s t u) (hs : Held frameTable s) : Held frameTable u := by
  have hstep := h
  cases h with
  | lockPool hpc hplan hfree =>
    refine hs.keep hstep (pool_taken hs hfree rfl rfl) rfl rfl fun m f hu => ?_
    have hin := hu.1
    rw [show InFrame _ = InFrame Control.latched from congrArg InFrame (setPC_self _)] at hin
    exact hin.elim
  | lockRead hpc hplan hexcl =>
    exact hs.lockRead hstep (pool_kept hs (fun _ => by rw [hpc]; trivial) rfl rfl) hplan hexcl rfl rfl
  | lockWrite hpc hplan hexcl hshared =>
    exact hs.lockWrite hstep (pool_kept hs (fun _ => by rw [hpc]; trivial) rfl rfl) hplan hexcl hshared
      rfl rfl
  | unlockPool hpc =>
    refine hs.keep hstep (pool_left hs (by rw [hpc]; trivial) id rfl) rfl rfl fun m f hu => ?_
    exact ⟨by rw [hpc]; trivial, hu.2⟩
  | lockDrop hpc hfree =>
    refine hs.keep hstep (pool_taken hs hfree rfl rfl) rfl rfl fun m f hu => ?_
    exact ⟨by rw [hpc]; trivial, hu.2⟩
  | unlockDrop hpc =>
    refine hs.keep hstep (pool_left hs (by rw [hpc]; trivial) id rfl) rfl rfl fun m f hu => ?_
    exact ⟨by rw [hpc]; trivial, hu.2⟩
  | unlockRead hpc hplan =>
    refine hs.unlockRead hstep (pool_kept hs False.elim rfl rfl) ?_ rfl rfl
    rw [show InFrame _ = InFrame Control.start from congrArg InFrame (setPC_self _)]
    exact id
  | @unlockWrite p rest hpc hplan =>
    refine hs.unlockWrite hstep (pool_kept hs False.elim rfl rfl) ?_ ?_ rfl rfl
    · rw [show InFrame _ = InFrame Control.start from congrArg InFrame (setPC_self _)]
      exact id
    · exact hs.excl _ t ⟨by rw [hpc]; trivial, p, rest, hplan, rfl⟩

theorem held_steps (h : Steps frameTable (initial plans) s) : Held frameTable s := by
  induction h with
  | refl => exact held_initial
  | tail _ hstep ih => exact held_step hstep ih

/-- In every interleaving, one thread at a time is inside `bpm_latch_`, and who has a frame to write has
it alone, from the guard's constructor to the unlock in `drop`. -/
theorem steps_exclude (h : Steps frameTable (initial plans) s) :
    (∀ t x, InPool (s.pc t) → InPool (s.pc x) → t = x) ∧
    ∀ t x m f, Uses frameTable s t .write f → Uses frameTable s x m f → x = t := by
  have hs := held_steps h
  constructor
  · intro t x ht hx
    have hb := hs.pool t ht
    rw [hs.pool x hx, Option.some_inj] at hb
    exact hb.symm
  · intro t x m f ht hx
    have hex := hs.excl f t ht
    cases m with
    | write =>
      rw [hs.excl f x hx, Option.some_inj] at hex
      exact hex
    | read =>
      have hmem := hs.shared f x hx
      rw [hs.apart f t hex] at hmem
      simp at hmem

/-- Two threads, one of which writes the page that both want to write. -/
theorem steps_exclude_writers : ∃ s : State (Fin 2),
    Steps (fun p => p.2) (initial fun _ => [⟨.write, (0, 1)⟩]) s ∧ Uses (fun p => p.2) s 0 .write 1 ∧
    ∀ x m, Uses (fun p => p.2) s x m 1 → x = 0 := by
  have hrun : Steps (fun p => p.2) (initial fun _ : Fin 2 => [⟨.write, (0, 1)⟩]) _ :=
    acquireWrite (t := 0) rfl rfl rfl rfl rfl
  refine ⟨_, hrun, ⟨trivial, (0, 1), [], rfl, rfl⟩, fun x m hx => ?_⟩
  exact (steps_exclude hrun).2 0 x m 1 ⟨trivial, (0, 1), [], rfl, rfl⟩ hx

/-! ### Runs come to an end -/

/-- So many steps. -/
inductive StepsIn (frameTable : PageKey → Nat) (s : State T) : Nat → State T → Prop where
  | refl : StepsIn frameTable s 0 s
  | tail {n : Nat} {u v : State T} {t : T} (h : StepsIn frameTable s n u) (hstep : Step frameTable u t v) :
      StepsIn frameTable s (n + 1) v

theorem StepsIn.steps {n : Nat} (h : StepsIn frameTable s n u) : Steps frameTable s u := by
  induction h with
  | refl => exact .refl
  | tail _ hstep ih => exact .tail ih hstep

/-- How far a thread is with its request, which takes it six steps. -/
def stage : Control → Nat
  | .start => 0
  | .latched => 1
  | .guarded => 2
  | .holding => 3
  | .dropping => 4
  | .releasing => 5

/-- The steps that a thread has yet to take. -/
def left (s : State T) (t : T) : Nat := 6 * (s.plan t).length - stage (s.pc t)

/-- A step is one of its thread's. -/
theorem left_step (h : Step frameTable s t u) (ho : Owned frameTable plans s) :
    left u t + 1 = left s t := by
  have hlen : s.plan t ≠ [] → 1 ≤ (s.plan t).length := List.length_pos_iff.mpr
  have hactive : s.pc t ≠ .start → 1 ≤ (s.plan t).length := fun hpc => hlen (ho.active t hpc)
  cases h with
  | lockPool hpc hplan hfree =>
    have := hlen hplan
    simp only [left, State.setPC, Function.update_self, hpc, stage]
    omega
  | lockRead hpc hplan hexcl =>
    have := hactive (by simp [hpc])
    simp only [left, State.setPC, Function.update_self, hpc, stage]
    omega
  | lockWrite hpc hplan hexcl hshared =>
    have := hactive (by simp [hpc])
    simp only [left, State.setPC, Function.update_self, hpc, stage]
    omega
  | unlockPool hpc =>
    have := hactive (by simp [hpc])
    simp only [left, State.setPC, Function.update_self, hpc, stage]
    omega
  | lockDrop hpc hfree =>
    have := hactive (by simp [hpc])
    simp only [left, State.setPC, Function.update_self, hpc, stage]
    omega
  | unlockDrop hpc =>
    have := hactive (by simp [hpc])
    simp only [left, State.setPC, Function.update_self, hpc, stage]
    omega
  | unlockRead hpc hplan =>
    simp only [left, State.setPC, Function.update_self, hpc, hplan, stage, List.length_cons]
    omega
  | unlockWrite hpc hplan =>
    simp only [left, State.setPC, Function.update_self, hpc, hplan, stage, List.length_cons]
    omega

section Finite

variable [Fintype T] {n : Nat}

theorem sum_left_step (h : Step frameTable s t u) (ho : Owned frameTable plans s) :
    ∑ x, left u x + 1 = ∑ x, left s x := by
  have hrest : ∑ x ∈ Finset.univ.erase t, left u x = ∑ x ∈ Finset.univ.erase t, left s x := by
    refine Finset.sum_congr rfl fun x hx => ?_
    obtain ⟨hpc, hplan⟩ := step_other h (Finset.ne_of_mem_erase hx)
    rw [left, left, hpc, hplan]
  rw [← Finset.sum_erase_add _ _ (Finset.mem_univ t), ← Finset.sum_erase_add _ _ (Finset.mem_univ t),
    hrest, ← left_step h ho]
  omega

theorem sum_left_steps (h : StepsIn frameTable (initial plans) n s) :
    n + ∑ t, left s t = 6 * ∑ t, (plans t).length := by
  induction h with
  | refl =>
    rw [Nat.zero_add, Finset.mul_sum]
    rfl
  | tail h hstep ih =>
    rw [← ih, ← sum_left_step hstep (owned_steps h.steps)]
    omega

omit [DecidableEq T] [Fintype T] in
/-- When all are through, nobody holds anything. -/
theorem initial_of_done (hs : Owned frameTable plans s) (h : ∀ t, s.plan t = []) :
    s = initial (fun _ => []) := by
  have hpc : ∀ t, s.pc t = .start := by
    intro t
    by_contra hne
    exact hs.active t hne (h t)
  have hidle : ∀ t m f, ¬ Uses frameTable s t m f := by
    intro t m f hu
    obtain ⟨-, p, rest, hplan, -⟩ := hu
    rw [h t] at hplan
    cases hplan
  have hbpm : s.bpm = none := by
    cases hb : s.bpm with
    | none => rfl
    | some t =>
      have hin := hs.pool t hb
      rw [hpc t] at hin
      exact hin.elim
  have hexcl : ∀ f, s.excl f = none := by
    intro f
    cases hf : s.excl f with
    | none => rfl
    | some t => exact absurd (hs.excl f t hf) (hidle t .write f)
  have hshared : ∀ f, s.shared f = ∅ := by
    intro f
    refine Finset.eq_empty_of_forall_notMem fun t ht => hidle t .read f (hs.shared f t ht)
  obtain ⟨pc, plan, bpm, excl, shared⟩ := s
  simp only [initial, State.mk.injEq]
  exact ⟨funext hpc, funext h, hbpm, funext hexcl, funext hshared⟩

/-- Without contention, however the threads are interleaved, every run goes on until all of them are
through, which takes six steps a request, and then nobody holds a latch. -/
theorem uncontended_finishes (hno : ¬ Contended frameTable plans)
    (h : StepsIn frameTable (initial plans) n s) :
    n ≤ 6 * ∑ t, (plans t).length ∧
    (n < 6 * ∑ t, (plans t).length → ∃ t u, Step frameTable s t u) ∧
    (n = 6 * ∑ t, (plans t).length → s = initial (fun _ => [])) := by
  have hsum := sum_left_steps h
  have hs := owned_steps h.steps
  refine ⟨by omega, fun hlt => ?_, fun heq => initial_of_done hs fun t => ?_⟩
  · by_contra hstuck
    push Not at hstuck
    refine not_deadlock_of_owned hs hno ⟨?_, hstuck⟩
    by_contra hdone
    push Not at hdone
    have hzero : ∑ t, left s t = 0 := Finset.sum_eq_zero fun t _ => by simp [left, hdone t]
    omega
  · have hzero : left s t = 0 :=
      Finset.sum_eq_zero_iff.mp (show ∑ t, left s t = 0 by omega) t (Finset.mem_univ t)
    by_contra hne
    have hlen := List.length_pos_iff.mpr hne
    have hstage : stage (s.pc t) ≤ 5 := by cases s.pc t <;> decide
    rw [left] at hzero
    omega

/-- Two threads that read the same page. -/
theorem uncontended_finishes_readers : ∃ s : State (Fin 2),
    StepsIn (fun p => p.2) (initial fun _ => [⟨.read, (0, 1)⟩]) 1 s ∧
    ∃ t u, Step (fun p => p.2) s t u := by
  have hno : ¬ Contended (fun p => p.2) (fun _ : Fin 2 => [⟨.read, (0, 1)⟩]) := by
    rintro ⟨t, u, r, r', -, hr, -, hm, -⟩
    rw [List.mem_singleton.mp hr] at hm
    cases hm
  have hrun : StepsIn (fun p => p.2) (initial fun _ : Fin 2 => [⟨.read, (0, 1)⟩]) 1 _ :=
    StepsIn.refl.tail (Step.lockPool (t := 0) rfl (by simp [initial]) rfl)
  exact ⟨_, hrun, (uncontended_finishes hno hrun).2.1 (by decide)⟩

end Finite

end Cpplite.Latches
