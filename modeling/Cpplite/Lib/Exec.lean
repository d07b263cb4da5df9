import Mathlib.Tactic

/-!
Total-correctness judgements for programs that carry a state and may raise.

`EStateM` keeps the state reached at the point of failure, as an exception that
unwinds does, so both outcomes are judged together with a final state.
-/
namespace Exec

variable {ε σ τ α β : Type}

/-- Started in `s`, the program returns normally with a value and state in `Q`. -/
def Returns (x : EStateM ε σ α) (s : σ) (Q : α → σ → Prop) : Prop :=
  ∃ a t, x s = .ok a t ∧ Q a t

/-- Started in `s`, the program raises, with an error and state in `Q`. -/
def Raises (x : EStateM ε σ α) (s : σ) (Q : ε → σ → Prop) : Prop :=
  ∃ e t, x s = .error e t ∧ Q e t

variable {x : EStateM ε σ α} {f : α → EStateM ε σ β} {s t : σ} {a : α} {e : ε}
  {P P' : α → σ → Prop} {Q : β → σ → Prop} {R : ε → σ → Prop}

theorem Returns.mono (h : Returns x s P) (hi : ∀ a t, P a t → P' a t) : Returns x s P' := by
  obtain ⟨a, t, hx, hp⟩ := h
  exact ⟨a, t, hx, hi a t hp⟩

theorem not_returns_of_raises (h : Raises x s R) : ¬ Returns x s P := by
  rintro ⟨a, t, hx, -⟩
  obtain ⟨e, u, he, -⟩ := h
  rw [hx] at he
  cases he

/-- A run whose outcome is known satisfies exactly the postconditions of that outcome. -/
theorem returns_of_eq (h : x s = .ok a t) : Returns x s P ↔ P a t := by
  constructor
  · rintro ⟨b, u, hx, hp⟩
    rw [h] at hx
    cases hx
    exact hp
  · intro hp
    exact ⟨a, t, h, hp⟩

theorem bind_ok (h : x s = .ok a t) : (x >>= f) s = f a t := by
  change EStateM.bind x f s = f a t
  simp [EStateM.bind, h]

theorem bind_error (h : x s = .error e t) : (x >>= f) s = .error e t := by
  change EStateM.bind x f s = .error e t
  simp [EStateM.bind, h]

/-- A sequence that returned did so in both parts. -/
theorem bind_eq_ok {b : β} {u : σ} (h : (x >>= f) s = .ok b u) :
    ∃ a t, x s = .ok a t ∧ f a t = .ok b u := by
  cases hx : x s with
  | ok a t => exact ⟨a, t, rfl, by rw [← h, bind_ok hx]⟩
  | error e t =>
    rw [bind_error hx] at h
    cases h

/-- Sequencing: what the rest needs is what the first part has to establish. -/
theorem returns_bind : Returns (x >>= f) s Q ↔ Returns x s (fun a t => Returns (f a) t Q) := by
  cases hx : x s with
  | ok a t =>
    rw [returns_of_eq hx]
    simp only [Returns, bind_ok hx]
  | error e t =>
    constructor
    · rintro ⟨b, u, hb, -⟩
      rw [bind_error hx] at hb
      cases hb
    · rintro ⟨b, u, hb, -⟩
      rw [hx] at hb
      cases hb

theorem Returns.bind (hx : Returns x s P) (hf : ∀ a t, P a t → Returns (f a) t Q) :
    Returns (x >>= f) s Q :=
  returns_bind.mpr (hx.mono hf)

/-- A first step that only reads: the rest runs in the same state. -/
theorem Returns.bind_eq (hx : x s = .ok a t) (hf : Returns (f a) t Q) :
    Returns (x >>= f) s Q :=
  returns_bind.mpr ((returns_of_eq hx).mpr hf)

theorem Raises.bind_left (hx : Raises x s R) : Raises (x >>= f) s R := by
  obtain ⟨e, t, he, hr⟩ := hx
  exact ⟨e, t, bind_error he, hr⟩

theorem Raises.bind (hx : Returns x s P) (hf : ∀ a t, P a t → Raises (f a) t R) :
    Raises (x >>= f) s R := by
  obtain ⟨a, t, ha, hp⟩ := hx
  obtain ⟨e, u, he, hr⟩ := hf a t hp
  exact ⟨e, u, by rw [bind_ok ha, he], hr⟩

theorem Raises.bind_eq (hx : x s = .ok a t) (hf : Raises (f a) t R) : Raises (x >>= f) s R :=
  Raises.bind ((returns_of_eq (P := fun b u => b = a ∧ u = t) hx).mpr ⟨rfl, rfl⟩)
    (by rintro b u ⟨rfl, rfl⟩; exact hf)

@[simp] theorem returns_pure : Returns (pure a : EStateM ε σ α) s P ↔ P a s :=
  returns_of_eq rfl

@[simp] theorem raises_throw : Raises (throw e : EStateM ε σ α) s R ↔ R e s := by
  constructor
  · rintro ⟨e', t, he, hr⟩
    cases he
    exact hr
  · intro hr
    exact ⟨e, s, rfl, hr⟩

theorem get_ok : (get : EStateM ε σ σ) s = .ok s s := rfl

theorem returns_get {P : σ → σ → Prop} : Returns (get : EStateM ε σ σ) s P ↔ P s s :=
  returns_of_eq rfl

theorem returns_modify {g : σ → σ} {P : PUnit → σ → Prop} :
    Returns (modify g : EStateM ε σ PUnit) s P ↔ P ⟨⟩ (g s) :=
  returns_of_eq rfl

theorem returns_ite {c : Prop} [Decidable c] {y : EStateM ε σ α} :
    Returns (if c then x else y) s P ↔ (c → Returns x s P) ∧ (¬ c → Returns y s P) := by
  by_cases hc : c <;> simp [hc]

/-- The state a run ends in, returned or raised. -/
def after (x : EStateM ε σ α) (s : σ) : σ :=
  match x s with
  | .ok _ t => t
  | .error _ t => t

theorem Returns.after (h : Returns x s P) : ∃ a, P a (after x s) := by
  obtain ⟨a, t, hx, hp⟩ := h
  exact ⟨a, by simpa [Exec.after, hx] using hp⟩

theorem Raises.after (h : Raises x s R) : ∃ e, R e (after x s) := by
  obtain ⟨e, t, hx, hr⟩ := h
  exact ⟨e, by simpa [Exec.after, hx] using hr⟩

/-- However it ends, the program leaves what `g` reads as it was. -/
def Leaves (g : σ → τ) (x : EStateM ε σ α) : Prop := ∀ s, g (after x s) = g s

section Leaves

variable {g : σ → τ}

theorem Leaves.of_ok (h : Leaves g x) (hx : x s = .ok a t) : g t = g s := by
  simpa [Exec.after, hx] using h s

theorem leaves_pure : Leaves g (pure a : EStateM ε σ α) := fun _ => rfl

theorem leaves_throw : Leaves g (throw e : EStateM ε σ α) := fun _ => rfl

theorem leaves_get : Leaves g (get : EStateM ε σ σ) := fun _ => rfl

theorem leaves_modify {m : σ → σ} (h : ∀ s, g (m s) = g s) :
    Leaves g (modify m : EStateM ε σ PUnit) := h

theorem Leaves.bind (hx : Leaves g x) (hf : ∀ a, Leaves g (f a)) : Leaves g (x >>= f) := by
  intro s
  cases h : x s with
  | ok a t =>
    rw [← hx.of_ok h, ← hf a t]
    simp only [Exec.after, bind_ok h]
  | error e t =>
    have hs := hx s
    simpa only [Exec.after, h, bind_error h] using hs

theorem Leaves.ite {c : Prop} [Decidable c] {y : EStateM ε σ α} (hx : Leaves g x)
    (hy : Leaves g y) : Leaves g (if c then x else y) := by
  by_cases hc : c
  · simpa only [hc, if_true] using hx
  · simpa only [hc, if_false] using hy

end Leaves

/-- However it ends, the program keeps `I`. -/
def Keeps (I : σ → Prop) (x : EStateM ε σ α) : Prop := ∀ s, I s → I (after x s)

section Keeps

variable {I : σ → Prop}

theorem Leaves.keeps (h : Leaves id x) : Keeps I x := by
  intro s hs
  have hsame : after x s = s := h s
  rwa [hsame]

theorem keeps_modify {m : σ → σ} (h : ∀ s, I s → I (m s)) :
    Keeps I (modify m : EStateM ε σ PUnit) := h

theorem Keeps.bind (hx : Keeps I x) (hf : ∀ a, Keeps I (f a)) : Keeps I (x >>= f) := by
  intro s hs
  cases h : x s with
  | ok a t =>
    have ht := hx s hs
    simp only [Exec.after, h] at ht
    simpa only [Exec.after, bind_ok h] using hf a t ht
  | error e t =>
    have ht := hx s hs
    simpa only [Exec.after, h, bind_error h] using ht

theorem Keeps.ite {c : Prop} [Decidable c] {y : EStateM ε σ α} (hx : Keeps I x) (hy : Keeps I y) :
    Keeps I (if c then x else y) := by
  by_cases hc : c
  · simpa only [hc, if_true] using hx
  · simpa only [hc, if_false] using hy

end Keeps

/-- A loop whose body keeps `I` and raises at one of its items, whenever that comes, raises. -/
theorem Raises.forM {γ : Type} {I : σ → Prop} {g : γ → EStateM ε σ PUnit} {c : γ} {l : List γ}
    (hg : ∀ c ∈ l, Keeps I (g c)) (hraises : ∀ s, I s → Raises (g c) s (fun _ _ => True)) (hc : c ∈ l)
    (hs : I s) : Raises (l.forM g) s (fun _ _ => True) := by
  induction l generalizing s with
  | nil => cases hc
  | cons d l ih =>
    cases hd : g d s with
    | error e t => exact ⟨e, t, bind_error hd, trivial⟩
    | ok a t =>
      have ht := hg d List.mem_cons_self s hs
      simp only [Exec.after, hd] at ht
      rcases List.mem_cons.mp hc with rfl | hc
      · obtain ⟨e, u, he, -⟩ := hraises s hs
        rw [hd] at he
        cases he
      · exact .bind_eq hd (ih (fun c' hc' => hg c' (List.mem_cons_of_mem _ hc')) hc ht)

/-- Whenever the first program returns, the second returns the same. -/
def Refines (x y : EStateM ε σ α) : Prop := ∀ s a t, x s = .ok a t → y s = .ok a t

section Refines

variable {y : EStateM ε σ α} {g : α → EStateM ε σ β}

theorem Refines.refl : Refines x x := fun _ _ _ h => h

theorem Refines.bind (hx : Refines x y) (hf : ∀ a, Refines (f a) (g a)) :
    Refines (x >>= f) (y >>= g) := by
  intro s b u h
  obtain ⟨a, t, ha, hb⟩ := bind_eq_ok h
  rw [bind_ok (hx s a t ha)]
  exact hf a t b u hb

/-- The programs begin alike. -/
theorem Refines.after (hf : ∀ a, Refines (f a) (g a)) : Refines (x >>= f) (x >>= g) :=
  Refines.refl.bind hf

theorem Refines.ite {c : Prop} [Decidable c] {x' y' : EStateM ε σ α} (hx : Refines x y)
    (hx' : Refines x' y') : Refines (if c then x else x') (if c then y else y') := by
  by_cases hc : c
  · simpa only [hc, if_true] using hx
  · simpa only [hc, if_false] using hx'

theorem Refines.foldlM {γ : Type} {g g' : α → γ → EStateM ε σ α}
    (h : ∀ a c, Refines (g a c) (g' a c)) :
    ∀ (l : List γ) (a : α), Refines (l.foldlM g a) (l.foldlM g' a)
  | [], _ => by
    rw [List.foldlM_nil, List.foldlM_nil]
    exact .refl
  | c :: l, a => by
    rw [List.foldlM_cons, List.foldlM_cons]
    exact (h a c).bind (Refines.foldlM h l)

end Refines

/-- What a run returns, if it does. -/
def value? (x : EStateM ε σ α) (s : σ) : Option α :=
  match x s with
  | .ok a _ => some a
  | .error _ _ => none

theorem ok_of_value? (h : value? x s = some a) : ∃ t, x s = .ok a t := by
  cases hx : x s with
  | ok b t =>
    simp only [value?, hx, Option.some.injEq] at h
    exact ⟨t, by rw [h]⟩
  | error e t => simp [value?, hx] at h

/-- Started in `s`, the program ends in `P` if it returns and in `R` if it raises. -/
def Ends (x : EStateM ε σ α) (s : σ) (P : α → σ → Prop) (R : σ → Prop) : Prop :=
  match x s with
  | .ok a t => P a t
  | .error _ t => R t

theorem Ends.bind {R : σ → Prop} (hx : Ends x s P R) (hf : ∀ a t, P a t → Ends (f a) t Q R) :
    Ends (x >>= f) s Q R := by
  cases h : x s with
  | ok a t =>
    simp only [Ends, h] at hx
    simpa only [Ends, bind_ok h] using hf a t hx
  | error e t =>
    simp only [Ends, h] at hx
    simpa only [Ends, bind_error h] using hx

theorem Ends.bind_eq {R : σ → Prop} (hx : x s = .ok a t) (hf : Ends (f a) t Q R) :
    Ends (x >>= f) s Q R := by
  simpa only [Ends, bind_ok hx] using hf

theorem Ends.of_eq {R : σ → Prop} (hx : x s = .ok a t) (hp : P a t) : Ends x s P R := by
  simpa only [Ends, hx] using hp

theorem Ends.of_error {R : σ → Prop} (hx : x s = .error e t) (hr : R t) : Ends x s P R := by
  simpa only [Ends, hx] using hr

theorem Returns.ends {R : σ → Prop} (h : Returns x s P) : Ends x s P R := by
  obtain ⟨a, t, hx, hp⟩ := h
  exact .of_eq hx hp

theorem Raises.ends {R : σ → Prop} (h : Raises x s (fun _ t => R t)) : Ends x s P R := by
  obtain ⟨e, t, hx, hr⟩ := h
  exact .of_error hx hr

theorem Ends.after {R : σ → Prop} (h : Ends x s (fun _ t => R t) R) : R (after x s) := by
  cases hx : x s with
  | ok a t => simpa only [Ends, Exec.after, hx] using h
  | error e t => simpa only [Ends, Exec.after, hx] using h

/-- Started in `s`, the program returns in `P` or raises an error of `E`. -/
def ReturnsUnless (E : ε → Prop) (x : EStateM ε σ α) (s : σ) (P : α → σ → Prop) : Prop :=
  match x s with
  | .ok a t => P a t
  | .error e _ => E e

section Unless

variable {E : ε → Prop}

theorem Returns.unless (h : Returns x s P) : ReturnsUnless E x s P := by
  obtain ⟨a, t, hx, hp⟩ := h
  simpa only [ReturnsUnless, hx] using hp

theorem Raises.unless (h : Raises x s (fun e _ => E e)) : ReturnsUnless E x s P := by
  obtain ⟨e, t, hx, he⟩ := h
  simpa only [ReturnsUnless, hx] using he

theorem ReturnsUnless.bind (hx : ReturnsUnless E x s P)
    (hf : ∀ a t, P a t → ReturnsUnless E (f a) t Q) : ReturnsUnless E (x >>= f) s Q := by
  cases h : x s with
  | ok a t =>
    simp only [ReturnsUnless, h] at hx
    simpa only [ReturnsUnless, bind_ok h] using hf a t hx
  | error e t =>
    simp only [ReturnsUnless, h] at hx
    simpa only [ReturnsUnless, bind_error h] using hx

theorem ReturnsUnless.bind_eq (hx : x s = .ok a t) (hf : ReturnsUnless E (f a) t Q) :
    ReturnsUnless E (x >>= f) s Q := by
  simpa only [ReturnsUnless, bind_ok hx] using hf

theorem ReturnsUnless.mono (h : ReturnsUnless E x s P) (hi : ∀ a t, P a t → P' a t) :
    ReturnsUnless E x s P' := by
  cases hx : x s with
  | ok a t =>
    simp only [ReturnsUnless, hx] at h ⊢
    exact hi a t h
  | error e t => simpa only [ReturnsUnless, hx] using h

/-- A run that raises nothing of `E` returns. -/
theorem ReturnsUnless.returns (h : ReturnsUnless E x s P) (hE : ∀ e t, x s = .error e t → ¬ E e) :
    Returns x s P := by
  cases hx : x s with
  | ok a t =>
    simp only [ReturnsUnless, hx] at h
    exact ⟨a, t, hx, h⟩
  | error e t =>
    simp only [ReturnsUnless, hx] at h
    exact absurd h (hE e t hx)

end Unless

/-- Run a program on the part of a larger state that `proj` reads and `put` writes back. -/
def zoom (proj : σ → τ) (put : τ → σ → σ) (x : EStateM ε τ α) : EStateM ε σ α := fun s =>
  match x (proj s) with
  | .ok a t => .ok a (put t s)
  | .error e t => .error e (put t s)

variable {proj : σ → τ} {put : τ → σ → σ} {y : EStateM ε τ α} {u : τ}

theorem zoom_ok (h : y (proj s) = .ok a u) : zoom proj put y s = .ok a (put u s) := by
  simp [zoom, h]

theorem zoom_error (h : y (proj s) = .error e u) : zoom proj put y s = .error e (put u s) := by
  simp [zoom, h]

theorem returns_zoom :
    Returns (zoom proj put y) s P ↔ Returns y (proj s) (fun a u => P a (put u s)) := by
  cases hy : y (proj s) with
  | ok a u => rw [returns_of_eq hy, returns_of_eq (zoom_ok hy)]
  | error e u =>
    constructor
    · rintro ⟨b, v, hb, -⟩
      rw [zoom_error hy] at hb
      cases hb
    · rintro ⟨b, v, hb, -⟩
      rw [hy] at hb
      cases hb

/-- Loop rule: an invariant indexed by the items still to come. -/
theorem Returns.foldlM {γ : Type} {g : α → γ → EStateM ε σ α}
    (I : List γ → α → σ → Prop)
    (hstep : ∀ c l a t, I (c :: l) a t → Returns (g a c) t (I l)) :
    ∀ (l : List γ) (a : α) (s : σ), I l a s → Returns (l.foldlM g a) s (I [])
  | [], a, s, h => by simpa using h
  | c :: l, a, s, h => by
    rw [List.foldlM_cons]
    exact (hstep c l a s h).bind (fun b t hb => Returns.foldlM I hstep l b t hb)

theorem Leaves.zoom {ρ : Type} {g : σ → ρ} (hy : Leaves id y)
    (hp : ∀ s, g (put (proj s) s) = g s) : Leaves g (Exec.zoom proj put y) := by
  intro s
  have hu : after y (proj s) = proj s := hy (proj s)
  cases h : y (proj s) with
  | ok a u =>
    simp only [Exec.after, h] at hu
    simp only [Exec.after, zoom_ok h, hu, hp]
  | error e u =>
    simp only [Exec.after, h] at hu
    simp only [Exec.after, zoom_error h, hu, hp]

/-- What is not in the part a program runs on. -/
theorem leaves_zoom {ρ : Type} {g : σ → ρ} (hp : ∀ u s, g (put u s) = g s) :
    Leaves g (Exec.zoom proj put y) := by
  intro s
  cases h : y (proj s) with
  | ok a u => simp only [Exec.after, zoom_ok h, hp]
  | error e u => simp only [Exec.after, zoom_error h, hp]

end Exec
