import Cpplite.Lib.Exec

/-!
Programs side by side. `Follows S R x y` says that `y` can do whatever `x` did: from states
that `S` relates, when `x` returns so does `y`, with results that `R` relates and in states
that `S` relates again. Nothing is asked where `x` raises, so `y` may run on a state that
has more to offer.
-/
namespace Exec

variable {ε σ σ' α α' β β' : Type}

def Follows (S : σ → σ' → Prop) (R : α → α' → Prop) (x : EStateM ε σ α) (y : EStateM ε σ' α') :
    Prop :=
  ∀ s s', S s s' → ∀ a t, x s = .ok a t → ∃ a' t', y s' = .ok a' t' ∧ R a a' ∧ S t t'

variable {S : σ → σ' → Prop} {R R' : α → α' → Prop} {Q : β → β' → Prop} {x x₁ : EStateM ε σ α}
  {y y₁ : EStateM ε σ' α'} {f : α → EStateM ε σ β} {g : α' → EStateM ε σ' β'}

/-- What is known of the first run carries over to the second. -/
theorem Follows.returns {P : α → σ → Prop} {s : σ} {s' : σ'} (h : Follows S R x y) (hs : S s s')
    (hx : Returns x s P) : Returns y s' (fun a' t' => ∃ a t, R a a' ∧ S t t' ∧ P a t) := by
  obtain ⟨a, t, hrun, hp⟩ := hx
  obtain ⟨a', t', hrun', hr, ht⟩ := h s s' hs a t hrun
  exact ⟨a', t', hrun', a, t, hr, ht, hp⟩

theorem Follows.mono (h : Follows S R x y) (hi : ∀ a a', R a a' → R' a a') : Follows S R' x y := by
  intro s s' hs a t hx
  obtain ⟨a', t', hy, hr, ht⟩ := h s s' hs a t hx
  exact ⟨a', t', hy, hi a a' hr, ht⟩

theorem follows_pure {a : α} {a' : α'} (h : R a a') : Follows S R (pure a : EStateM ε σ α) (pure a' : EStateM ε σ' α') := by
  intro s s' hs b t hb
  cases hb
  exact ⟨a', s', rfl, h, hs⟩

/-- A program that never returns is followed by any. -/
theorem follows_throw {e : ε} : Follows S R (throw e : EStateM ε σ α) y := by
  intro s s' hs a t ha
  cases ha

theorem Follows.bind (hx : Follows S R x y) (hf : ∀ a a', R a a' → Follows S Q (f a) (g a')) :
    Follows S Q (x >>= f) (y >>= g) := by
  intro s s' hs b u h
  obtain ⟨a, t, ha, hb⟩ := bind_eq_ok h
  obtain ⟨a', t', ha', hr, ht⟩ := hx s s' hs a t ha
  obtain ⟨b', u', hb', hq, hu⟩ := hf a a' hr t t' ht b u hb
  exact ⟨b', u', by rw [bind_ok ha', hb'], hq, hu⟩

/-- The first parts return the same. -/
theorem Follows.then {g : α → EStateM ε σ' β'} {y : EStateM ε σ' α} (hx : Follows S Eq x y)
    (hf : ∀ a, Follows S Q (f a) (g a)) : Follows S Q (x >>= f) (y >>= g) :=
  hx.bind (fun a _ h => h ▸ hf a)

/-- The results are the same and good. -/
def Same (G : α → Prop) (a a' : α) : Prop := a' = a ∧ G a

/-- The first parts return the same, and the rest may count on it being good. -/
theorem Follows.thenGood {G : α → Prop} {g : α → EStateM ε σ' β'} {y : EStateM ε σ' α}
    (hx : Follows S (Same G) x y) (hf : ∀ a, G a → Follows S Q (f a) (g a)) :
    Follows S Q (x >>= f) (y >>= g) := by
  refine hx.bind ?_
  rintro a _ ⟨rfl, ha⟩
  exact hf _ ha

theorem Follows.same {G : α → Prop} {y : EStateM ε σ' α} {s t : σ} {s' : σ'} {a : α}
    (h : Follows S (Same G) x y) (hs : S s s') (hx : x s = .ok a t) :
    ∃ t', y s' = .ok a t' ∧ G a ∧ S t t' := by
  obtain ⟨_, t', hy, ⟨rfl, ha⟩, ht⟩ := h s s' hs a t hx
  exact ⟨t', hy, ha, ht⟩

theorem follows_of_never (h : ∀ s a t, x s ≠ .ok a t) : Follows S R x y :=
  fun s _ _ a t hx => absurd hx (h s a t)

theorem follows_get : Follows S S (get : EStateM ε σ σ) (get : EStateM ε σ' σ') := by
  intro s s' hs a t ha
  cases ha
  exact ⟨s', s', rfl, hs, hs⟩

theorem follows_modify {m : σ → σ} {m' : σ' → σ'} (h : ∀ s s', S s s' → S (m s) (m' s')) :
    Follows S Eq (modify m : EStateM ε σ PUnit) (modify m' : EStateM ε σ' PUnit) := by
  intro s s' hs a t ha
  cases ha
  exact ⟨⟨⟩, m' s', rfl, rfl, h s s' hs⟩

theorem Follows.ite {c : Prop} [Decidable c] (hx : Follows S R x y) (hx₁ : Follows S R x₁ y₁) :
    Follows S R (if c then x else x₁) (if c then y else y₁) := by
  by_cases hc : c
  · simpa only [hc, if_true] using hx
  · simpa only [hc, if_false] using hx₁

/-- The programs run on parts of larger states. -/
theorem Follows.zoom {ρ ρ' : Type} {T : ρ → ρ' → Prop} {proj : ρ → σ} {put : σ → ρ → ρ}
    {proj' : ρ' → σ'} {put' : σ' → ρ' → ρ'} (h : Follows S R x y)
    (hproj : ∀ r r', T r r' → S (proj r) (proj' r'))
    (hput : ∀ r r' s s', T r r' → S s s' → T (put s r) (put' s' r')) :
    Follows T R (Exec.zoom proj put x) (Exec.zoom proj' put' y) := by
  intro r r' hr a t ha
  cases hx : x (proj r) with
  | ok b s =>
    rw [zoom_ok hx] at ha
    cases ha
    obtain ⟨a', s', hy, hab, hs⟩ := h _ _ (hproj r r' hr) _ _ hx
    exact ⟨a', put' s' r', zoom_ok hy, hab, hput r r' _ s' hr hs⟩
  | error e s =>
    rw [zoom_error hx] at ha
    cases ha

end Exec
