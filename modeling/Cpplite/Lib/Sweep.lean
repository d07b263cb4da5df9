import Mathlib.Tactic
import Mathlib.Data.Finset.Card
import Mathlib.Logic.Relation

/-!
Removal along a graph: take out an item if it is there, then do the same for each of its
successors. What goes is what a path through items that are there leads to, cycles or not.
-/
namespace Sweep

variable {α : Type} {succ : α → List α} {s s' s'' : Finset α} {a b : α} {as : List α}

/-- An edge to an item of `s`. -/
def Edge (succ : α → List α) (s : Finset α) (a b : α) : Prop := b ∈ succ a ∧ b ∈ s

/-- A path through `s`. -/
abbrev Leads (succ : α → List α) (s : Finset α) : α → α → Prop :=
  Relation.ReflTransGen (Edge succ s)

theorem Leads.mono (hs : s' ⊆ s) (h : Leads succ s' a b) : Leads succ s a b :=
  Relation.ReflTransGen.mono (fun _ _ he => ⟨he.1, hs he.2⟩) _ _ h

/-- What is left of `s` when the items `as` were removed, each with what follows it. -/
structure Swept (succ : α → List α) (as : List α) (s s' : Finset α) : Prop where
  subset : s' ⊆ s
  gone : ∀ a ∈ as, a ∉ s'
  led : ∀ b ∈ s, b ∉ s' → ∃ a ∈ as, a ∈ s ∧ Leads succ s a b
  closed : ∀ b ∈ s, b ∉ s' → ∀ c ∈ succ b, c ∉ s'

theorem Swept.nil : Swept succ [] s s :=
  ⟨subset_rfl, by simp, fun b hb hn => absurd hb hn, fun b hb hn => absurd hb hn⟩

theorem Swept.absent (h : a ∉ s) : Swept succ [a] s s :=
  ⟨subset_rfl, by simpa using h, fun b hb hn => absurd hb hn, fun b hb hn => absurd hb hn⟩

theorem Swept.cons (h : Swept succ [a] s s') (h' : Swept succ as s' s'') :
    Swept succ (a :: as) s s'' := by
  refine ⟨h'.subset.trans h.subset, ?_, ?_, ?_⟩
  · intro c hc
    rcases List.mem_cons.mp hc with rfl | hc
    · exact fun hm => h.gone c (by simp) (h'.subset hm)
    · exact h'.gone c hc
  · intro b hb hn
    by_cases hb' : b ∈ s'
    · obtain ⟨c, hc, hcs, hl⟩ := h'.led b hb' hn
      exact ⟨c, List.mem_cons_of_mem _ hc, h.subset hcs, hl.mono h.subset⟩
    · obtain ⟨c, hc, hcs, hl⟩ := h.led b hb hb'
      rw [List.mem_singleton.mp hc] at hcs hl
      exact ⟨a, by simp, hcs, hl⟩
  · intro b hb hn c hc hm
    by_cases hb' : b ∈ s'
    · exact h'.closed b hb' hn c hc hm
    · exact h.closed b hb hb' c hc (h'.subset hm)

/-- The item itself goes first, so no path comes back to it. -/
theorem Swept.of_erase [DecidableEq α] (ha : a ∈ s) (h : Swept succ (succ a) (s.erase a) s') :
    Swept succ [a] s s' := by
  have hsub := Finset.erase_subset a s
  refine ⟨h.subset.trans hsub, ?_, ?_, ?_⟩
  · intro c hc hm
    rw [List.mem_singleton.mp hc] at hm
    exact Finset.notMem_erase a s (h.subset hm)
  · intro b hb hn
    refine ⟨a, by simp, ha, ?_⟩
    by_cases hba : b = a
    · rw [hba]
    · obtain ⟨c, hc, hcs, hl⟩ := h.led b (Finset.mem_erase.mpr ⟨hba, hb⟩) hn
      exact .head ⟨hc, hsub hcs⟩ (hl.mono hsub)
  · intro b hb hn c hc
    by_cases hba : b = a
    · subst hba
      exact h.gone c hc
    · exact h.closed b (Finset.mem_erase.mpr ⟨hba, hb⟩) hn c hc

/-- A path through `s` that starts in `s` ends there. -/
theorem Leads.mem (ha : a ∈ s) (h : Leads succ s a b) : b ∈ s := by
  rcases Relation.ReflTransGen.cases_tail h with rfl | ⟨w, -, hwb⟩
  · exact ha
  · exact hwb.2

/-- Exactly what the item leads to is gone. -/
theorem Swept.mem_iff (h : Swept succ [a] s s') :
    b ∈ s' ↔ b ∈ s ∧ ¬ (a ∈ s ∧ Leads succ s a b) := by
  constructor
  · intro hb
    refine ⟨h.subset hb, ?_⟩
    rintro ⟨ha, hl⟩
    suffices hgone : b ∉ s' from hgone hb
    clear hb
    induction hl with
    | refl => exact h.gone a (by simp)
    | @tail x y hl he ih => exact h.closed x (Leads.mem ha hl) ih y he.1
  · rintro ⟨hb, hn⟩
    by_contra hb'
    obtain ⟨c, hc, hcs, hl⟩ := h.led b hb hb'
    rw [List.mem_singleton.mp hc] at hcs hl
    exact hn ⟨hcs, hl⟩

end Sweep
