import Mathlib.Tactic

/-!
Keys in the order of their last use, and what a cache of a given capacity keeps of
them: the most recently used ones.
-/
namespace Recency

variable {K V : Type} [DecidableEq K]

/-- Every key used so far with its value, last used first. -/
abbrev Uses (K V : Type) := List (K × V)

def keys (r : Uses K V) : List K := r.map Prod.fst

/-- The key is used now, under the given value. -/
def touch (k : K) (v : V) (r : Uses K V) : Uses K V := (k, v) :: r.filter (fun e => e.1 ≠ k)

/-- What a cache of `n` entries has for the key. -/
def lookup (n : Nat) (k : K) (r : Uses K V) : Option V :=
  ((r.take n).find? (fun e => e.1 = k)).map Prod.snd

section

variable {k : K} {v : V} {n : Nat} {r : Uses K V}

theorem filter_of_notMem (h : k ∉ keys r) : r.filter (fun e => e.1 ≠ k) = r := by
  apply List.filter_eq_self.mpr
  intro e he
  have hne : e.1 ≠ k := by
    rintro rfl
    exact h (List.mem_map_of_mem he)
  simpa using hne

theorem nodup_touch (h : (keys r).Nodup) (k : K) (v : V) : (keys (touch k v r)).Nodup := by
  refine List.nodup_cons.mpr ⟨?_, h.sublist ((List.filter_sublist).map _)⟩
  intro hmem
  obtain ⟨e, he, heq⟩ := List.mem_map.mp hmem
  have hne := (List.mem_filter.mp he).2
  simp [heq] at hne

theorem lookup_eq_none : lookup n k r = none ↔ k ∉ keys (r.take n) := by
  simp only [lookup, Option.map_eq_none_iff, List.find?_eq_none, keys, List.mem_map]
  constructor
  · rintro h ⟨e, he, rfl⟩
    exact h e he (by simp)
  · intro h e he heq
    exact h ⟨e, he, by simpa using heq⟩

/-- A cached key, cut out of the cache. -/
theorem exists_cut_of_lookup (h : lookup n k r = some v) :
    ∃ l₁ l₂, r.take n = l₁ ++ (k, v) :: l₂ ∧ k ∉ keys l₁ := by
  simp only [lookup, Option.map_eq_some_iff] at h
  obtain ⟨⟨k', v'⟩, hfind, rfl⟩ := h
  obtain ⟨hk, l₁, l₂, hcut, hno⟩ := List.find?_eq_some_iff_append.mp hfind
  have hk' : k' = k := by simpa using hk
  subst hk'
  refine ⟨l₁, l₂, hcut, ?_⟩
  intro hmem
  obtain ⟨e, he, heq⟩ := List.mem_map.mp hmem
  have hne := hno e he
  simp [heq] at hne

/-- A key that was not cached: the cache shifts by one. -/
theorem take_touch_of_miss (h : k ∉ keys (r.take (n + 1))) :
    (touch k v r).take (n + 1) = (k, v) :: r.take n := by
  have hcut : r.filter (fun e => e.1 ≠ k) =
      r.take (n + 1) ++ (r.drop (n + 1)).filter (fun e => e.1 ≠ k) := by
    conv_lhs => rw [← List.take_append_drop (n + 1) r]
    rw [List.filter_append, filter_of_notMem h]
  rw [touch, List.take_succ_cons, hcut]
  congr 1
  by_cases hlen : n + 1 ≤ r.length
  · rw [List.take_append_of_le_length (by rw [List.length_take]; omega), List.take_take]
    congr 1
    omega
  · have hnil : r.drop (n + 1) = [] := List.drop_eq_nil_of_le (by omega)
    rw [hnil, List.filter_nil, List.append_nil, List.take_take]
    congr 1
    omega

/-- A cached key moves to the front of the cache. -/
theorem take_touch_of_hit {l₁ l₂ : Uses K V} {w : V} (hnd : (keys r).Nodup)
    (h : r.take (n + 1) = l₁ ++ (k, w) :: l₂) :
    (touch k v r).take (n + 1) = (k, v) :: (l₁ ++ l₂) := by
  have hkeys : (keys (l₁ ++ (k, w) :: l₂ ++ r.drop (n + 1))).Nodup := by
    rw [← h, List.take_append_drop]
    exact hnd
  have hk₁ : k ∉ keys l₁ := by
    intro hmem
    simp only [keys, List.map_append, List.map_cons, List.append_assoc] at hkeys hmem
    rw [List.nodup_append] at hkeys
    exact hkeys.2.2 k hmem k (by simp) rfl
  have hk₂ : k ∉ keys (l₂ ++ r.drop (n + 1)) := by
    simp only [keys, List.map_append, List.map_cons, List.append_assoc, List.cons_append] at hkeys ⊢
    rw [List.nodup_append] at hkeys
    exact (List.nodup_cons.mp hkeys.2.1).1
  have hcut : r.filter (fun e => e.1 ≠ k) = l₁ ++ l₂ ++ r.drop (n + 1) := by
    conv_lhs => rw [← List.take_append_drop (n + 1) r, h]
    rw [List.append_assoc, List.filter_append, filter_of_notMem hk₁, List.cons_append,
      List.filter_cons, if_neg (by simp), filter_of_notMem hk₂, List.append_assoc]
  have hlen := congrArg List.length h
  simp only [List.length_append, List.length_cons, List.length_take] at hlen
  rw [touch, List.take_succ_cons, hcut]
  congr 1
  by_cases hfull : n + 1 ≤ r.length
  · exact List.take_left' (by rw [List.length_append]; omega)
  · rw [List.drop_eq_nil_of_le (by omega), List.append_nil]
    exact List.take_of_length_le (by rw [List.length_append]; omega)

end

end Recency
