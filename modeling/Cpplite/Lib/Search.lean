import Mathlib.Tactic
import Mathlib.Data.List.Sort

/-!
Binary search by a three-way probe, and what it finds in a strictly sorted list.

The loop is bounded by an explicit fuel so that it computes by recursion on a
number; a fuel of the interval's length never runs out.
-/
namespace Search

/-- Halve `[lo, hi)` by the probe's answer for the middle index until it is hit or empty. -/
def binarySearch (probe : Nat → Ordering) : Nat → Nat → Nat → Bool × Nat
  | 0, lo, _ => (false, lo)
  | fuel + 1, lo, hi =>
    if lo < hi then
      let mid := lo + (hi - lo) / 2
      match probe mid with
      | .lt => binarySearch probe fuel lo mid
      | .gt => binarySearch probe fuel (mid + 1) hi
      | .eq => (true, mid)
    else (false, lo)

variable {probe : Nat → Ordering} {n : Nat}

/-- A probe that only ever says "right of me" below `n` and "left of me" from `n` on. -/
theorem binarySearch_missing {N : Nat} (hlo : ∀ i, i < n → probe i = .gt)
    (hhi : ∀ i, n ≤ i → i < N → probe i = .lt) :
    ∀ fuel lo hi, hi - lo ≤ fuel → lo ≤ n → n ≤ hi → hi ≤ N →
      binarySearch probe fuel lo hi = (false, n) := by
  intro fuel
  induction fuel with
  | zero =>
    intro lo hi hf hl hr _
    have : lo = n := by omega
    simp [binarySearch, this]
  | succ fuel ih =>
    intro lo hi hf hl hr hN
    by_cases hlt : lo < hi
    · by_cases hm : lo + (hi - lo) / 2 < n
      · simp only [binarySearch, hlt, if_true, hlo _ hm]
        exact ih _ _ (by omega) (by omega) hr hN
      · simp only [binarySearch, hlt, if_true, hhi _ (not_lt.mp hm) (by omega)]
        exact ih _ _ (by omega) hl (by omega) (by omega)
    · have : lo = n := by omega
      simp [binarySearch, this, show ¬ n < hi by omega]

/-- A probe with a single hit at `n`. -/
theorem binarySearch_found {N : Nat} (hlo : ∀ i, i < n → probe i = .gt) (hn : probe n = .eq)
    (hhi : ∀ i, n < i → i < N → probe i = .lt) :
    ∀ fuel lo hi, hi - lo ≤ fuel → lo ≤ n → n < hi → hi ≤ N →
      binarySearch probe fuel lo hi = (true, n) := by
  intro fuel
  induction fuel with
  | zero => intro lo hi hf hl hr; omega
  | succ fuel ih =>
    intro lo hi hf hl hr hN
    have hlt : lo < hi := by omega
    rcases lt_trichotomy (lo + (hi - lo) / 2) n with hm | hm | hm
    · simp only [binarySearch, hlt, if_true, hlo _ hm]
      exact ih _ _ (by omega) (by omega) hr hN
    · simp [binarySearch, hlt, hm, hn]
    · simp only [binarySearch, hlt, if_true, hhi _ hm (by omega)]
      exact ih _ _ (by omega) hl (by omega) (by omega)

/-- Whatever the probe says, the loop ends inside its interval, and strictly where it hits. -/
theorem binarySearch_le : ∀ fuel lo hi, lo ≤ hi → (binarySearch probe fuel lo hi).2 ≤ hi ∧
    ((binarySearch probe fuel lo hi).1 = true → (binarySearch probe fuel lo hi).2 < hi) := by
  intro fuel
  induction fuel with
  | zero => exact fun lo hi h => ⟨h, Bool.noConfusion⟩
  | succ fuel ih =>
    intro lo hi h
    by_cases hlt : lo < hi
    · simp only [binarySearch, hlt, if_true]
      cases probe (lo + (hi - lo) / 2) with
      | lt =>
        obtain ⟨hle, hfound⟩ := ih lo (lo + (hi - lo) / 2) (by omega)
        exact ⟨hle.trans (by omega), fun hf => (hfound hf).trans (by omega)⟩
      | gt => exact ih _ _ (by omega)
      | eq => exact ⟨by simp only; omega, fun _ => by simp only; omega⟩
    · simp only [binarySearch, hlt, if_false]
      exact ⟨h, Bool.noConfusion⟩

section Sorted

variable {α K : Type} [LinearOrder K] [Inhabited α] (key : α → K)

/-- Probe for the cell with key `k`. -/
def probeKey (k : K) (cells : List α) (i : Nat) : Ordering :=
  if k < key (cells[i]?.getD default) then .lt
  else if key (cells[i]?.getD default) < k then .gt
  else .eq

/-- Probe for the first cell whose key is above `k`. -/
def probeAbove (k : K) (cells : List α) (i : Nat) : Ordering :=
  if k < key (cells[i]?.getD default) then .lt else .gt

/-- The three-way search over a whole list. -/
def findKey (k : K) (cells : List α) : Bool × Nat :=
  binarySearch (probeKey key k cells) cells.length 0 cells.length

/-- The two-way search over a whole list. -/
def upperBound (k : K) (cells : List α) : Nat :=
  (binarySearch (probeAbove key k cells) cells.length 0 cells.length).2

variable {key} {k : K} {as bs : List α} {c : α}

private theorem getD_left {i : Nat} (bs : List α) (hi : i < as.length) :
    (as ++ bs)[i]?.getD default ∈ as := by
  rw [List.getElem?_append_left hi, List.getElem?_eq_getElem hi]
  exact List.getElem_mem hi

private theorem getD_right {i : Nat} (h1 : as.length ≤ i) (h2 : i < (as ++ bs).length) :
    (as ++ bs)[i]?.getD default ∈ bs := by
  rw [List.length_append] at h2
  rw [List.getElem?_append_right h1, List.getElem?_eq_getElem (by omega)]
  exact List.getElem_mem _

/-- What a cut at `k` separates, the two filters at `k` do. -/
theorem filter_cut {xs ys : List K} (hx : ∀ x ∈ xs, x < k) (hy : ∀ y ∈ ys, k ≤ y) :
    (xs ++ ys).filter (· < k) = xs ∧ (xs ++ ys).filter (k ≤ ·) = ys := by
  have hx' : ∀ x ∈ xs, ¬ k ≤ x := fun x h => not_le.mpr (hx x h)
  have hy' : ∀ y ∈ ys, ¬ y < k := fun y h => not_lt.mpr (hy y h)
  constructor
  · rw [List.filter_append, List.filter_eq_self.mpr (by simpa using hx),
      List.filter_eq_nil_iff.mpr (by simpa using hy'), List.append_nil]
  · rw [List.filter_append, List.filter_eq_nil_iff.mpr (by simpa using hx'),
      List.filter_eq_self.mpr (by simpa using hy), List.nil_append]

theorem findKey_le (key : α → K) (k : K) (as : List α) : (findKey key k as).2 ≤ as.length ∧
    ((findKey key k as).1 = true → (findKey key k as).2 < as.length) :=
  binarySearch_le _ _ _ (Nat.zero_le _)

theorem findKey_missing (ha : ∀ a ∈ as, key a < k) (hb : ∀ b ∈ bs, k < key b) :
    findKey key k (as ++ bs) = (false, as.length) := by
  apply binarySearch_missing (N := (as ++ bs).length)
  · intro i hi
    have := ha _ (getD_left bs hi)
    simp only [probeKey, this, not_lt.mpr this.le, if_true, if_false]
  · intro i h1 h2
    have := hb _ (getD_right h1 h2)
    simp only [probeKey, this, if_true]
  all_goals simp

theorem findKey_found (ha : ∀ a ∈ as, key a < key c) (hb : ∀ b ∈ bs, key c < key b) :
    findKey key (key c) (as ++ c :: bs) = (true, as.length) := by
  apply binarySearch_found (N := (as ++ c :: bs).length)
  · intro i hi
    have := ha _ (getD_left (c :: bs) hi)
    simp only [probeKey, this, not_lt.mpr this.le, if_true, if_false]
  · simp [probeKey]
  · intro i h1 h2
    have hm : (as ++ c :: bs)[i]?.getD default ∈ bs := by
      have hlen : (as ++ [c]).length ≤ i := by simp; omega
      have := getD_right hlen (by simpa using h2)
      simpa using this
    simp only [probeKey, hb _ hm, if_true]
  all_goals simp

theorem upperBound_eq (ha : ∀ a ∈ as, key a ≤ k) (hb : ∀ b ∈ bs, k < key b) :
    upperBound key k (as ++ bs) = as.length := by
  have hlo : ∀ i, i < as.length → probeAbove key k (as ++ bs) i = .gt := by
    intro i hi
    have := ha _ (getD_left bs hi)
    simp only [probeAbove, not_lt.mpr this, if_false]
  have hhi : ∀ i, as.length ≤ i → i < (as ++ bs).length →
      probeAbove key k (as ++ bs) i = .lt := by
    intro i h1 h2
    have := hb _ (getD_right h1 h2)
    simp only [probeAbove, this, if_true]
  rw [upperBound, binarySearch_missing hlo hhi]
  all_goals simp

/-- Cells in strictly increasing key order. -/
def KeySorted (key : α → K) (cells : List α) : Prop := cells.Pairwise (fun a b => key a < key b)

omit [Inhabited α] in
/-- Every key cuts a sorted list into the cells below it and the cells from it on. -/
theorem exists_cut (hs : KeySorted key as) (k : K) :
    ∃ lo hi, as = lo ++ hi ∧ (∀ a ∈ lo, key a < k) ∧ (∀ b ∈ hi, k ≤ key b) := by
  induction as with
  | nil => exact ⟨[], [], rfl, by simp, by simp⟩
  | cons a as ih =>
    obtain ⟨hal, hrest⟩ := List.pairwise_cons.mp hs
    by_cases hak : key a < k
    · obtain ⟨lo, hi, rfl, h1, h2⟩ := ih hrest
      exact ⟨a :: lo, hi, rfl, by simpa [hak] using h1, h2⟩
    · refine ⟨[], a :: as, rfl, by simp, ?_⟩
      intro b hb
      rcases List.mem_cons.mp hb with rfl | hb
      · exact not_lt.mp hak
      · exact (not_lt.mp hak).trans (hal b hb).le

omit [Inhabited α] in
/-- The same cut with the key itself on the left. -/
theorem exists_cut_le (hs : KeySorted key as) (k : K) :
    ∃ lo hi, as = lo ++ hi ∧ (∀ a ∈ lo, key a ≤ k) ∧ (∀ b ∈ hi, k < key b) := by
  induction as with
  | nil => exact ⟨[], [], rfl, by simp, by simp⟩
  | cons a as ih =>
    obtain ⟨hal, hrest⟩ := List.pairwise_cons.mp hs
    by_cases hak : key a ≤ k
    · obtain ⟨lo, hi, rfl, h1, h2⟩ := ih hrest
      exact ⟨a :: lo, hi, rfl, by simpa [hak] using h1, h2⟩
    · refine ⟨[], a :: as, rfl, by simp, ?_⟩
      intro b hb
      rcases List.mem_cons.mp hb with rfl | hb
      · exact not_le.mp hak
      · exact (not_le.mp hak).trans (hal b hb)

/-- The search's two outcomes on a sorted list, with the cut it stands at. -/
theorem findKey_cases (hs : KeySorted key as) (k : K) :
    (∃ lo c hi, as = lo ++ c :: hi ∧ key c = k ∧ (∀ a ∈ lo, key a < k) ∧
      (∀ b ∈ hi, k < key b) ∧ findKey key k as = (true, lo.length)) ∨
    (∃ lo hi, as = lo ++ hi ∧ (∀ a ∈ lo, key a < k) ∧ (∀ b ∈ hi, k < key b) ∧
      findKey key k as = (false, lo.length)) := by
  obtain ⟨lo, hi, rfl, h1, h2⟩ := exists_cut hs k
  cases hi with
  | nil => exact .inr ⟨lo, [], rfl, h1, by simp, findKey_missing h1 (by simp)⟩
  | cons c hi =>
    obtain ⟨-, hc, -⟩ := List.pairwise_append.mp hs
    have hgt := (List.pairwise_cons.mp hc).1
    rcases (h2 c (by simp)).eq_or_lt with heq | hlt
    · subst heq
      exact .inl ⟨lo, c, hi, rfl, rfl, h1, hgt, findKey_found h1 hgt⟩
    · refine .inr ⟨lo, c :: hi, rfl, h1, ?_, ?_⟩
      · intro b hb
        rcases List.mem_cons.mp hb with rfl | hb
        · exact hlt
        · exact hlt.trans (hgt b hb)
      · apply findKey_missing h1
        intro b hb
        rcases List.mem_cons.mp hb with rfl | hb
        · exact hlt
        · exact hlt.trans (hgt b hb)

omit [Inhabited α] in
theorem KeySorted.append_cons (ha : KeySorted key as) (hb : KeySorted key bs)
    (h1 : ∀ a ∈ as, key a < key c) (h2 : ∀ b ∈ bs, key c < key b) :
    KeySorted key (as ++ c :: bs) := by
  refine List.pairwise_append.mpr ⟨ha, List.pairwise_cons.mpr ⟨h2, hb⟩, ?_⟩
  intro a ha' b hb'
  rcases List.mem_cons.mp hb' with rfl | hb'
  · exact h1 a ha'
  · exact (h1 a ha').trans (h2 b hb')

omit [Inhabited α] in
theorem KeySorted.insert (h : KeySorted key (as ++ bs)) (h1 : ∀ a ∈ as, key a < key c)
    (h2 : ∀ b ∈ bs, key c < key b) : KeySorted key (as ++ c :: bs) := by
  obtain ⟨ha, hb, -⟩ := List.pairwise_append.mp h
  exact KeySorted.append_cons ha hb h1 h2

omit [Inhabited α] in
theorem KeySorted.erase (h : KeySorted key (as ++ c :: bs)) : KeySorted key (as ++ bs) :=
  List.Pairwise.sublist ((List.Sublist.refl as).append (List.sublist_cons_self c bs)) h

omit [Inhabited α] in
theorem KeySorted.around {a : α} (h : KeySorted key (as ++ a :: bs)) :
    (∀ x ∈ as, key x < key a) ∧ (∀ y ∈ bs, key a < key y) := by
  obtain ⟨-, hb, hab⟩ := List.pairwise_append.mp h
  exact ⟨fun x hx => hab x hx a (by simp), (List.pairwise_cons.mp hb).1⟩

end Sorted

/-! ### Edits at a cut -/

section Cut

variable {α : Type} (lo hi : List α) (a b : α)

theorem insertIdx_cut : (lo ++ hi).insertIdx lo.length a = lo ++ a :: hi := by
  induction lo with
  | nil => simp
  | cons x lo ih => simp [ih]

theorem eraseIdx_cut : (lo ++ a :: hi).eraseIdx lo.length = lo ++ hi := by
  induction lo with
  | nil => simp
  | cons x lo ih => simp [ih]

theorem modify_cut (f : α → α) : (lo ++ a :: hi).modify lo.length f = lo ++ f a :: hi := by
  induction lo with
  | nil => simp
  | cons x lo ih => simp [ih]

theorem set_cut : (lo ++ a :: hi).set lo.length b = lo ++ b :: hi := by
  simp

end Cut

end Search
