import Cpplite.Lib.Exec

/-! What every component shares: `shared.h`, the ways a call can fail, and `assert`. -/
namespace Cpplite

open Exec

abbrev Byte := UInt8

/-- A `TableID` and a `PageNumber`. Both are 64-bit and are kept as plain numbers here: no file
reaches a page number where the width shows. -/
abbrev PageKey := Nat × Nat

/-- `PagerKey<uintW_t>`: the width's unsigned integers, with wrapping increment. -/
abbrev PagerKey (w : Nat) := Fin (2 ^ w)

abbrev DefaultPagerKey := PagerKey 32

instance neZeroKeys : NeZero (2 ^ 32) := ⟨by decide⟩

/-- `NULL_PAGE` -/
def nullPage : Nat := 0

/-- `PAGE_SIZE` -/
def pageSize : Nat := 4096

/-- `CHECKSUM` -/
def checksum : Nat := 123456

/-- `n - 1` on a `size_t`. -/
def pred64 (n : Nat) : Nat := (n + (2 ^ 64 - 1)) % 2 ^ 64

/-- How a call ends other than by returning. -/
inductive Error where
  /-- `throw std::runtime_error(msg)` (by value or by pointer). -/
  | runtimeError (msg : String)
  /-- `throw std::out_of_range(msg)` -/
  | outOfRange (msg : String)
  /-- A failed `assert`: the process aborts. -/
  | assertion
  /-- Undefined behaviour: an index past a vector's end, or bytes of one page kind read as another. -/
  | undefined
  /-- A loop that never exits. -/
  | diverges
deriving DecidableEq, Repr

/-- What a caller can catch; any other failure ends the process, or never comes. -/
def Error.Thrown : Error → Prop
  | .runtimeError _ | .outOfRange _ => True
  | .assertion | .undefined | .diverges => False

/-- How the sources are compiled: `assert` is live by default and a no-op under `NDEBUG`. -/
class Build where
  ndebug : Bool

section Assert

variable {σ : Type} [Build]

/-- The `assert` macro. -/
def assert (c : Prop) [Decidable c] : EStateM Error σ Unit :=
  if Build.ndebug = true ∨ c then pure () else throw .assertion

theorem assert_ok {c : Prop} [Decidable c] {s : σ} (h : Build.ndebug = true ∨ c) :
    assert c s = .ok () s := by
  simp only [assert, h, if_true]
  rfl

theorem assert_fails {c : Prop} [Decidable c] {s : σ} (hb : Build.ndebug = false) (hc : ¬ c) :
    assert c s = .error .assertion s := by
  simp only [assert, hb, hc, if_false, Bool.false_eq_true, or_self]
  rfl

@[simp] theorem returns_assert {c : Prop} [Decidable c] {s : σ} {Q : Unit → σ → Prop} :
    Returns (assert c) s Q ↔ (Build.ndebug = true ∨ c) ∧ Q () s := by
  by_cases h : Build.ndebug = true ∨ c
  · rw [returns_of_eq (assert_ok h)]
    simp [h]
  · have hb : Build.ndebug = false := by
      cases hn : Build.ndebug <;> simp_all
    have hc : ¬ c := fun hc => h (.inr hc)
    constructor
    · rintro ⟨a, t, ha, -⟩
      rw [assert_fails hb hc] at ha
      cases ha
    · intro hq
      exact absurd hq.1 h

theorem leaves_assert {τ : Type} {g : σ → τ} {c : Prop} [Decidable c] :
    Leaves g (assert c : EStateM Error σ Unit) :=
  leaves_pure.ite leaves_throw

end Assert

/-- `v[i]` on a `std::vector`. -/
def index {σ α : Type} (v : List α) (i : Nat) : EStateM Error σ α :=
  match v[i]? with
  | some a => pure a
  | none => throw .undefined

theorem index_ok {σ α : Type} {v : List α} {i : Nat} {a : α} {s : σ} (h : v[i]? = some a) :
    index v i s = .ok a s := by
  simp only [index, h]
  rfl

theorem leaves_index {σ τ α : Type} {g : σ → τ} {v : List α} {i : Nat} :
    Leaves g (index v i : EStateM Error σ α) := by
  unfold index
  cases v[i]? with
  | some a => exact leaves_pure
  | none => exact leaves_throw

/-- A statement `if (c) { ... }` without an else branch. -/
def when {σ : Type} (c : Prop) [Decidable c] (x : EStateM Error σ Unit) : EStateM Error σ Unit :=
  if c then x else pure ()

end Cpplite
