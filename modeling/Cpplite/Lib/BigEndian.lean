import Cpplite.Lib.Exec

/-!
Unsigned integers as byte strings, most significant byte first, and decoders.

A decoder is a program whose state is its offset into a buffer. It stands before some
bytes and leaves the rest, so decoders compose as the byte strings they read do.
-/
namespace BigEndian

open Exec

/-- The low `w` bytes of `n`. -/
def toBytes : Nat → Nat → List UInt8
  | 0, _ => []
  | w + 1, n => UInt8.ofNat (n >>> (8 * w) &&& 0xFF) :: toBytes w n

/-- The number the bytes spell. -/
def ofBytes (bytes : List UInt8) : Nat := bytes.foldl (fun val b => val <<< 8 ||| b.toNat) 0

@[simp] theorem length_toBytes (w n : Nat) : (toBytes w n).length = w := by
  induction w with
  | zero => rfl
  | succ w ih => simp [toBytes, ih]

theorem shift_or_byte (n : Nat) (b : UInt8) : n <<< 8 ||| b.toNat = n * 256 + b.toNat := by
  have hb : b.toNat < 2 ^ 8 := b.toNat_lt
  rw [← Nat.shiftLeft_add_eq_or_of_lt hb, Nat.shiftLeft_eq]

theorem foldl_toBytes (w n acc : Nat) :
    (toBytes w n).foldl (fun val b => val <<< 8 ||| b.toNat) acc =
      acc * 256 ^ w + n % 256 ^ w := by
  induction w generalizing acc with
  | zero => simp [toBytes, Nat.mod_one]
  | succ w ih =>
    have hbyte : (UInt8.ofNat (n >>> (8 * w) &&& 0xFF)).toNat = n / 256 ^ w % 256 := by
      have hand : n >>> (8 * w) &&& 0xFF = n >>> (8 * w) % 256 := Nat.and_two_pow_sub_one_eq_mod _ 8
      have hpow : 2 ^ (8 * w) = 256 ^ w := by rw [pow_mul]; norm_num
      rw [hand, UInt8.toNat_ofNat', Nat.shiftRight_eq_div_pow, hpow]
      omega
    have hmod : n % 256 ^ (w + 1) = 256 ^ w * (n / 256 ^ w % 256) + n % 256 ^ w := by
      rw [pow_succ, Nat.mod_mul]
      omega
    rw [toBytes, List.foldl_cons, ih, shift_or_byte, hbyte, hmod]
    ring

/-- Reading back what was written, up to the width. -/
theorem ofBytes_toBytes (w n : Nat) : ofBytes (toBytes w n) = n % 256 ^ w := by
  rw [ofBytes, foldl_toBytes]
  simp

/-- The buffer from the offset on. -/
def Rest {α : Type} (buffer : List α) (offset : Nat) (rest : List α) : Prop :=
  ∃ before, buffer = before ++ rest ∧ before.length = offset

section Rest

variable {α : Type} {buffer rest : List α} {offset i : Nat} {bytes : List α} {b : α}

theorem rest_zero (buffer : List α) : Rest buffer 0 buffer := ⟨[], rfl, rfl⟩

theorem Rest.advance (h : Rest buffer offset (bytes ++ rest)) :
    Rest buffer (offset + bytes.length) rest := by
  obtain ⟨before, rfl, rfl⟩ := h
  exact ⟨before ++ bytes, by simp, by simp⟩

theorem Rest.length (h : Rest buffer offset rest) : offset + rest.length = buffer.length := by
  obtain ⟨before, rfl, rfl⟩ := h
  simp

theorem Rest.getElem? (h : Rest buffer offset rest) : buffer[offset + i]? = rest[i]? := by
  obtain ⟨before, rfl, rfl⟩ := h
  rw [List.getElem?_append_right (by omega), Nat.add_sub_cancel_left]

theorem Rest.drop (h : Rest buffer offset rest) : buffer.drop offset = rest := by
  obtain ⟨before, rfl, rfl⟩ := h
  simp

end Rest

/-- Standing before `bytes`, the decoder returns `a` and stands behind them. -/
def Reads {ε α β : Type} (x : List α → EStateM ε Nat β) (bytes : List α) (b : β) : Prop :=
  ∀ buffer offset rest, Rest buffer offset (bytes ++ rest) →
    x buffer offset = .ok b (offset + bytes.length)

section Reads

variable {ε α β γ : Type} {x : List α → EStateM ε Nat β} {f : β → List α → EStateM ε Nat γ}
  {bytes more : List α} {b : β} {c : γ}

theorem reads_pure : Reads (ε := ε) (fun _ : List α => pure b) [] b :=
  fun _ _ _ _ => rfl

theorem Reads.bind (hx : Reads x bytes b) (hf : Reads (f b) more c) :
    Reads (fun buffer => x buffer >>= fun a => f a buffer) (bytes ++ more) c := by
  intro buffer offset rest h
  rw [List.append_assoc] at h
  have hmore := hf buffer (offset + bytes.length) rest h.advance
  rw [List.length_append, ← Nat.add_assoc, ← hmore]
  exact bind_ok (hx buffer offset _ h)

/-- A decoder run on exactly what it reads ends at the end. -/
theorem Reads.all (hx : Reads x bytes b) : x bytes 0 = .ok b bytes.length := by
  have h := hx bytes 0 [] (by simpa using rest_zero bytes)
  simpa using h

end Reads

end BigEndian
