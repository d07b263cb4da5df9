import Cpplite.Lib.BigEndian
import Cpplite.Lib.ByteFile
import Mathlib.Data.UInt

/-!
Records as they lie in memory: unsigned integers least significant byte first, at fixed
places of a byte string. A field is read back from where it was written, and a write
elsewhere does not change it.
-/
namespace LittleEndian

open ByteFile

def toBytes (w n : Nat) : List UInt8 := (BigEndian.toBytes w n).reverse

def ofBytes (bytes : List UInt8) : Nat := BigEndian.ofBytes bytes.reverse

/-- The `w` bytes at the offset, as a number. -/
def field (w : Nat) (bytes : List UInt8) (offset : Nat) : Nat := ofBytes (pread bytes w offset)

variable {v w n offset place : Nat} {bytes front rest data : List UInt8}

@[simp] theorem length_toBytes (w n : Nat) : (toBytes w n).length = w := by simp [toBytes]

theorem ofBytes_toBytes (w n : Nat) : ofBytes (toBytes w n) = n % 256 ^ w := by
  rw [ofBytes, toBytes, List.reverse_reverse, BigEndian.ofBytes_toBytes]

theorem ofBytes_cons (b : UInt8) (bytes : List UInt8) :
    ofBytes (b :: bytes) = ofBytes bytes * 256 + b.toNat := by
  rw [ofBytes, BigEndian.ofBytes, List.reverse_cons, List.foldl_append, List.foldl_cons,
    List.foldl_nil, BigEndian.shift_or_byte]
  rfl

theorem ofBytes_lt (bytes : List UInt8) : ofBytes bytes < 256 ^ bytes.length := by
  induction bytes with
  | nil => exact Nat.zero_lt_one
  | cons b bytes ih =>
    have hb : b.toNat < 256 := b.toNat_lt
    rw [ofBytes_cons, List.length_cons, pow_succ]
    omega

theorem ofBytes_zeros (n : Nat) : ofBytes (List.replicate n 0) = 0 := by
  induction n with
  | zero => rfl
  | succ n ih => rw [List.replicate_succ, ofBytes_cons, ih]; rfl

/-! ### Fields -/

theorem field_lt (w : Nat) (bytes : List UInt8) (offset : Nat) : field w bytes offset < 256 ^ w := by
  have hlen : (pread bytes w offset).length ≤ w := by
    rw [pread, List.length_take]
    exact Nat.min_le_left _ _
  exact (ofBytes_lt _).trans_le (Nat.pow_le_pow_right (by decide) hlen)

theorem field_zeros : field w (List.replicate n 0) offset = 0 := by
  rw [field, pread, List.drop_replicate, List.take_replicate, ofBytes_zeros]

@[simp] theorem field_here : field w (toBytes w n ++ rest) 0 = n % 256 ^ w := by
  rw [field, pread, List.drop_zero, List.take_left' (length_toBytes w n), ofBytes_toBytes]

@[simp] theorem field_toBytes : field w (toBytes w n) 0 = n % 256 ^ w := by
  rw [← List.append_nil (toBytes w n), field_here]

theorem field_skip (h : front.length ≤ offset) :
    field w (front ++ rest) offset = field w rest (offset - front.length) := by
  rw [field, field, pread, pread, List.drop_append, List.drop_eq_nil_of_le h, List.nil_append]

/-- The field of a number written behind `front`. -/
theorem field_at (h : front.length = offset) (hn : n < 256 ^ w) :
    field w (front ++ (toBytes w n ++ rest)) offset = n := by
  rw [field_skip (by omega), h, Nat.sub_self, field_here, Nat.mod_eq_of_lt hn]

/-- A field within a write is that field of what was written. -/
theorem field_pwrite (h : offset + w ≤ data.length) :
    field w (pwrite bytes data place) (place + offset) = field w data offset := by
  rw [field, field, pread_pwrite_inside h]

theorem field_pwrite_zero (h : offset + w ≤ data.length) :
    field w (pwrite bytes data 0) offset = field w data offset := by
  rw [← Nat.zero_add offset, field_pwrite h, Nat.zero_add]

/-- A number written is the field at that place. -/
theorem field_pwrite_toBytes : field w (pwrite bytes (toBytes w n) place) place = n % 256 ^ w := by
  have h : field w (pwrite bytes (toBytes w n) place) (place + 0) = field w (toBytes w n) 0 :=
    field_pwrite (by rw [Nat.zero_add, length_toBytes])
  rwa [Nat.add_zero, field_toBytes] at h

/-- A field beside a write stays. -/
theorem field_pwrite_of_disjoint (hd : offset + w ≤ place ∨ place + data.length ≤ offset)
    (hb : offset + w ≤ bytes.length) :
    field w (pwrite bytes data place) offset = field w bytes offset := by
  rw [field, field, pread_pwrite_of_disjoint hd hb]

/-- A field lies in the bytes around it. -/
theorem field_pread {k : Nat} (h : offset + w ≤ k) :
    field w (pread bytes k place) offset = field w bytes (place + offset) := by
  rw [field, field, pread_pread h]

/-- Byte strings with the same beginning have the same fields there. -/
theorem field_prefix {bytes' : List UInt8} {k : Nat} (hk : pread bytes k 0 = pread bytes' k 0)
    (h : offset + w ≤ k) : field w bytes offset = field w bytes' offset := by
  rw [← Nat.zero_add offset, ← field_pread h, hk, field_pread h]

/-! ### Records -/

/-- A record is read from its own `size` bytes. -/
def Within {α : Type} (recordAt : List UInt8 → Nat → α) (size : Nat) : Prop :=
  ∀ bytes offset, recordAt bytes offset = recordAt (pread bytes size offset) 0

section Records

variable {α : Type} {recordAt : List UInt8 → Nat → α} {size k : Nat}

theorem Within.pwrite (h : Within recordAt size) (hk : k + size ≤ data.length) :
    recordAt (pwrite bytes data place) (place + k) = recordAt data k := by
  rw [h, pread_pwrite_inside hk, ← h]

theorem Within.pwrite_of_disjoint (h : Within recordAt size)
    (hd : k + size ≤ place ∨ place + data.length ≤ k) (hb : k + size ≤ bytes.length) :
    recordAt (ByteFile.pwrite bytes data place) k = recordAt bytes k := by
  rw [h, pread_pwrite_of_disjoint hd hb, ← h]

/-- Records one after the other, each found at its place. -/
theorem Within.flatten {records : List (List UInt8)} {record : List UInt8} (h : Within recordAt size)
    (hlen : ∀ record ∈ records, record.length = size) (hk : records[k]? = some record) :
    recordAt records.flatten (k * size) = recordAt record 0 := by
  rw [h, pread_flatten hlen hk]

end Records

end LittleEndian
