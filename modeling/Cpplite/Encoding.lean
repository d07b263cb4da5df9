import Cpplite.Base
import Cpplite.Lib.BigEndian

/-!
Byte buffers: `encoding.cpp`.

The integers are big-endian. The readers take the offset by reference and advance it, so
it is their state; they check it against the buffer's end first.
-/
namespace Cpplite

open Exec BigEndian

/-- `std::string`: any bytes. -/
abbrev Str := List Byte

/-- A reader with its `size_t &offset`. -/
abbrev ReadM := EStateM Error Nat

namespace Encoding

def appendUint16 (buffer : List Byte) (val : Nat) : List Byte := buffer ++ toBytes 2 val

def appendUint32 (buffer : List Byte) (val : Nat) : List Byte := buffer ++ toBytes 4 val

def appendUint64 (buffer : List Byte) (val : Nat) : List Byte := buffer ++ toBytes 8 val

def appendBool (buffer : List Byte) (val : Bool) : List Byte := buffer ++ [if val then 1 else 0]

/-- The check every reader starts with, and the bytes it then takes. -/
def readBytes (length : Nat) (msg : String) (buffer : List Byte) : ReadM (List Byte) := do
  let offset ← get
  if offset + length > buffer.length then
    throw (.outOfRange msg)
  else
    set (offset + length)
    return (buffer.drop offset).take length

/-- `read_uint16`, `read_uint32` and `read_uint64` differ in the width alone: the first two write
out the shifts that the last one makes in a loop. -/
def readUint (length : Nat) (msg : String) (buffer : List Byte) : ReadM Nat :=
  ofBytes <$> readBytes length msg buffer

def readUint8 (buffer : List Byte) : ReadM Nat := readUint 1 "Buffer underflow reading uint8" buffer

def readUint16 (buffer : List Byte) : ReadM Nat :=
  readUint 2 "Buffer underflow reading uint16" buffer

def readUint32 (buffer : List Byte) : ReadM Nat :=
  readUint 4 "Buffer underflow reading uint32" buffer

def readUint64 (buffer : List Byte) : ReadM Nat :=
  readUint 8 "Buffer underflow reading uint64" buffer

def readStr (buffer : List Byte) (length : Nat) : ReadM Str :=
  readBytes length "Buffer underflow reading string" buffer

end Encoding

/-- `buffer[offset]`, the byte under the offset, and the `offset++` behind it: unchecked. -/
def nextByte (buffer : List Byte) : ReadM Byte := do
  let offset ← get
  let b ← index buffer offset
  set (offset + 1)
  return b

/-- A string copied from `buffer.data() + offset`, and the offset moved past it: unchecked. -/
def nextStr (length : Nat) (buffer : List Byte) : ReadM Str := do
  let offset ← get
  if offset + length ≤ buffer.length then
    set (offset + length)
    return (buffer.drop offset).take length
  else
    throw .undefined

/-! ### What a reader finds -/

theorem reads_bytes (bytes : List Byte) (msg : String) :
    Reads (Encoding.readBytes bytes.length msg) bytes bytes := by
  intro buffer offset rest h
  have hlen := h.length
  have hfits : ¬ offset + bytes.length > buffer.length := by
    simp only [List.length_append] at hlen
    omega
  have hcut : (buffer.drop offset).take bytes.length = bytes := by
    rw [h.drop, List.take_left]
  simp only [Encoding.readBytes, hfits, bind_ok get_ok, if_false]
  exact congrArg (EStateM.Result.ok · _) hcut

/-- Reading back an integer that fits its width. -/
theorem reads_uint {w n : Nat} (msg : String) (hn : n < 256 ^ w) :
    Reads (Encoding.readUint w msg) (toBytes w n) n := by
  intro buffer offset rest h
  have hbytes := reads_bytes (toBytes w n) msg buffer offset rest h
  rw [length_toBytes] at hbytes
  have hread : Encoding.readUint w msg buffer offset =
      .ok (ofBytes (toBytes w n)) (offset + w) := by
    rw [Encoding.readUint, map_eq_pure_bind, bind_ok hbytes]
    rfl
  rw [hread, ofBytes_toBytes, Nat.mod_eq_of_lt hn, length_toBytes]

theorem reads_uint8 {n : Nat} (hn : n < 2 ^ 8) : Reads Encoding.readUint8 (toBytes 1 n) n :=
  reads_uint _ (by omega)

theorem reads_uint16 {n : Nat} (hn : n < 2 ^ 16) : Reads Encoding.readUint16 (toBytes 2 n) n :=
  reads_uint _ (by omega)

theorem reads_uint32 {n : Nat} (hn : n < 2 ^ 32) : Reads Encoding.readUint32 (toBytes 4 n) n :=
  reads_uint _ (by omega)

theorem reads_uint64 {n : Nat} (hn : n < 2 ^ 64) : Reads Encoding.readUint64 (toBytes 8 n) n :=
  reads_uint _ (by omega)

theorem reads_str (str : Str) :
    Reads (fun buffer => Encoding.readStr buffer str.length) str str :=
  reads_bytes str _

theorem reads_nextByte (b : Byte) : Reads nextByte [b] b := by
  intro buffer offset rest h
  have hget : buffer[offset]? = some b := by simpa using h.getElem? (i := 0)
  rw [nextByte, bind_ok get_ok, bind_ok (index_ok hget)]
  rfl

theorem reads_nextStr (str : Str) : Reads (nextStr str.length) str str := by
  intro buffer offset rest h
  have hlen := h.length
  have hfits : offset + str.length ≤ buffer.length := by
    simp only [List.length_append] at hlen
    omega
  have hcut : (buffer.drop offset).take str.length = str := by
    rw [h.drop, List.take_left]
  simp only [nextStr, hfits, bind_ok get_ok, if_true]
  exact congrArg (EStateM.Result.ok · _) hcut

/-! ### Where a read ends -/

section Bounds

open Encoding

variable {bytes : List Byte} {w offset : Nat} {msg : String}

theorem readBytes_ok (h : offset + w ≤ bytes.length) :
    readBytes w msg bytes offset = .ok ((bytes.drop offset).take w) (offset + w) := by
  rw [readBytes, bind_ok get_ok, if_neg (not_lt.mpr h)]
  rfl

theorem readBytes_short (h : bytes.length < offset + w) :
    readBytes w msg bytes offset = .error (.outOfRange msg) offset := by
  rw [readBytes, bind_ok get_ok, if_pos h]
  rfl

theorem readUint_ok (h : offset + w ≤ bytes.length) :
    readUint w msg bytes offset = .ok (ofBytes ((bytes.drop offset).take w)) (offset + w) := by
  rw [readUint, map_eq_pure_bind, bind_ok (readBytes_ok h)]
  rfl

theorem readUint_short (h : bytes.length < offset + w) :
    readUint w msg bytes offset = .error (.outOfRange msg) offset := by
  rw [readUint, map_eq_pure_bind, bind_error (readBytes_short h)]

end Bounds

end Cpplite
