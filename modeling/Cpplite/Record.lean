import Mathlib.Data.Nat.Bitwise
import Cpplite.Catalog.Schema

/-!
Rows: `record.h` and `record.cpp`.

A row is a header, a bitmap of the null columns if the table has a nullable column at
all, and the values of the columns that are not null. Only the table's schema says
where one value ends and which type the next one has.
-/
namespace Cpplite

open Exec BigEndian Encoding Schema

/-- `ROW_HASNULL` -/
def rowHasnull : Nat := 0x0001

namespace Record

inductive Flag where
  | hasnull

/-- `std::variant<Null, Integer, Text, Bool>` -/
inductive Value where
  | null
  | integer (v : Int64)
  | text (v : Str)
  | bool (v : Bool)
deriving DecidableEq

structure RowHeader where
  xmin : Nat
  xmax : Nat
  flags : Nat

structure Row where
  values : List Value
deriving DecidableEq

end Record

open Record

variable {σ : Type}

/-- The overloads of `ValueSerializer::operator()`. -/
def Record.valueSerializer [Build] (buf : List Byte) : Value → EStateM Error σ (List Byte)
  | .null => return buf
  | .integer v => return appendUint64 buf v.toUInt64.toNat
  | .bool v => return appendBool buf v
  | .text v => do
    assert (v.length ≤ 2 ^ 32 - 1)
    return appendUint32 buf (v.length % 2 ^ 32) ++ v

namespace RecordManager

def extractFlags (flags : Nat) : List Flag :=
  if flags &&& rowHasnull ≠ 0 then [.hasnull] else []

/-- `is_null` on the bitmap that starts at `bitmap` in the buffer. -/
def isNull (bytes : List Byte) (bitmap colIdx : Nat) : EStateM Error σ Bool := do
  let b ← index bytes (bitmap + colIdx / 8)
  return b.toNat &&& 1 <<< (colIdx % 8) ≠ 0

def setBit (nullbytes : List Byte) (idx : Nat) : EStateM Error σ (List Byte) := do
  let b ← index nullbytes (idx / 8)
  return nullbytes.set (idx / 8) (b ||| UInt8.ofNat (1 <<< (idx % 8)))

def buildRowHeader (table : Table) : RowHeader where
  xmin := 0
  xmax := 0
  flags := table.columns.foldl (fun flags col => if col.isNullable then flags ||| 0x0001 else flags) 0

/-- The switch over the column's type. The address `&bytes[offset]` taken for a text header is not
read through. -/
def readValue (type : DataType) (bytes : List Byte) : ReadM Value :=
  match type with
  | .boolean => do
    let v ← readUint8 bytes
    return .bool (v ≠ 0)
  | .integer => do
    let v ← readUint64 bytes
    return .integer (UInt64.ofNat v).toInt64
  | .text => do
    let length ← readUint32 bytes
    let v ← readStr bytes length
    return .text v

/-- `nullbits != nullptr && is_null(nullbits, i)` -/
def columnNull (bytes : List Byte) (nullbits : Option Nat) (i : Nat) : ReadM Bool :=
  match nullbits with
  | none => return false
  | some bitmap => isNull bytes bitmap i

/-- One turn of the loop in `deserialize`. -/
def columnValue (bytes : List Byte) (nullbits : Option Nat) (i : Nat) (type : DataType) :
    ReadM Value := do
  let null ← columnNull bytes nullbits i
  if null then return .null else readValue type bytes

/-- The loop over the columns. Its counter is a `uint16_t` and wraps, so with more than 65535
columns it ends only when the buffer does. -/
def readValues (bytes : List Byte) (table : Table) (nullbits : Option Nat) :
    Nat → Nat → ReadM (List Value)
  | 0, _ => throw .diverges
  | fuel + 1, i =>
    match table.columns[i]? with
    | none => return []
    | some col => do
      let value ← columnValue bytes nullbits i col.type
      let values ← readValues bytes table nullbits fuel ((i + 1) % 2 ^ 16)
      return value :: values

/-- Enough rounds: each turn of the counter reads a byte or will never end. -/
def readFuel (bytes : List Byte) : Nat := (bytes.length + 2) * 2 ^ 16

def readHeader (bytes : List Byte) : ReadM RowHeader := do
  let xmin ← readUint64 bytes
  let xmax ← readUint64 bytes
  let flagbits ← readUint16 bytes
  return ⟨xmin, xmax, flagbits⟩

/-- The loop over the flags: where the bitmap starts, and the offset moved past it. -/
def findNullbits (table : Table) (flags : List Flag) : ReadM (Option Nat) :=
  flags.foldlM (fun _ flag => match flag with
    | .hasnull => do
      let offset ← get
      set (offset + (table.columns.length + 7) / 8)
      return some offset) none

/-- `deserialize`, its local `offset` being the state; it starts at 0. -/
def deserialize (bytes : List Byte) (table : Table) : ReadM Row := do
  let header ← readHeader bytes
  let nullbits ← findNullbits table (extractFlags header.flags)
  let values ← readValues bytes table nullbits (readFuel bytes) 0
  return ⟨values⟩

/-- One turn of the loop in `serialize`: the null bytes and the value bytes so far. -/
def serializeValue [Build] (table : Table) (i : Nat) (value : Value)
    (acc : List Byte × List Byte) : EStateM Error σ (List Byte × List Byte) :=
  if value = .null then do
    let col ← index table.columns i
    if col.isNullable = false then
      throw (.runtimeError "[RecordManager]: NULL constraint violation")
    else
      let nullbytes ← setBit acc.1 i
      return (nullbytes, acc.2)
  else do
    assert (value ≠ .null)
    let values ← valueSerializer acc.2 value
    return (acc.1, values)

def serializeValues [Build] (table : Table) :
    Nat → List Value → List Byte × List Byte → EStateM Error σ (List Byte × List Byte)
  | _, [], acc => return acc
  | i, value :: rest, acc => do
    let acc ← serializeValue table i value acc
    serializeValues table (i + 1) rest acc

def serialize [Build] (row : Row) (table : Table) : EStateM Error σ (List Byte) := do
  let rowHeader := buildRowHeader table
  let numNullbytes := (table.columns.length + 7) / 8
  let buffer := appendUint64 [] rowHeader.xmin
  let buffer := appendUint64 buffer rowHeader.xmax
  let buffer := appendUint16 buffer rowHeader.flags
  assert (table.columns.length = row.values.length)
  let (nullbytes, values) ← serializeValues table 0 row.values (List.replicate numNullbytes 0, [])
  let buffer := if rowHeader.flags &&& rowHasnull ≠ 0 then buffer ++ nullbytes else buffer
  return buffer ++ values

/-! ### The bitmap -/

/-- Bit `j` of a bitmap. -/
def bitAt (nullbytes : List Byte) (j : Nat) : Bool := (nullbytes.getD (j / 8) 0).toNat.testBit (j % 8)

theorem bitAt_replicate (n j : Nat) : bitAt (List.replicate n 0) j = false := by
  have hzero : (List.replicate n (0 : Byte)).getD (j / 8) 0 = 0 := by
    rw [List.getD_eq_getElem?_getD, List.getElem?_replicate]
    split <;> rfl
  rw [bitAt, hzero]
  exact Nat.zero_testBit _

theorem testBit_or_bit (b : Byte) {k i : Nat} (hk : k < 8) :
    (b ||| UInt8.ofNat (1 <<< k)).toNat.testBit i = (b.toNat.testBit i || decide (k = i)) := by
  have hlt : 1 <<< k < 2 ^ 8 := by
    rw [Nat.one_shiftLeft]
    exact Nat.pow_lt_pow_right (by decide) hk
  rw [UInt8.toNat_or, Nat.testBit_or, UInt8.toNat_ofNat', Nat.mod_eq_of_lt hlt, Nat.one_shiftLeft,
    Nat.testBit_two_pow]

theorem setBit_ok {nullbytes : List Byte} {idx : Nat} {s : σ} (h : idx / 8 < nullbytes.length) :
    ∃ nb, setBit nullbytes idx s = .ok nb s ∧ nb.length = nullbytes.length ∧
      ∀ j, bitAt nb j = (bitAt nullbytes j || decide (j = idx)) := by
  have hget := List.getElem?_eq_getElem h
  refine ⟨_, bind_ok (index_ok hget), List.length_set, ?_⟩
  intro j
  by_cases hj : idx / 8 = j / 8
  · have hiff : (idx % 8 = j % 8) ↔ (j = idx) := by omega
    simp only [bitAt, List.getD_eq_getElem?_getD, ← hj, List.getElem?_set_self h, hget,
      Option.getD_some]
    rw [testBit_or_bit _ (Nat.mod_lt _ (by decide))]
    simp only [hiff]
  · have hne : j ≠ idx := by
      rintro rfl
      exact hj rfl
    simp [bitAt, List.getD_eq_getElem?_getD, List.getElem?_set_ne hj, hne]

theorem isNull_ok {bytes nullbytes : List Byte} {bitmap j : Nat} {s : σ}
    (hbits : ∀ i < nullbytes.length, bytes[bitmap + i]? = nullbytes[i]?)
    (hj : j / 8 < nullbytes.length) :
    isNull bytes bitmap j s = .ok (bitAt nullbytes j) s := by
  have hget : bytes[bitmap + j / 8]? = some (nullbytes.get ⟨j / 8, hj⟩) := by
    rw [hbits _ hj]
    exact List.getElem?_eq_getElem hj
  have hbit : (decide ((nullbytes.get ⟨j / 8, hj⟩).toNat &&& 1 <<< (j % 8) ≠ 0)) =
      bitAt nullbytes j := by
    rw [Nat.one_shiftLeft, Nat.and_two_pow, bitAt, List.getD_eq_getElem?_getD,
      List.getElem?_eq_getElem hj]
    cases h : (nullbytes.get ⟨j / 8, hj⟩).toNat.testBit (j % 8) <;> simp_all
  rw [isNull, bind_ok (index_ok hget), hbit]
  rfl

/-! ### The values -/

/-- What a value is written as. -/
def valueBytes : Value → List Byte
  | .null => []
  | .integer v => toBytes 8 v.toUInt64.toNat
  | .bool v => [if v then 1 else 0]
  | .text v => toBytes 4 v.length ++ v

/-- A non-null value has the alternative of its column's type, and a text fits its length field. -/
def Matches (value : Value) (col : Column) : Prop :=
  match value, col.type with
  | .null, _ => True
  | .integer _, .integer => True
  | .bool _, .boolean => True
  | .text v, .text => v.length < 2 ^ 32
  | _, _ => False

/-- The value is null and its column does not allow that. -/
def Violates (value : Value) (col : Column) : Prop := value = .null ∧ col.isNullable = false

theorem valueSerializer_ok [Build] {value : Value} {col : Column} {buf : List Byte} {s : σ}
    (h : Matches value col) :
    valueSerializer buf value s = .ok (buf ++ valueBytes value) s := by
  cases value with
  | null => simp [valueSerializer, valueBytes, pure, EStateM.pure]
  | integer v => rfl
  | bool v => rfl
  | text v =>
    have hlen : v.length < 2 ^ 32 := by
      unfold Matches at h
      split at h <;> simp_all
    have hmod : v.length % 2 ^ 32 = v.length := Nat.mod_eq_of_lt hlen
    rw [valueSerializer, bind_ok (assert_ok (.inr (by omega))), hmod]
    simp only [appendUint32, valueBytes, List.append_assoc]
    rfl

theorem reads_value {value : Value} {col : Column} (h : Matches value col) (hne : value ≠ .null) :
    Reads (readValue col.type) (valueBytes value) value := by
  obtain ⟨type, name, isPrimaryKey, isNullable⟩ := col
  cases value with
  | null => exact absurd rfl hne
  | integer v =>
    cases type <;> try exact h.elim
    have hcast : (UInt64.ofNat v.toUInt64.toNat).toInt64 = v := by simp
    have hdone := Reads.bind (f := fun n _ => pure (Value.integer (UInt64.ofNat n).toInt64))
      (reads_uint64 v.toUInt64.toNat_lt) reads_pure
    rw [hcast, List.append_nil] at hdone
    exact hdone
  | bool v =>
    cases type <;> try exact h.elim
    have hbyte : valueBytes (.bool v) = toBytes 1 v.toNat ++ [] := by cases v <;> rfl
    have hv : (decide (v.toNat ≠ 0)) = v := by cases v <;> rfl
    have hdone := Reads.bind (f := fun n _ => pure (Value.bool (decide (n ≠ 0))))
      (reads_uint8 (show v.toNat < 2 ^ 8 by cases v <;> decide)) reads_pure
    rw [hv] at hdone
    rw [hbyte]
    exact hdone
  | text v =>
    cases type <;> try exact h.elim
    have hstr := Reads.bind (f := fun str _ => pure (Value.text str)) (reads_str v) reads_pure
    rw [List.append_nil] at hstr
    exact Reads.bind (f := fun n bytes => readStr bytes n >>= fun str => pure (Value.text str))
      (reads_uint32 h) hstr

/-! ### Writing a row -/

section Write

variable [Build] {table : Table} {values : List Value} {cols : List Column} {i : Nat}
  {nullbytes b : List Byte} {s : σ}

theorem serializeValue_null {col : Column} (hcol : table.columns[i]? = some col)
    (hn : col.isNullable = true) (hi : i / 8 < nullbytes.length) :
    ∃ nb, serializeValue table i .null (nullbytes, b) s = .ok (nb, b) s ∧
      nb.length = nullbytes.length ∧ ∀ j, bitAt nb j = (bitAt nullbytes j || decide (j = i)) := by
  obtain ⟨nb, hset, hlen, hbits⟩ := setBit_ok (s := s) hi
  refine ⟨nb, ?_, hlen, hbits⟩
  simp only [serializeValue, if_true]
  rw [bind_ok (index_ok hcol)]
  simp only [hn, Bool.true_eq_false, if_false]
  rw [bind_ok hset]
  rfl

theorem serializeValue_violates {value : Value} {col : Column} (hcol : table.columns[i]? = some col)
    (h : Violates value col) : serializeValue table i value (nullbytes, b) s =
      .error (.runtimeError "[RecordManager]: NULL constraint violation") s := by
  obtain ⟨rfl, hn⟩ := h
  simp only [serializeValue, if_true]
  rw [bind_ok (index_ok hcol)]
  simp only [hn, if_true]
  rfl

theorem serializeValue_value {value : Value} {col : Column} (hne : value ≠ .null)
    (h : Matches value col) : serializeValue table i value (nullbytes, b) s =
      .ok (nullbytes, b ++ valueBytes value) s := by
  simp only [serializeValue, hne, if_false]
  rw [bind_ok (assert_ok (.inr hne)), bind_ok (valueSerializer_ok h)]
  rfl

/-- The loop from column `i` on, when no null is out of place: the bitmap gains the nulls and the
buffer the values. -/
theorem serializeValues_ok (hrow : List.Forall₂ Matches values cols)
    (hnone : List.Forall₂ (fun v c => ¬ Violates v c) values cols)
    (hcols : ∀ j, table.columns[i + j]? = cols[j]?) (hbm : i + cols.length ≤ 8 * nullbytes.length) :
    ∃ nb, serializeValues table i values (nullbytes, b) s =
        .ok (nb, b ++ values.flatMap valueBytes) s ∧ nb.length = nullbytes.length ∧
      ∀ j, bitAt nb j = (bitAt nullbytes j || decide (i ≤ j ∧ values[j - i]? = some .null)) := by
  induction hrow generalizing i nullbytes b with
  | nil => exact ⟨nullbytes, by simp [serializeValues, pure, EStateM.pure], rfl, by simp⟩
  | @cons value col values cols hv hrest ih =>
    cases hnone with
    | cons hok hnone =>
    have hcol : table.columns[i]? = some col := by simpa using hcols 0
    have hnext : ∀ j, table.columns[i + 1 + j]? = cols[j]? := by
      intro j
      have h := hcols (j + 1)
      rwa [List.getElem?_cons_succ, ← Nat.add_assoc, Nat.add_right_comm] at h
    simp only [List.length_cons] at hbm
    -- the head column, then the loop on the columns after it
    have hhead : ∃ nb, serializeValue table i value (nullbytes, b) s =
        .ok (nb, b ++ valueBytes value) s ∧ nb.length = nullbytes.length ∧
        ∀ j, bitAt nb j = (bitAt nullbytes j || decide (j = i ∧ value = .null)) := by
      by_cases hne : value = .null
      · subst hne
        have hn : col.isNullable = true := by
          by_contra hfalse
          exact hok ⟨rfl, by simpa using hfalse⟩
        have hi : i / 8 < nullbytes.length := by omega
        obtain ⟨nb, hrun, hlen, hbits⟩ :=
          serializeValue_null (b := b) (s := s) hcol hn hi
        exact ⟨nb, by simpa [valueBytes] using hrun, hlen, by simpa using hbits⟩
      · exact ⟨nullbytes, serializeValue_value hne hv, rfl, by simp [hne]⟩
    obtain ⟨nb, hrun, hlen, hbits⟩ := hhead
    obtain ⟨nb', hrun', hlen', hbits'⟩ :=
      ih (b := b ++ valueBytes value) hnone hnext (show i + 1 + cols.length ≤ 8 * nb.length by omega)
    refine ⟨nb', ?_, hlen'.trans hlen, ?_⟩
    · rw [serializeValues, bind_ok hrun, hrun', List.flatMap_cons, List.append_assoc]
    · intro j
      rw [hbits', hbits, Bool.or_assoc]
      congr 1
      rcases Nat.lt_trichotomy j i with hlt | rfl | hgt
      · have h1 : ¬ i ≤ j := by omega
        have h2 : ¬ i + 1 ≤ j := by omega
        have h3 : j ≠ i := by omega
        simp [h1, h2, h3]
      · simp
      · have h1 : i ≤ j := by omega
        have h2 : i + 1 ≤ j := by omega
        have h3 : j ≠ i := by omega
        have h4 : j - i = j - (i + 1) + 1 := by omega
        simp [h1, h2, h3, h4]

/-- A null out of place stops the loop. -/
theorem serializeValues_fails (hrow : List.Forall₂ Matches values cols)
    (hbad : ¬ List.Forall₂ (fun v c => ¬ Violates v c) values cols)
    (hcols : ∀ j, table.columns[i + j]? = cols[j]?) (hbm : i + cols.length ≤ 8 * nullbytes.length) :
    serializeValues table i values (nullbytes, b) s =
      .error (.runtimeError "[RecordManager]: NULL constraint violation") s := by
  induction hrow generalizing i nullbytes b with
  | nil => exact absurd .nil hbad
  | @cons value col values cols hv hrest ih =>
    have hcol : table.columns[i]? = some col := by simpa using hcols 0
    have hnext : ∀ j, table.columns[i + 1 + j]? = cols[j]? := by
      intro j
      have h := hcols (j + 1)
      rwa [List.getElem?_cons_succ, ← Nat.add_assoc, Nat.add_right_comm] at h
    simp only [List.length_cons] at hbm
    by_cases hviol : Violates value col
    · exact bind_error (serializeValue_violates hcol hviol)
    · have hbad' : ¬ List.Forall₂ (fun v c => ¬ Violates v c) values cols :=
        fun h => hbad (.cons hviol h)
      by_cases hne : value = .null
      · subst hne
        have hn : col.isNullable = true := by
          by_contra hfalse
          exact hviol ⟨rfl, by simpa using hfalse⟩
        have hi : i / 8 < nullbytes.length := by omega
        obtain ⟨nb, hrun, hlen, -⟩ :=
          serializeValue_null (b := b) (s := s) hcol hn hi
        rw [serializeValues, bind_ok hrun]
        exact ih hbad' hnext (by omega)
      · rw [serializeValues, bind_ok (serializeValue_value hne hv)]
        exact ih hbad' hnext (by omega)

end Write

/-! ### Reading it back -/

section Read

variable {table : Table} {values : List Value} {cols : List Column} {bytes rest : List Byte}
  {nullbits : Option Nat}

/-- The loop from column `i` on reads the values back, the bitmap being right about the nulls. -/
theorem readValues_ok {fuel i offset : Nat} (hrow : List.Forall₂ Matches values cols)
    (hcols : ∀ j, table.columns[i + j]? = cols[j]?) (hmax : i + cols.length ≤ 65535)
    (hfuel : cols.length < fuel)
    (hnull : ∀ j v o, values[j]? = some v →
      columnNull bytes nullbits (i + j) o = .ok (decide (v = .null)) o)
    (h : Rest bytes offset (values.flatMap valueBytes ++ rest)) :
    readValues bytes table nullbits fuel i offset =
      .ok values (offset + (values.flatMap valueBytes).length) := by
  induction hrow generalizing i offset fuel with
  | nil =>
    obtain ⟨fuel, rfl⟩ := Nat.exists_eq_succ_of_ne_zero (Nat.ne_of_gt hfuel)
    have hnone : table.columns[i]? = none := by simpa using hcols 0
    simp only [readValues, hnone]
    rfl
  | @cons value col values cols hv hrest ih =>
    obtain ⟨fuel, rfl⟩ := Nat.exists_eq_succ_of_ne_zero (Nat.ne_of_gt (Nat.zero_lt_of_lt hfuel))
    have hcol : table.columns[i]? = some col := by simpa using hcols 0
    have hnext : ∀ j, table.columns[i + 1 + j]? = cols[j]? := by
      intro j
      have h := hcols (j + 1)
      rwa [List.getElem?_cons_succ, ← Nat.add_assoc, Nat.add_right_comm] at h
    have hnull' : ∀ j v o, values[j]? = some v →
        columnNull bytes nullbits (i + 1 + j) o = .ok (decide (v = .null)) o := by
      intro j v o hj
      rw [Nat.add_right_comm, Nat.add_assoc]
      exact hnull (j + 1) v o hj
    rw [List.flatMap_cons, List.append_assoc] at h
    simp only [List.length_cons] at hmax hfuel
    have hmod : (i + 1) % 2 ^ 16 = i + 1 := Nat.mod_eq_of_lt (by omega)
    have hhead : columnValue bytes nullbits i col.type offset =
        .ok value (offset + (valueBytes value).length) := by
      have hnow : columnNull bytes nullbits i offset = .ok (decide (value = .null)) offset :=
        hnull 0 value offset rfl
      rw [columnValue, bind_ok hnow]
      by_cases hne : value = .null
      · subst hne
        rfl
      · simp only [hne, decide_false]
        exact reads_value hv hne bytes offset _ h
    have htail := ih hnext (by omega) (show cols.length < fuel by omega) hnull' h.advance
    simp only [readValues, hcol]
    rw [bind_ok hhead, hmod, bind_ok htail, List.flatMap_cons,
      List.length_append, Nat.add_assoc]
    rfl

end Read

theorem foldl_flags (cols : List Column) (flags : Nat) :
    cols.foldl (fun flags col => if col.isNullable then flags ||| 0x0001 else flags) flags =
      if cols.any Column.isNullable then flags ||| 1 else flags := by
  induction cols generalizing flags with
  | nil => rfl
  | cons col cols ih =>
    rw [List.foldl_cons, ih]
    cases hn : col.isNullable <;> cases ha : cols.any Column.isNullable <;>
      simp [hn, ha]

/-- The header says whether there is a bitmap: a nullable column is enough. -/
theorem buildRowHeader_eq (table : Table) : buildRowHeader table =
    ⟨0, 0, if table.columns.any Column.isNullable then 1 else 0⟩ := by
  rw [buildRowHeader, foldl_flags]
  rfl

def headerBytes (flags : Nat) : List Byte := toBytes 8 0 ++ (toBytes 8 0 ++ toBytes 2 flags)

theorem reads_header {flags : Nat} (h : flags < 2 ^ 16) :
    Reads readHeader (headerBytes flags) ⟨0, 0, flags⟩ := by
  have hlast := Reads.bind (f := fun n _ => pure (⟨0, 0, n⟩ : RowHeader)) (reads_uint16 h) reads_pure
  rw [List.append_nil] at hlast
  apply Reads.bind (reads_uint64 (n := 0) (by decide))
  exact Reads.bind (f := fun m bytes => readUint16 bytes >>= fun n => pure (⟨0, m, n⟩ : RowHeader))
    (reads_uint64 (by decide)) hlast

/-- The bytes before the values: the header, and the bitmap if there is one. -/
def prefixBytes (table : Table) (nullbytes : List Byte) : List Byte :=
  if table.columns.any Column.isNullable then headerBytes 1 ++ nullbytes else headerBytes 0

/-- `serialize` on a row without a null out of place: the bitmap marks exactly the nulls. -/
theorem serialize_ok [Build] {row : Row} {table : Table} {s : σ}
    (hrow : List.Forall₂ Matches row.values table.columns)
    (hnone : List.Forall₂ (fun v c => ¬ Violates v c) row.values table.columns) :
    ∃ nb, serialize row table s = .ok (prefixBytes table nb ++ row.values.flatMap valueBytes) s ∧
      nb.length = (table.columns.length + 7) / 8 ∧
      ∀ j, bitAt nb j = decide (row.values[j]? = some .null) := by
  have hlen : table.columns.length = row.values.length := hrow.length_eq.symm
  obtain ⟨nb, hrun, hnb, hbits⟩ := serializeValues_ok (i := 0) (b := []) (s := s)
    hrow hnone (fun j => by rw [Nat.zero_add])
    (show _ ≤ 8 * (List.replicate ((table.columns.length + 7) / 8) (0 : Byte)).length by
      rw [List.length_replicate]
      omega)
  rw [List.length_replicate] at hnb
  refine ⟨nb, ?_, hnb, ?_⟩
  · rw [serialize, bind_ok (assert_ok (.inr hlen)), bind_ok hrun, buildRowHeader_eq]
    cases ha : table.columns.any Column.isNullable <;>
      simp [prefixBytes, headerBytes, ha, rowHasnull, appendUint64, appendUint16, pure, EStateM.pure]
  · intro j
    rw [hbits, bitAt_replicate]
    simp

section Decode

variable {row : Row} {table : Table} {nb : List Byte}

/-- With a bitmap, the nulls are the columns it marks. -/
theorem deserialize_bitmap (hcols : table.columns.length ≤ 65535)
    (hrow : List.Forall₂ Matches row.values table.columns)
    (hnb : nb.length = (table.columns.length + 7) / 8)
    (hbits : ∀ j, bitAt nb j = decide (row.values[j]? = some .null)) :
    deserialize (headerBytes 1 ++ (nb ++ row.values.flatMap valueBytes)) table 0 =
      .ok row (headerBytes 1 ++ (nb ++ row.values.flatMap valueBytes)).length := by
  generalize hbytes : headerBytes 1 ++ (nb ++ row.values.flatMap valueBytes) = bytes
  have hstart : Rest bytes 0 (headerBytes 1 ++ (nb ++ row.values.flatMap valueBytes)) := by
    rw [hbytes]
    exact rest_zero bytes
  have hmap := hstart.advance
  have hrest := hmap.advance
  have hnull : ∀ j v o, row.values[j]? = some v →
      columnNull bytes (some (0 + (headerBytes 1).length)) (0 + j) o = .ok (decide (v = .null)) o := by
    intro j v o hj
    have hlt : j < row.values.length := (List.getElem?_eq_some_iff.mp hj).1
    have hlen := hrow.length_eq
    have hrun := isNull_ok (s := o) (j := j) (fun i hi => by
      rw [hmap.getElem?, List.getElem?_append_left hi]) (show j / 8 < nb.length by omega)
    rw [hbits, hj] at hrun
    simpa [columnNull] using hrun
  have hend := hrest.length
  rw [← List.append_nil (row.values.flatMap valueBytes)] at hrest
  have hvalues : readValues bytes table (some _) (readFuel bytes) 0 _ = .ok row.values _ :=
    readValues_ok hrow (fun j => by rw [Nat.zero_add]) (by omega) (by unfold readFuel; omega) hnull
      hrest
  have hfind : findNullbits table (extractFlags 1) (0 + (headerBytes 1).length) =
      .ok (some (0 + (headerBytes 1).length)) (0 + (headerBytes 1).length + nb.length) := by
    rw [hnb]
    rfl
  rw [deserialize, bind_ok (reads_header (by decide) bytes 0 _ hstart), bind_ok hfind,
    bind_ok hvalues, hend]
  rfl

/-- Without one, there are none. -/
theorem deserialize_plain (hcols : table.columns.length ≤ 65535)
    (hrow : List.Forall₂ Matches row.values table.columns) (hnone : .null ∉ row.values) :
    deserialize (headerBytes 0 ++ row.values.flatMap valueBytes) table 0 =
      .ok row (headerBytes 0 ++ row.values.flatMap valueBytes).length := by
  generalize hbytes : headerBytes 0 ++ row.values.flatMap valueBytes = bytes
  have hstart : Rest bytes 0 (headerBytes 0 ++ row.values.flatMap valueBytes) := by
    rw [hbytes]
    exact rest_zero bytes
  have hrest := hstart.advance
  have hend := hrest.length
  have hnull : ∀ j v o, row.values[j]? = some v →
      columnNull bytes none (0 + j) o = .ok (decide (v = .null)) o := by
    intro j v o hj
    have hne : v ≠ .null := by
      rintro rfl
      exact hnone (List.mem_of_getElem? hj)
    simp only [hne, decide_false]
    rfl
  rw [← List.append_nil (row.values.flatMap valueBytes)] at hrest
  have hvalues : readValues bytes table none (readFuel bytes) 0 _ = .ok row.values _ :=
    readValues_ok hrow (fun j => by rw [Nat.zero_add]) (by omega) (by unfold readFuel; omega) hnull
      hrest
  have hfind : findNullbits table (extractFlags 0) (0 + (headerBytes 0).length) =
      .ok none (0 + (headerBytes 0).length) := rfl
  rw [deserialize, bind_ok (reads_header (by decide) bytes 0 _ hstart), bind_ok hfind,
    bind_ok hvalues, hend]
  rfl

theorem deserialize_ok (hcols : table.columns.length ≤ 65535)
    (hrow : List.Forall₂ Matches row.values table.columns)
    (hnone : List.Forall₂ (fun v c => ¬ Violates v c) row.values table.columns)
    (hnb : nb.length = (table.columns.length + 7) / 8)
    (hbits : ∀ j, bitAt nb j = decide (row.values[j]? = some .null)) :
    deserialize (prefixBytes table nb ++ row.values.flatMap valueBytes) table 0 =
      .ok row (prefixBytes table nb ++ row.values.flatMap valueBytes).length := by
  cases ha : table.columns.any Column.isNullable with
  | true =>
    simp only [prefixBytes, ha, if_true, List.append_assoc]
    exact deserialize_bitmap hcols hrow hnb hbits
  | false =>
    simp only [prefixBytes, ha, Bool.false_eq_true, if_false]
    apply deserialize_plain hcols hrow
    -- a null would need a nullable column
    intro hnull
    obtain ⟨i, hi, hget⟩ := List.getElem_of_mem hnull
    have hlen := hrow.length_eq
    have hviol := (List.forall₂_iff_get.mp hnone).2 i hi (by omega)
    refine hviol ⟨hget, ?_⟩
    rw [List.any_eq_false] at ha
    simpa using ha _ (List.getElem_mem (by omega))

end Decode

/-- A null sits in a column that is not nullable. -/
def NullViolation (row : Row) (table : Table) : Prop :=
  ∃ (i : Nat) (value : Value) (col : Column), row.values[i]? = some value ∧ table.columns[i]? = some col ∧ Violates value col

theorem nullViolation_iff {row : Row} {table : Table}
    (hrow : List.Forall₂ Matches row.values table.columns) : NullViolation row table ↔
      ¬ List.Forall₂ (fun v c => ¬ Violates v c) row.values table.columns := by
  have hlen := hrow.length_eq
  rw [List.forall₂_iff_get]
  constructor
  · rintro ⟨i, value, col, hv, hc, hviol⟩ ⟨-, h⟩
    obtain ⟨hi, rfl⟩ := List.getElem?_eq_some_iff.mp hv
    obtain ⟨hi', rfl⟩ := List.getElem?_eq_some_iff.mp hc
    exact h i hi hi' hviol
  · intro h
    by_contra hno
    refine h ⟨hlen, fun i hi hi' hviol => hno ?_⟩
    exact ⟨i, _, _, List.getElem?_eq_getElem hi, List.getElem?_eq_getElem hi', hviol⟩

/-- For rows of the table's shape, `serialize` throws exactly on a null in a column that is not
nullable, and otherwise `deserialize` gives the row back and stops at the end of the buffer. -/
theorem serialize_deserialize [Build] (row : Row) (table : Table) (s : σ)
    (hcols : table.columns.length ≤ 65535)
    (hrow : List.Forall₂ Matches row.values table.columns) :
    (NullViolation row table → serialize row table s =
      .error (.runtimeError "[RecordManager]: NULL constraint violation") s) ∧
    (¬ NullViolation row table → ∃ bytes, serialize row table s = .ok bytes s ∧
      deserialize bytes table 0 = .ok row bytes.length) := by
  rw [nullViolation_iff hrow, not_not]
  constructor
  · intro hbad
    have hlen : table.columns.length = row.values.length := hrow.length_eq.symm
    rw [serialize, bind_ok (assert_ok (.inr hlen))]
    apply bind_error
    apply serializeValues_fails hrow hbad (fun j => by rw [Nat.zero_add])
    rw [List.length_replicate]
    omega
  · intro hnone
    obtain ⟨nb, hrun, hnb, hbits⟩ := serialize_ok (s := s) hrow hnone
    exact ⟨_, hrun, deserialize_ok hcols hrow hnone hnb hbits⟩

def pairTable : Table :=
  ⟨.table, [], [], [⟨.integer, [], true, false⟩, ⟨.text, [], false, true⟩]⟩

theorem matches_pairTable (v : Int64) :
    List.Forall₂ Matches [.integer v, .null] pairTable.columns :=
  .cons trivial (.cons trivial .nil)

theorem serialize_deserialize_pair :
    letI : Build := ⟨false⟩
    ∃ bytes, serialize ⟨[.integer (-1), .null]⟩ pairTable () = .ok bytes () ∧
      deserialize bytes pairTable 0 = .ok ⟨[.integer (-1), .null]⟩ bytes.length := by
  let _ : Build := ⟨false⟩
  apply (serialize_deserialize _ _ () (by decide) (matches_pairTable (-1))).2
  rintro ⟨i, value, col, hv, hc, rfl, hn⟩
  rcases i with _ | _ | i
  · cases hv
  · cases hc
    cases hn
  · cases hv

end RecordManager

end Cpplite
