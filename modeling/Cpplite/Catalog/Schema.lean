import Cpplite.Encoding

/-!
Table schemas and the rows that keep them: `schema.h`, and `serialize_table` and
`deserialize_table` of `catalog.cpp`.

A row is a nested format with 16-bit length fields. The writer truncates each length to
16 bits and writes that many items; the reader trusts the lengths.
-/
namespace Cpplite

open Exec BigEndian Encoding

namespace Schema

inductive DataType where
  | integer
  | boolean
  | text
deriving DecidableEq, Repr

inductive SchemaType where
  | table
deriving DecidableEq, Repr

def DataType.toByte : DataType → Byte
  | .integer => 0x01
  | .boolean => 0x02
  | .text => 0x03

/-- `static_cast<DataType>`. A byte that is no enumerator's is left undefined: no table holds one. -/
def DataType.ofByte (b : Byte) : ReadM DataType :=
  if b = 0x01 then pure .integer
  else if b = 0x02 then pure .boolean
  else if b = 0x03 then pure .text
  else throw .undefined

def SchemaType.toByte : SchemaType → Byte
  | .table => 0x01

def SchemaType.ofByte (b : Byte) : ReadM SchemaType :=
  if b = 0x01 then pure .table else throw .undefined

structure Column where
  type : DataType
  name : Str
  isPrimaryKey : Bool
  isNullable : Bool
deriving DecidableEq, Repr

structure Table where
  type : SchemaType
  name : Str
  tblName : Str
  columns : List Column
deriving DecidableEq, Repr

end Schema

open Schema

/-- `static_cast<std::byte>` of a `bool`. -/
def boolByte (b : Bool) : Byte := if b then 1 else 0

/-- A 16-bit length and that many bytes of the string. -/
def appendName (serialized : List Byte) (name : Str) : List Byte :=
  let nameLen := name.length % 2 ^ 16
  appendUint16 serialized nameLen ++ name.take nameLen

def appendColumn (serialized : List Byte) (col : Column) : List Byte :=
  appendName (serialized ++ [col.type.toByte]) col.name ++
    [boolByte col.isPrimaryKey] ++ [boolByte col.isNullable]

/-- `serialize_table` -/
def serializeTable (table : Table) (rootPgno : Nat) : List Byte :=
  let serialized := [table.type.toByte]
  let serialized := appendName serialized table.name
  let serialized := appendName serialized table.tblName
  let serialized := appendUint64 serialized rootPgno
  let numCols := table.columns.length % 2 ^ 16
  let serialized := appendUint16 serialized numCols
  (table.columns.take numCols).foldl appendColumn serialized

def readName (payload : List Byte) : ReadM Str := do
  let nameLen ← readUint16 payload
  nextStr nameLen payload

def readColumn (payload : List Byte) : ReadM Column := do
  let type ← nextByte payload
  let type ← DataType.ofByte type
  let name ← readName payload
  let isPrimaryKey ← nextByte payload
  let isNullable ← nextByte payload
  return ⟨type, name, isPrimaryKey ≠ 0, isNullable ≠ 0⟩

/-- The loop over the columns, with how many are still to come. -/
def readColumns : Nat → List Byte → ReadM (List Column)
  | 0, _ => return []
  | n + 1, payload => do
    let col ← readColumn payload
    let cols ← readColumns n payload
    return col :: cols

/-- The fields in the order they are read. -/
def readTable (payload : List Byte) : ReadM (Table × Nat) := do
  let type ← nextByte payload
  let type ← SchemaType.ofByte type
  let name ← readName payload
  let tblName ← readName payload
  let rootPgno ← readUint64 payload
  let numCols ← readUint16 payload
  let columns ← readColumns numCols payload
  return (⟨type, name, tblName, columns⟩, rootPgno)

/-- `deserialize_table`, its local `offset` being the state; it starts at 0. -/
def deserializeTable [Build] (payload : List Byte) : ReadM (Table × Nat) := do
  let res ← readTable payload
  let offset ← get
  assert (payload.length = offset)
  return res

/-! ### The bytes of each part -/

def nameBytes (name : Str) : List Byte := toBytes 2 name.length ++ name

def columnBytes (col : Column) : List Byte :=
  [col.type.toByte] ++ (nameBytes col.name ++ ([boolByte col.isPrimaryKey] ++ [boolByte col.isNullable]))

/-- The 16-bit lengths are the real ones. -/
structure Schema.Table.Narrow (table : Table) : Prop where
  name : table.name.length ≤ 65535
  tblName : table.tblName.length ≤ 65535
  columns : table.columns.length ≤ 65535
  colNames : ∀ col ∈ table.columns, col.name.length ≤ 65535

theorem appendName_eq {serialized : List Byte} {name : Str} (h : name.length ≤ 65535) :
    appendName serialized name = serialized ++ nameBytes name := by
  have hmod : name.length % 2 ^ 16 = name.length := Nat.mod_eq_of_lt (by omega)
  simp only [appendName, appendUint16, nameBytes, hmod, List.take_length, List.append_assoc]

theorem appendColumn_eq {serialized : List Byte} {col : Column} (h : col.name.length ≤ 65535) :
    appendColumn serialized col = serialized ++ columnBytes col := by
  simp [appendColumn, appendName_eq h, columnBytes]

theorem appendColumns_eq {cols : List Column} {serialized : List Byte}
    (h : ∀ col ∈ cols, col.name.length ≤ 65535) :
    cols.foldl appendColumn serialized = serialized ++ cols.flatMap columnBytes := by
  induction cols generalizing serialized with
  | nil => simp
  | cons col cols ih =>
    have hcol := h col (by simp)
    have hcols : ∀ c ∈ cols, c.name.length ≤ 65535 := fun c hc => h c (by simp [hc])
    rw [List.foldl_cons, appendColumn_eq hcol, ih hcols, List.flatMap_cons, List.append_assoc]

/-- What the writer writes of a table whose lengths fit. -/
theorem serializeTable_eq {table : Table} (h : table.Narrow) (rootPgno : Nat) :
    serializeTable table rootPgno = [table.type.toByte] ++ (nameBytes table.name ++
      (nameBytes table.tblName ++ (toBytes 8 rootPgno ++ (toBytes 2 table.columns.length ++
        table.columns.flatMap columnBytes)))) := by
  have hcols := h.columns
  have hmod : table.columns.length % 2 ^ 16 = table.columns.length := Nat.mod_eq_of_lt (by omega)
  simp only [serializeTable, hmod, List.take_length]
  rw [appendColumns_eq h.colNames, appendName_eq h.name, appendName_eq h.tblName]
  simp [appendUint64, appendUint16]

/-! ### Reading the parts back -/

theorem reads_dataType (type : DataType) :
    Reads (fun _ : List Byte => DataType.ofByte type.toByte) [] type := by
  cases type <;> exact reads_pure

theorem reads_schemaType (type : SchemaType) :
    Reads (fun _ : List Byte => SchemaType.ofByte type.toByte) [] type := by
  cases type
  exact reads_pure

theorem reads_name {name : Str} (h : name.length ≤ 65535) : Reads readName (nameBytes name) name :=
  (reads_uint16 (by omega)).bind (reads_nextStr name)

theorem boolByte_ne_zero (b : Bool) : decide (boolByte b ≠ 0) = b := by
  cases b <;> rfl

theorem reads_column {col : Column} (h : col.name.length ≤ 65535) :
    Reads readColumn (columnBytes col) col := by
  obtain ⟨type, name, isPrimaryKey, isNullable⟩ := col
  have hlast : Reads (ε := Error) (fun _ : List Byte => pure (⟨type, name, boolByte isPrimaryKey ≠ 0,
      boolByte isNullable ≠ 0⟩ : Column)) [] ⟨type, name, isPrimaryKey, isNullable⟩ := by
    rw [boolByte_ne_zero, boolByte_ne_zero]
    exact reads_pure
  unfold readColumn
  apply Reads.bind (reads_nextByte _)
  apply Reads.bind (show Reads _ [] _ from reads_dataType type)
  apply Reads.bind (reads_name h)
  apply Reads.bind (reads_nextByte _)
  exact Reads.bind (reads_nextByte _) hlast

theorem reads_columns {cols : List Column} (h : ∀ col ∈ cols, col.name.length ≤ 65535) :
    Reads (readColumns cols.length) (cols.flatMap columnBytes) cols := by
  induction cols with
  | nil => exact reads_pure
  | cons col cols ih =>
    have hcols := ih (fun c hc => h c (by simp [hc]))
    have hlast : Reads (ε := Error) (fun _ : List Byte => pure (col :: cols)) [] (col :: cols) :=
      reads_pure
    rw [List.flatMap_cons]
    change Reads (fun payload => readColumn payload >>= fun c =>
      readColumns cols.length payload >>= fun cs => pure (c :: cs)) _ _
    apply Reads.bind (reads_column (h col (by simp)))
    have hdone := Reads.bind (f := fun cs _ => pure (col :: cs)) hcols hlast
    rwa [List.append_nil] at hdone

theorem reads_table {table : Table} {rootPgno : Nat} (h : table.Narrow) (hr : rootPgno < 2 ^ 64) :
    Reads readTable (serializeTable table rootPgno) (table, rootPgno) := by
  have hcols := h.columns
  rw [serializeTable_eq h]
  unfold readTable
  apply Reads.bind (reads_nextByte _)
  apply Reads.bind (show Reads _ [] _ from reads_schemaType table.type)
  apply Reads.bind (reads_name h.name)
  apply Reads.bind (reads_name h.tblName)
  apply Reads.bind (reads_uint64 hr)
  apply Reads.bind (reads_uint16 (by omega))
  have hdone := Reads.bind
    (f := fun cols _ => pure ((⟨table.type, table.name, table.tblName, cols⟩ : Table), rootPgno))
    (reads_columns h.colNames) reads_pure
  rwa [List.append_nil] at hdone

/-- What `serialize_table` wrote, `deserialize_table` reads back, to the last byte. -/
theorem deserializeTable_ok [Build] {table : Table} {rootPgno : Nat} (h : table.Narrow)
    (hr : rootPgno < 2 ^ 64) : deserializeTable (serializeTable table rootPgno) 0 =
      .ok (table, rootPgno) (serializeTable table rootPgno).length := by
  rw [deserializeTable, bind_ok (reads_table h hr).all, bind_ok get_ok,
    bind_ok (assert_ok (.inr rfl))]
  rfl

/-- The schema row format is lossless: every table whose lengths fit 16 bits, with every root
page number, comes back, and the reader ends exactly at the end of the row. -/
theorem deserializeTable_serializeTable [Build] (table : Table) (rootPgno : Nat)
    (hname : table.name.length ≤ 65535) (htbl : table.tblName.length ≤ 65535)
    (hcols : table.columns.length ≤ 65535) (hcol : ∀ col ∈ table.columns, col.name.length ≤ 65535)
    (hr : rootPgno < 2 ^ 64) : deserializeTable (serializeTable table rootPgno) 0 =
      .ok (table, rootPgno) (serializeTable table rootPgno).length :=
  deserializeTable_ok ⟨hname, htbl, hcols, hcol⟩ hr

theorem deserializeTable_serializeTable_users :
    letI : Build := ⟨false⟩
    deserializeTable (serializeTable ⟨.table, [117], [117],
      [⟨.integer, [105, 100], true, false⟩, ⟨.text, [], false, true⟩]⟩ 3) 0 =
      .ok (⟨.table, [117], [117], [⟨.integer, [105, 100], true, false⟩, ⟨.text, [], false, true⟩]⟩, 3)
        29 := by
  let _ : Build := ⟨false⟩
  exact deserializeTable_serializeTable _ _ (by decide) (by decide) (by decide) (by decide)
    (by decide)

end Cpplite
