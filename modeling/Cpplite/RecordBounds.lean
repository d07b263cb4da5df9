import Cpplite.Record

/-!
Where `deserialize` indexes its buffer.

The readers of `encoding.cpp` check the buffer's end first. The null bitmap and the data of a
text are addressed as `bytes[offset]` without a check: an index at or past the end is
undefined, also where only the address is taken.
-/
namespace Cpplite

open Exec BigEndian Encoding Schema Record

namespace RecordManager

/-! ### `deserialize` with its indexing -/

/-- `&bytes[offset]` -/
def addressOf (bytes : List Byte) : ReadM Unit := do
  let offset ← get
  let _ ← index bytes offset

/-- The switch over the column's type. `read_str` takes the address of the text once more, after its
check. -/
def readValueIndexed (type : DataType) (bytes : List Byte) : ReadM Value :=
  match type with
  | .text => do
    let length ← readUint32 bytes
    addressOf bytes
    let v ← readStr bytes length
    return .text v
  | type => readValue type bytes

def columnValueIndexed (bytes : List Byte) (nullbits : Option Nat) (i : Nat) (type : DataType) :
    ReadM Value := do
  let null ← columnNull bytes nullbits i
  if null then return .null else readValueIndexed type bytes

def readValuesIndexed (bytes : List Byte) (table : Table) (nullbits : Option Nat) :
    Nat → Nat → ReadM (List Value)
  | 0, _ => throw .diverges
  | fuel + 1, i =>
    match table.columns[i]? with
    | none => return []
    | some col => do
      let value ← columnValueIndexed bytes nullbits i col.type
      let values ← readValuesIndexed bytes table nullbits fuel ((i + 1) % 2 ^ 16)
      return value :: values

def findNullbitsIndexed (bytes : List Byte) (table : Table) (flags : List Flag) :
    ReadM (Option Nat) :=
  flags.foldlM (fun _ flag => match flag with
    | .hasnull => do
      addressOf bytes
      let offset ← get
      set (offset + (table.columns.length + 7) / 8)
      return some offset) none

def deserializeIndexed (bytes : List Byte) (table : Table) : ReadM Row := do
  let header ← readHeader bytes
  let nullbits ← findNullbitsIndexed bytes table (extractFlags header.flags)
  let values ← readValuesIndexed bytes table nullbits (readFuel bytes) 0
  return ⟨values⟩

/-- An address taken and not used. -/
theorem addressOf_refines {α : Type} {bytes : List Byte} {x y : ReadM α} (h : Refines x y) :
    Refines (do addressOf bytes; x) y := by
  intro offset a t hrun
  obtain ⟨_, u, haddr, hx⟩ := bind_eq_ok hrun
  have hsame : u = offset := by
    rw [addressOf, bind_ok get_ok] at haddr
    obtain ⟨b, v, hi, hu⟩ := bind_eq_ok haddr
    unfold index at hi
    cases hb : bytes[offset]? with
    | none =>
      rw [hb] at hi
      cases hi
    | some b' =>
      rw [hb] at hi
      cases hi
      cases hu
      rfl
  subst hsame
  exact h _ a t hx

/-- A row that comes out of a run that indexes the buffer inside is the row of `deserialize`. -/
theorem deserializeIndexed_refines (bytes : List Byte) (table : Table) :
    Refines (deserializeIndexed bytes table) (deserialize bytes table) := by
  have hvalue : ∀ type, Refines (readValueIndexed type bytes) (readValue type bytes) := by
    intro type
    cases type with
    | text => exact Refines.after (fun _ => addressOf_refines .refl)
    | integer => exact .refl
    | boolean => exact .refl
  have hcolumn : ∀ nullbits i type,
      Refines (columnValueIndexed bytes nullbits i type) (columnValue bytes nullbits i type) := by
    intro nullbits i type
    exact Refines.after (fun _ => Refines.ite .refl (hvalue type))
  have hloop : ∀ nullbits fuel i,
      Refines (readValuesIndexed bytes table nullbits fuel i)
        (readValues bytes table nullbits fuel i) := by
    intro nullbits fuel
    induction fuel with
    | zero => exact fun _ => .refl
    | succ fuel ih =>
      intro i
      unfold readValuesIndexed readValues
      cases table.columns[i]? with
      | none => exact .refl
      | some col => exact (hcolumn nullbits i col.type).bind (fun _ => (ih _).bind (fun _ => .refl))
  refine Refines.after (fun header => Refines.bind ?_ (fun nullbits => (hloop _ _ _).bind (fun _ => .refl)))
  refine Refines.foldlM (fun _ flag => ?_) _ _
  cases flag with
  | hasnull => exact addressOf_refines .refl

/-! ### The layout of a record -/

/-- The bytes of a `RowHeader` in a record. -/
def headerSize : Nat := 18

/-- The header announces a bitmap, in its last two bytes. -/
def hasBitmap (bytes : List Byte) : Bool := ofBytes ((bytes.drop 16).take 2) &&& rowHasnull ≠ 0

/-- The bitmap marks column `i`. -/
def nullAt (bytes : List Byte) (i : Nat) : Bool :=
  hasBitmap bytes && bitAt (bytes.drop headerSize) i

/-- Where the values start. -/
def bodyStart (bytes : List Byte) (table : Table) : Nat :=
  headerSize + if hasBitmap bytes then (table.columns.length + 7) / 8 else 0

/-- Where a value of the type ends that starts at `start`, if the buffer goes that far. -/
def valueEnd (bytes : List Byte) (start : Nat) (type : DataType) : Option Nat :=
  let stop := match type with
    | .boolean => start + 1
    | .integer => start + 8
    | .text => start + 4 + ofBytes ((bytes.drop start).take 4)
  if stop ≤ bytes.length then some stop else none

/-- A column that is null takes no bytes. -/
def columnEnd (bytes : List Byte) (i start : Nat) (type : DataType) : Option Nat :=
  if nullAt bytes i then some start else valueEnd bytes start type

/-- Where the columns from number `i` on end. -/
def columnsEnd (bytes : List Byte) : List Column → Nat → Nat → Option Nat
  | [], _, start => some start
  | col :: cols, i, start =>
    (columnEnd bytes i start col.type).bind (columnsEnd bytes cols (i + 1))

/-- The buffer ends inside the bitmap it announces, and every bit that is still there is set. -/
def BitmapCut (bytes : List Byte) (table : Table) : Prop :=
  headerSize ≤ bytes.length ∧ hasBitmap bytes = true ∧
    (bytes.length = headerSize ∨ bytes.length < bodyStart bytes table ∧
      ∀ i < 8 * (bytes.length - headerSize), nullAt bytes i = true)

/-- The buffer ends right behind the length of a text, empty or not. -/
def TextAtEnd (bytes : List Byte) (cols : List Column) (i start : Nat) : Prop :=
  ∃ k col stop, cols[k]? = some col ∧ col.type = .text ∧ nullAt bytes (i + k) = false ∧
    columnsEnd bytes (cols.take k) i start = some stop ∧ stop + 4 = bytes.length

/-- `deserialize` gives a row with one value for each column or throws `out_of_range`, and indexes
the buffer nowhere else than inside. -/
def Safe (bytes : List Byte) (table : Table) : Prop :=
  Returns (deserializeIndexed bytes table) 0
    (fun row _ => row.values.length = table.columns.length) ∨
  Raises (deserializeIndexed bytes table) 0 (fun e _ => ∃ msg, e = .outOfRange msg)

section Layout

variable {bytes : List Byte} {cols : List Column} {col : Column} {i start stop : Nat}

theorem textAtEnd_cons : TextAtEnd bytes (col :: cols) i start ↔
    (nullAt bytes i = false ∧ col.type = .text ∧ start + 4 = bytes.length) ∨
      ∃ stop, columnEnd bytes i start col.type = some stop ∧ TextAtEnd bytes cols (i + 1) stop := by
  constructor
  · rintro ⟨k, col', stop, hk, ht, hn, hend, hlast⟩
    cases k with
    | zero =>
      cases hk
      cases hend
      exact .inl ⟨hn, ht, hlast⟩
    | succ k =>
      obtain ⟨mid, hmid, hrest⟩ := Option.bind_eq_some_iff.mp hend
      rw [← Nat.add_assoc, Nat.add_right_comm] at hn
      exact .inr ⟨mid, hmid, k, col', stop, hk, ht, hn, hrest, hlast⟩
  · rintro (⟨hn, ht, hlast⟩ | ⟨mid, hmid, k, col', stop, hk, ht, hn, hend, hlast⟩)
    · exact ⟨0, col, start, rfl, ht, hn, rfl, hlast⟩
    · refine ⟨k + 1, col', stop, hk, ht, ?_, Option.bind_eq_some_iff.mpr ⟨mid, hmid, hend⟩, hlast⟩
      rwa [← Nat.add_assoc, Nat.add_right_comm]

theorem valueEnd_ge {type : DataType} (h : valueEnd bytes start type = some stop) :
    start ≤ stop := by
  unfold valueEnd at h
  cases type <;> simp only [Option.ite_none_right_eq_some, Option.some.injEq] at h <;> omega

theorem columnsEnd_ge (h : columnsEnd bytes cols i start = some stop) : start ≤ stop := by
  induction cols generalizing i start with
  | nil =>
    cases h
    exact le_rfl
  | cons col cols ih =>
    obtain ⟨mid, hmid, hrest⟩ := Option.bind_eq_some_iff.mp h
    refine le_trans ?_ (ih hrest)
    unfold columnEnd at hmid
    split at hmid
    · cases hmid
      exact le_rfl
    · exact valueEnd_ge hmid

/-- Nothing starts behind the buffer's end. -/
theorem not_textAtEnd (h : bytes.length < start) : ¬ TextAtEnd bytes cols i start := by
  rintro ⟨k, col, stop, -, -, -, hend, hlast⟩
  have := columnsEnd_ge hend
  omega

end Layout

/-! ### Each read -/

section Reads

variable {bytes : List Byte} {offset stop : Nat} {type : DataType}

theorem addressOf_ok (h : offset < bytes.length) : addressOf bytes offset = .ok () offset := by
  rw [addressOf, bind_ok get_ok, bind_ok (index_ok (List.getElem?_eq_getElem h))]
  rfl

theorem addressOf_fails (h : bytes.length ≤ offset) :
    addressOf bytes offset = .error .undefined offset := by
  rw [addressOf, bind_ok get_ok]
  apply bind_error
  rw [index, List.getElem?_eq_none h]
  rfl

theorem readValueIndexed_ok (hend : valueEnd bytes offset type = some stop)
    (hlast : ¬ (type = .text ∧ offset + 4 = bytes.length)) :
    Returns (readValueIndexed type bytes) offset (fun _ o => o = stop) := by
  unfold valueEnd at hend
  cases type <;> simp only [Option.ite_none_right_eq_some, Option.some.injEq] at hend
  · obtain ⟨hle, rfl⟩ := hend
    exact Returns.bind_eq (readUint_ok hle) (returns_pure.mpr rfl)
  · obtain ⟨hle, rfl⟩ := hend
    exact Returns.bind_eq (readUint_ok hle) (returns_pure.mpr rfl)
  · obtain ⟨hle, rfl⟩ := hend
    have hin : offset + 4 < bytes.length := by
      simp only [true_and] at hlast
      omega
    exact Returns.bind_eq (readUint_ok (by omega)) (Returns.bind_eq (addressOf_ok hin)
      (Returns.bind_eq (readBytes_ok hle) (returns_pure.mpr rfl)))

theorem readValueIndexed_short (hend : valueEnd bytes offset type = none)
    (hlast : ¬ (type = .text ∧ offset + 4 = bytes.length)) :
    Raises (readValueIndexed type bytes) offset (fun e _ => ∃ msg, e = .outOfRange msg) := by
  unfold valueEnd at hend
  cases type <;> simp only [ite_eq_right_iff, reduceCtorEq, imp_false, not_le] at hend
  · exact Raises.bind_left ⟨_, _, readUint_short hend, _, rfl⟩
  · exact Raises.bind_left ⟨_, _, readUint_short hend, _, rfl⟩
  · by_cases hlen : offset + 4 ≤ bytes.length
    · have hin : offset + 4 < bytes.length := by
        simp only [true_and] at hlast
        omega
      exact Raises.bind_eq (readUint_ok hlen) (Raises.bind_eq (addressOf_ok hin)
        (Raises.bind_left ⟨_, _, readBytes_short hend, _, rfl⟩))
    · exact Raises.bind_left ⟨_, _, readUint_short (by omega), _, rfl⟩

theorem readValueIndexed_last (hlast : offset + 4 = bytes.length) :
    Raises (readValueIndexed .text bytes) offset (fun e _ => e = .undefined) :=
  Raises.bind_eq (readUint_ok hlast.le)
    (Raises.bind_left ⟨_, _, addressOf_fails hlast.ge, rfl⟩)

/-- A column whose bit lies inside the buffer. -/
theorem columnNull_bitmap {i o : Nat} (hb : hasBitmap bytes = true)
    (hi : headerSize + i / 8 < bytes.length) :
    columnNull bytes (some headerSize) i o = .ok (nullAt bytes i) o := by
  have hlen : i / 8 < (bytes.drop headerSize).length := by
    rw [List.length_drop]
    omega
  have hbits : ∀ j < (bytes.drop headerSize).length,
      bytes[headerSize + j]? = (bytes.drop headerSize)[j]? := by
    intro j _
    rw [List.getElem?_drop]
  rw [nullAt, hb, Bool.true_and]
  exact isNull_ok hbits hlen

theorem columnNull_cut {i o : Nat} (hi : bytes.length ≤ headerSize + i / 8) :
    columnNull bytes (some headerSize) i o = .error .undefined o := by
  change isNull bytes headerSize i o = _
  rw [isNull]
  apply bind_error
  rw [index, List.getElem?_eq_none hi]
  rfl

theorem readHeader_ok (h : headerSize ≤ bytes.length) :
    Returns (readHeader bytes) 0 (fun header o =>
      header.flags = ofBytes ((bytes.drop 16).take 2) ∧ o = headerSize) := by
  unfold headerSize at h
  refine Returns.bind_eq (readUint_ok (w := 8) (by omega)) ?_
  refine Returns.bind_eq (readUint_ok (w := 8) (by omega)) ?_
  exact Returns.bind_eq (readUint_ok (w := 2) (by omega)) (returns_pure.mpr ⟨rfl, rfl⟩)

theorem readHeader_short (h : bytes.length < headerSize) :
    Raises (readHeader bytes) 0 (fun e _ => ∃ msg, e = .outOfRange msg) := by
  unfold headerSize at h
  by_cases h8 : 8 ≤ bytes.length
  · refine Raises.bind_eq (readUint_ok (w := 8) (by omega)) ?_
    by_cases h16 : 16 ≤ bytes.length
    · refine Raises.bind_eq (readUint_ok (w := 8) (by omega)) ?_
      exact Raises.bind_left ⟨_, _, readUint_short (w := 2) (by omega), _, rfl⟩
    · exact Raises.bind_left ⟨_, _, readUint_short (w := 8) (by omega), _, rfl⟩
  · exact Raises.bind_left ⟨_, _, readUint_short (w := 8) (by omega), _, rfl⟩

end Reads

/-! ### The loop -/

/-- The program runs into an index outside of the buffer exactly where `bad` says so. -/
def Settles {α : Type} (bad : Prop) (x : ReadM α) (offset : Nat) (good : α → Prop) : Prop :=
  (bad → Raises x offset (fun e _ => e = .undefined)) ∧
  (¬ bad → Returns x offset (fun a _ => good a) ∨
    Raises x offset (fun e _ => ∃ msg, e = .outOfRange msg))

theorem Settles.iff {α : Type} {bad : Prop} {x : ReadM α} {offset : Nat} {good : α → Prop}
    (h : Settles bad x offset good) :
    (Returns x offset (fun a _ => good a) ∨ Raises x offset (fun e _ => ∃ msg, e = .outOfRange msg)) ↔
      ¬ bad := by
  refine ⟨?_, h.2⟩
  intro hends hbad
  obtain ⟨e, o, hrun, rfl⟩ := h.1 hbad
  rcases hends with ⟨a, o', hret, -⟩ | ⟨e', o', hraise, msg, rfl⟩
  · rw [hrun] at hret
    cases hret
  · rw [hrun] at hraise
    cases hraise

section Loop

variable {bytes : List Byte} {table : Table} {cols : List Column} {nullbits : Option Nat}
  {fuel i offset : Nat}

/-- A step of the loop that returns hands the question on. -/
theorem readValuesIndexed_step {col : Column} {stop : Nat} {bad : Prop}
    (hcol : table.columns[i]? = some col) (hi : i + 1 < 2 ^ 16)
    (hhead : Returns (columnValueIndexed bytes nullbits i col.type) offset (fun _ o => o = stop))
    (htail : Settles bad (readValuesIndexed bytes table nullbits fuel (i + 1)) stop
      (fun values => values.length = cols.length)) :
    Settles bad (readValuesIndexed bytes table nullbits (fuel + 1) i) offset
      (fun values => values.length = (col :: cols).length) := by
  obtain ⟨v, o, hrun, rfl⟩ := hhead
  have hmod : (i + 1) % 2 ^ 16 = i + 1 := Nat.mod_eq_of_lt hi
  unfold readValuesIndexed
  rw [hcol]
  dsimp only
  rw [hmod]
  refine ⟨fun hbad => ?_, fun hok => ?_⟩
  · exact Raises.bind_eq hrun (Raises.bind_left (htail.1 hbad))
  · rcases htail.2 hok with hret | hraise
    · refine .inl (Returns.bind_eq hrun (hret.bind ?_))
      intro values o' hlen
      exact returns_pure.mpr (congrArg (· + 1) hlen)
    · exact .inr (Raises.bind_eq hrun (Raises.bind_left hraise))

/-- A step that raises ends the loop. -/
theorem readValuesIndexed_stops {col : Column} {R : Error → Prop}
    (hcol : table.columns[i]? = some col)
    (hhead : Raises (columnValueIndexed bytes nullbits i col.type) offset (fun e _ => R e)) :
    Raises (readValuesIndexed bytes table nullbits (fuel + 1) i) offset (fun e _ => R e) := by
  unfold readValuesIndexed
  rw [hcol]
  exact Raises.bind_left hhead

/-- The loop with no bitmap or with all of it: only a text at the end goes wrong. -/
theorem readValuesIndexed_settles (hcols : ∀ j, table.columns[i + j]? = cols[j]?)
    (hmax : i + cols.length ≤ 65535) (hfuel : cols.length < fuel)
    (hnull : ∀ j < cols.length, ∀ o,
      columnNull bytes nullbits (i + j) o = .ok (nullAt bytes (i + j)) o) :
    Settles (TextAtEnd bytes cols i offset) (readValuesIndexed bytes table nullbits fuel i) offset
      (fun values => values.length = cols.length) := by
  induction cols generalizing i offset fuel with
  | nil =>
    obtain ⟨fuel, rfl⟩ := Nat.exists_eq_succ_of_ne_zero (Nat.ne_of_gt hfuel)
    have hnone : table.columns[i]? = none := by simpa using hcols 0
    refine ⟨?_, fun _ => .inl ?_⟩
    · rintro ⟨k, col, stop, hk, -⟩
      cases hk
    · unfold readValuesIndexed
      rw [hnone]
      exact returns_pure.mpr rfl
  | cons col cols ih =>
    obtain ⟨fuel, rfl⟩ := Nat.exists_eq_succ_of_ne_zero (Nat.ne_of_gt (Nat.zero_lt_of_lt hfuel))
    simp only [List.length_cons] at hmax hfuel
    have hcol : table.columns[i]? = some col := by simpa using hcols 0
    have hhere : columnNull bytes nullbits i offset = .ok (nullAt bytes i) offset :=
      hnull 0 (by simp) offset
    have hrest : ∀ stop, Settles (TextAtEnd bytes cols (i + 1) stop)
        (readValuesIndexed bytes table nullbits fuel (i + 1)) stop
        (fun values => values.length = cols.length) := by
      intro stop
      refine ih ?_ (by omega) (by omega) ?_
      · intro j
        have h := hcols (j + 1)
        rwa [List.getElem?_cons_succ, ← Nat.add_assoc, Nat.add_right_comm] at h
      · intro j hj o
        rw [Nat.add_right_comm, Nat.add_assoc]
        exact hnull (j + 1) (by simpa using hj) o
    rw [textAtEnd_cons]
    cases hn : nullAt bytes i with
    | true =>
      rw [hn] at hhere
      have hhead : Returns (columnValueIndexed bytes nullbits i col.type) offset
          (fun _ o => o = offset) :=
        Returns.bind_eq hhere (returns_pure.mpr rfl)
      simp only [hn, columnEnd, Bool.true_eq_false, false_and, false_or, if_true,
        Option.some.injEq, exists_eq_left']
      exact readValuesIndexed_step hcol (by omega) hhead (hrest offset)
    | false =>
      rw [hn] at hhere
      simp only [hn, columnEnd, true_and, Bool.false_eq_true, if_false]
      by_cases hlast : col.type = .text ∧ offset + 4 = bytes.length
      · refine ⟨fun _ => ?_, fun hno => absurd (.inl hlast) hno⟩
        refine readValuesIndexed_stops hcol (Raises.bind_eq hhere ?_)
        rw [hlast.1]
        exact readValueIndexed_last hlast.2
      simp only [hlast, false_or]
      cases hend : valueEnd bytes offset col.type with
      | none =>
        refine ⟨?_, fun _ => .inr ?_⟩
        · rintro ⟨stop, hstop, -⟩
          cases hstop
        · refine readValuesIndexed_stops (R := fun e => ∃ msg, e = .outOfRange msg) hcol ?_
          exact Raises.bind_eq hhere (readValueIndexed_short hend hlast)
      | some stop =>
        simp only [Option.some.injEq, exists_eq_left']
        refine readValuesIndexed_step hcol (by omega) ?_ (hrest stop)
        exact Returns.bind_eq hhere (readValueIndexed_ok hend hlast)

/-- From column `i` on, every bit that is still there is set. -/
def NullsFrom (bytes : List Byte) (i : Nat) : Prop :=
  ∀ j, i ≤ j → j < 8 * (bytes.length - headerSize) → nullAt bytes j = true

/-- The loop with a part of the bitmap: the values would start behind the buffer's end, so the first
column that is not null stops it, and only nulls lead it out of the buffer. -/
theorem readValuesIndexed_cut (hb : hasBitmap bytes = true) (hlen : headerSize ≤ bytes.length)
    (hoff : bytes.length < offset) (hi : i ≤ 8 * (bytes.length - headerSize))
    (hcols : 8 * (bytes.length - headerSize) < table.columns.length)
    (hmax : table.columns.length ≤ 65535) (hfuel : 8 * (bytes.length - headerSize) - i < fuel) :
    Settles (NullsFrom bytes i) (readValuesIndexed bytes table (some headerSize) fuel i) offset
      (fun values => values.length = table.columns.length - i) := by
  induction hd : 8 * (bytes.length - headerSize) - i generalizing i fuel with
  | zero =>
    obtain ⟨fuel, rfl⟩ := Nat.exists_eq_succ_of_ne_zero (Nat.ne_of_gt (Nat.zero_lt_of_lt hfuel))
    have hcol := List.getElem?_eq_getElem (show i < table.columns.length by omega)
    refine ⟨fun _ => ?_, fun hno => absurd (fun j _ _ => by omega) hno⟩
    refine readValuesIndexed_stops hcol (Raises.bind_left ⟨_, _, columnNull_cut (by omega), rfl⟩)
  | succ d ih =>
    obtain ⟨fuel, rfl⟩ := Nat.exists_eq_succ_of_ne_zero (Nat.ne_of_gt (Nat.zero_lt_of_lt hfuel))
    have hcol := List.getElem?_eq_getElem (show i < table.columns.length by omega)
    have hhere : columnNull bytes (some headerSize) i offset = .ok (nullAt bytes i) offset :=
      columnNull_bitmap hb (by omega)
    cases hn : nullAt bytes i with
    | true =>
      rw [hn] at hhere
      have hiff : NullsFrom bytes i ↔ NullsFrom bytes (i + 1) := by
        refine ⟨fun h j hj => h j (by omega), fun h j hj hlt => ?_⟩
        by_cases hji : j = i
        · rw [hji, hn]
        · exact h j (by omega) hlt
      have hrest : table.columns.drop i =
          table.columns.get ⟨i, by omega⟩ :: table.columns.drop (i + 1) :=
        List.drop_eq_getElem_cons (by omega)
      have htail : Settles (NullsFrom bytes (i + 1))
          (readValuesIndexed bytes table (some headerSize) fuel (i + 1)) offset
          (fun values => values.length = (table.columns.drop (i + 1)).length) := by
        rw [List.length_drop]
        exact ih (by omega) (by omega) (by omega)
      have hstep := readValuesIndexed_step hcol (by omega)
        (Returns.bind_eq hhere (returns_pure.mpr rfl)) htail
      rw [hiff]
      have hlength : (table.columns.get ⟨i, by omega⟩ :: table.columns.drop (i + 1)).length =
          table.columns.length - i := by
        rw [← hrest, List.length_drop]
      rw [← hlength]
      exact hstep
    | false =>
      rw [hn] at hhere
      refine ⟨fun h => ?_, fun _ => .inr ?_⟩
      · rw [h i le_rfl (by omega)] at hn
        cases hn
      · refine readValuesIndexed_stops (R := fun e => ∃ msg, e = .outOfRange msg) hcol ?_
        refine Raises.bind_eq hhere (readValueIndexed_short ?_ (by omega))
        unfold valueEnd
        cases table.columns[i].type <;> exact if_neg (by dsimp only; omega)

end Loop

/-! ### The whole record -/

section Whole

variable {bytes : List Byte} {table : Table}

theorem safe_of_short (h : bytes.length < headerSize) : Safe bytes table :=
  .inr (Raises.bind_left (readHeader_short h))

/-- Behind the header, the loop decides. -/
theorem settles_of_loop {bad : Prop} (h : headerSize ≤ bytes.length) {nullbits : Option Nat}
    (hfind : findNullbitsIndexed bytes table
        (extractFlags (ofBytes ((bytes.drop 16).take 2))) headerSize =
      .ok nullbits (bodyStart bytes table))
    (hloop : Settles bad (readValuesIndexed bytes table nullbits (readFuel bytes) 0)
      (bodyStart bytes table) (fun values => values.length = table.columns.length)) :
    Settles bad (deserializeIndexed bytes table) 0
      (fun row => row.values.length = table.columns.length) := by
  obtain ⟨header, o, hrun, hflags, rfl⟩ := readHeader_ok h
  rw [← hflags] at hfind
  refine ⟨fun hbad => ?_, fun hok => ?_⟩
  · exact Raises.bind_eq hrun (Raises.bind_eq hfind (Raises.bind_left (hloop.1 hbad)))
  · rcases hloop.2 hok with hret | hraise
    · exact .inl (Returns.bind_eq hrun (Returns.bind_eq hfind (hret.bind
        (fun values o hlen => returns_pure.mpr hlen))))
    · exact .inr (Raises.bind_eq hrun (Raises.bind_eq hfind (Raises.bind_left hraise)))

theorem extractFlags_bitmap (hb : hasBitmap bytes = true) :
    extractFlags (ofBytes ((bytes.drop 16).take 2)) = [.hasnull] := by
  rw [extractFlags, if_pos (by simpa [hasBitmap] using hb)]

theorem extractFlags_plain (hb : hasBitmap bytes = false) :
    extractFlags (ofBytes ((bytes.drop 16).take 2)) = [] := by
  rw [extractFlags, if_neg (by simpa [hasBitmap] using hb)]

theorem findNullbits_bitmap (hb : hasBitmap bytes = true) (h : headerSize < bytes.length) :
    findNullbitsIndexed bytes table (extractFlags (ofBytes ((bytes.drop 16).take 2))) headerSize =
      .ok (some headerSize) (bodyStart bytes table) := by
  rw [extractFlags_bitmap hb, bodyStart, if_pos hb, findNullbitsIndexed, List.foldlM_cons]
  exact bind_ok ((bind_ok (addressOf_ok h)).trans rfl)

/-- A record that is all header, with a bitmap announced. -/
theorem settles_bare (hb : hasBitmap bytes = true) (h : bytes.length = headerSize) :
    Settles True (deserializeIndexed bytes table) 0
      (fun row => row.values.length = table.columns.length) := by
  obtain ⟨header, o, hrun, hflags, rfl⟩ := readHeader_ok h.ge
  refine ⟨fun _ => ?_, fun hno => absurd trivial hno⟩
  refine Raises.bind_eq hrun (Raises.bind_left ?_)
  rw [hflags, extractFlags_bitmap hb, findNullbitsIndexed, List.foldlM_cons]
  exact Raises.bind_left (Raises.bind_left ⟨_, _, addressOf_fails h.le, rfl⟩)

/-- `deserialize` stays inside its buffer exactly when the buffer does not end inside a bitmap of
nulls and not right behind the length of a text. -/
theorem deserialize_safe_iff (bytes : List Byte) (table : Table)
    (hcols : table.columns.length ≤ 65535) :
    Safe bytes table ↔ ¬ BitmapCut bytes table ∧
      ¬ TextAtEnd bytes table.columns 0 (bodyStart bytes table) := by
  by_cases hlen : headerSize ≤ bytes.length
  · have hfuel : table.columns.length < readFuel bytes := by
      unfold readFuel
      omega
    cases hb : hasBitmap bytes with
    | false =>
      have hcut : ¬ BitmapCut bytes table := fun h => by simp [h.2.1] at hb
      have hfind : findNullbitsIndexed bytes table
          (extractFlags (ofBytes ((bytes.drop 16).take 2))) headerSize =
          .ok none (bodyStart bytes table) := by
        rw [extractFlags_plain hb, bodyStart, hb]
        rfl
      have hloop : Settles _ (readValuesIndexed bytes table none (readFuel bytes) 0)
          (bodyStart bytes table) (fun values => values.length = table.columns.length) :=
        readValuesIndexed_settles (fun j => by rw [Nat.zero_add]) (by omega) hfuel
          (fun j _ o => by rw [nullAt, hb]; rfl)
      simp only [hcut, not_false_eq_true, true_and]
      exact (settles_of_loop hlen hfind hloop).iff
    | true =>
      by_cases hbare : bytes.length = headerSize
      · have hcut : BitmapCut bytes table := ⟨hlen, hb, .inl hbare⟩
        simp only [hcut, not_true_eq_false, false_and]
        exact (settles_bare hb hbare).iff.trans (by simp)
      have hin : headerSize < bytes.length := by omega
      have hstart : bodyStart bytes table = headerSize + (table.columns.length + 7) / 8 := by
        rw [bodyStart, if_pos hb]
      by_cases hall : bodyStart bytes table ≤ bytes.length
      · have hcut : ¬ BitmapCut bytes table := by
          rintro ⟨-, -, h | ⟨h, -⟩⟩ <;> omega
        have hloop : Settles _ (readValuesIndexed bytes table (some headerSize) (readFuel bytes) 0)
            (bodyStart bytes table) (fun values => values.length = table.columns.length) :=
          readValuesIndexed_settles (fun j => by rw [Nat.zero_add]) (by omega) hfuel
            (fun j hj o => columnNull_bitmap hb (by omega))
        simp only [hcut, not_false_eq_true, true_and]
        exact (settles_of_loop hlen (findNullbits_bitmap hb hin) hloop).iff
      · have htext : ¬ TextAtEnd bytes table.columns 0 (bodyStart bytes table) :=
          not_textAtEnd (by omega)
        have hiff : NullsFrom bytes 0 ↔ BitmapCut bytes table := by
          refine ⟨fun h => ⟨hlen, hb, .inr ⟨by omega, fun i hi => h i (Nat.zero_le _) hi⟩⟩, ?_⟩
          rintro ⟨-, -, h | ⟨-, h⟩⟩
          · exact absurd h hbare
          · exact fun i _ hi => h i hi
        have hloop : Settles (NullsFrom bytes 0)
            (readValuesIndexed bytes table (some headerSize) (readFuel bytes) 0)
            (bodyStart bytes table) (fun values => values.length = table.columns.length - 0) :=
          readValuesIndexed_cut hb hlen (by omega) (Nat.zero_le _) (by omega) hcols (by omega)
        rw [hiff, Nat.sub_zero] at hloop
        simp only [htext, not_false_eq_true, and_true]
        exact (settles_of_loop hlen (findNullbits_bitmap hb hin) hloop).iff
  · have hcut : ¬ BitmapCut bytes table := fun h => hlen h.1
    have htext : ¬ TextAtEnd bytes table.columns 0 (bodyStart bytes table) := by
      refine not_textAtEnd ?_
      rw [bodyStart]
      omega
    simp only [hcut, htext, not_false_eq_true, and_true, iff_true]
    exact safe_of_short (by omega)

end Whole

theorem deserialize_safe_pair : Safe (headerBytes 1 ++ [2] ++ toBytes 8 5) pairTable := by
  refine (deserialize_safe_iff _ _ (by decide)).mpr ⟨?_, ?_⟩
  · rintro ⟨-, -, h | ⟨h, -⟩⟩ <;> revert h <;> decide
  · rintro ⟨k, col, stop, hk, ht, hn, -⟩
    rcases k with _ | _ | k
    · cases hk
      cases ht
    · revert hn
      decide
    · cases hk

/-- A record that ends with its header and announces a bitmap: the bitmap's first byte is read behind
the end. -/
theorem deserialize_unsafe : ¬ ∀ (bytes : List Byte) (table : Table),
    table.columns.length ≤ 65535 → Safe bytes table := by
  intro h
  have hbare : Settles True (deserializeIndexed (headerBytes 1) pairTable) 0
      (fun row => row.values.length = pairTable.columns.length) :=
    settles_bare (by decide) (by decide)
  exact hbare.iff.mp (h (headerBytes 1) pairTable (by decide)) trivial

end RecordManager

end Cpplite
