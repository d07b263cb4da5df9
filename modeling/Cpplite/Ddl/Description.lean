import Cpplite.Ddl.Passes
import Cpplite.Catalog.Runs

/-!
What a DDL statement says, and what the passes make of it. The flags of a column come out as
declared unless it is `NOT NULL`, or not a primary key and its flag was left over in memory.
-/
namespace Cpplite

open Exec Encoding Schema

/-! ### Case -/

def tolower (c : Byte) : Byte := if 65 ≤ c ∧ c ≤ 90 then c + 32 else c

/-- Two texts that differ in case only. -/
def SameText (a b : Str) : Prop := a.map tolower = b.map tolower

theorem tolower_toupper (c : Byte) : tolower (toupper c) = tolower c := by
  unfold tolower toupper
  grind

theorem toupper_tolower (c : Byte) : toupper (tolower c) = toupper c := by
  unfold tolower toupper
  grind

theorem sameText_iff {a b : Str} : SameText a b ↔ a.map toupper = b.map toupper := by
  have hlow : ∀ s : Str, (s.map toupper).map tolower = s.map tolower := by
    intro s
    rw [List.map_map]
    exact List.map_congr_left (fun c _ => tolower_toupper c)
  have hup : ∀ s : Str, (s.map tolower).map toupper = s.map toupper := by
    intro s
    rw [List.map_map]
    exact List.map_congr_left (fun c _ => toupper_tolower c)
  constructor
  · intro h
    rw [← hup a, ← hup b, h]
  · intro h
    rw [SameText, ← hlow a, ← hlow b, h]

/-- The type that `TYPE_MAP` has under that name, in whatever case. -/
def TypeNamed (text : Str) (type : DataType) : Prop :=
  ∃ entry ∈ typeMap.entries, SameText text entry.1 ∧ entry.2 = type

theorem toupper_typeMap : ∀ entry ∈ typeMap.entries, entry.1.map toupper = entry.1 := by
  decide

theorem lookup_typeMap {text : Str} {type : DataType} :
    typeMap.lookup (text.map toupper) = some type ↔ TypeNamed text type := by
  rw [← Option.mem_def, AList.mem_lookup_iff]
  constructor
  · intro hm
    refine ⟨_, hm, sameText_iff.mpr ?_, rfl⟩
    exact (toupper_typeMap _ hm).symm
  · rintro ⟨⟨name, type'⟩, hm, hsame, rfl⟩
    rw [sameText_iff, toupper_typeMap _ hm] at hsame
    rw [hsame]
    exact hm

/-! ### What is declared -/

/-- The column is as it was declared. -/
structure Declares (columnDef : ColumnDefContext) (col : Column) : Prop where
  name : col.name = columnDef.columnName
  type : ∃ text, columnDef.typeName = some text ∧ TypeNamed text col.type
  primaryKey : col.isPrimaryKey = true ↔ .primaryKey ∈ columnDef.columnConstraint
  notNull : .notNull ∈ columnDef.columnConstraint → col.isNullable = false
  null : .null ∈ columnDef.columnConstraint → col.isNullable = true

/-- Every column has a type that `TYPE_MAP` knows. -/
def Known (columnDefs : List ColumnDefContext) : Prop :=
  ∀ columnDef ∈ columnDefs, ∃ text type, columnDef.typeName = some text ∧ TypeNamed text type

/-- The flags that the passes leave are the declared ones. -/
def Flagged (raw : Uninit) (columnDef : ColumnDefContext) : Prop :=
  .notNull ∉ columnDef.columnConstraint ∧
    (.primaryKey ∈ columnDef.columnConstraint ∨ raw.isPrimaryKey = false)

section Passes

variable {memory : Nat → Uninit} {columnDef : ColumnDefContext} {columnDefs : List ColumnDefContext}
  {raw : Uninit} {text : Str} {type : DataType}

theorem foldl_visitConstraint (constraints : List ColumnConstraintContext) (astCol : Ast.ColumnDef) :
    constraints.foldl ASTBuilder.visitConstraint astCol = { astCol with
      isPrimaryKey := astCol.isPrimaryKey || constraints.any ColumnConstraintContext.primary?
      isNullable := astCol.isNullable || constraints.any ColumnConstraintContext.null? } := by
  induction constraints generalizing astCol with
  | nil => simp
  | cons constraint constraints ih =>
    rw [List.foldl_cons, ih]
    cases constraint <;> simp [ASTBuilder.visitConstraint, ColumnConstraintContext.primary?,
      ColumnConstraintContext.null?]

theorem any_primary {constraints : List ColumnConstraintContext} :
    constraints.any ColumnConstraintContext.primary? = true ↔ .primaryKey ∈ constraints := by
  rw [List.any_eq_true]
  constructor
  · rintro ⟨c, hc, hp⟩
    cases c <;> first | exact hc | cases hp
  · exact fun h => ⟨_, h, rfl⟩

/-- What `ASTBuilder` makes of a column with that type text. -/
def astColumn (raw : Uninit) (columnDef : ColumnDefContext) (text : Str) : Ast.ColumnDef where
  name := columnDef.columnName
  datatypeStr := text
  isPrimaryKey := raw.isPrimaryKey || columnDef.columnConstraint.any ColumnConstraintContext.primary?
  isNullable := raw.isNullable || columnDef.columnConstraint.any ColumnConstraintContext.null?

/-- What `Binder` makes of that column when the type is known. -/
def columnOf (raw : Uninit) (columnDef : ColumnDefContext) (type : DataType) : Column where
  type := type
  name := columnDef.columnName
  isPrimaryKey := raw.isPrimaryKey || columnDef.columnConstraint.any ColumnConstraintContext.primary?
  isNullable := raw.isNullable || columnDef.columnConstraint.any ColumnConstraintContext.null?

theorem visitColumnDefs_cons {astCols : List Ast.ColumnDef} (h : columnDef.typeName = some text)
    (hrest : ASTBuilder.visitColumnDefs (fun i => memory (i + 1)) columnDefs = .ok astCols) :
    ASTBuilder.visitColumnDefs memory (columnDef :: columnDefs) =
      .ok (astColumn (memory 0) columnDef text :: astCols) := by
  have hfirst : ASTBuilder.visitColumnDef (memory 0) columnDef =
      .ok (astColumn (memory 0) columnDef text) := by
    simp only [ASTBuilder.visitColumnDef, h, foldl_visitConstraint, astColumn]
  rw [ASTBuilder.visitColumnDefs, hfirst, hrest]
  rfl

theorem bindColumn_known (h : TypeNamed text type) :
    Binder.bindColumn (astColumn raw columnDef text) = .ok (columnOf raw columnDef type) := by
  simp only [Binder.bindColumn, astColumn, lookup_typeMap.mpr h, columnOf]

theorem bindColumn_unknown (h : ¬ ∃ type, TypeNamed text type) :
    Binder.bindColumn (astColumn raw columnDef text) =
      .error (.runtimeError ("[Binder:create_table]: Unknown type " ++ strText text)) := by
  have hnone : typeMap.lookup (text.map toupper) = none := by
    by_contra hne
    obtain ⟨type, htype⟩ := Option.ne_none_iff_exists'.mp hne
    exact h ⟨type, lookup_typeMap.mp htype⟩
  simp only [Binder.bindColumn, astColumn, hnone]

/-- `NULL_()` is there in `NOT NULL` too, so such a column is entered as nullable. -/
theorem declares_columnOf (h : columnDef.typeName = some text) (ht : TypeNamed text type) :
    Declares columnDef (columnOf raw columnDef type) ↔ Flagged raw columnDef := by
  have hnull : ∀ c, c.null? = true → c ∈ columnDef.columnConstraint →
      (columnOf raw columnDef type).isNullable = true := by
    intro c hc hm
    have hany : columnDef.columnConstraint.any ColumnConstraintContext.null? = true :=
      List.any_eq_true.mpr ⟨c, hm, hc⟩
    simp [columnOf, hany]
  constructor
  · intro hd
    constructor
    · intro hm
      have htrue := hnull .notNull rfl hm
      rw [hd.notNull hm] at htrue
      cases htrue
    · by_cases hp : .primaryKey ∈ columnDef.columnConstraint
      · exact .inl hp
      · right
        have hflag : (columnOf raw columnDef type).isPrimaryKey ≠ true := fun h => hp (hd.primaryKey.mp h)
        simp only [columnOf, ne_eq, Bool.or_eq_true, not_or, Bool.not_eq_true] at hflag
        exact hflag.1
  · rintro ⟨hnot, hp⟩
    refine ⟨rfl, ⟨text, h, ht⟩, ?_, fun hm => absurd hm hnot, hnull .null rfl⟩
    simp only [columnOf, Bool.or_eq_true, any_primary]
    constructor
    · rintro (hr | hm)
      · refine hp.resolve_right ?_
        rw [hr]
        decide
      · exact hm
    · exact .inr

theorem visitColumnDefs_typed (htyped : ∀ columnDef ∈ columnDefs, columnDef.typeName.isSome) :
    ∃ astCols, ASTBuilder.visitColumnDefs memory columnDefs = .ok astCols := by
  induction columnDefs generalizing memory with
  | nil => exact ⟨[], rfl⟩
  | cons columnDef rest ih =>
    obtain ⟨text, htext⟩ := Option.isSome_iff_exists.mp (htyped columnDef List.mem_cons_self)
    obtain ⟨astCols, hvisit⟩ := @ih (fun i => memory (i + 1))
      (fun c hc => htyped c (List.mem_cons_of_mem _ hc))
    exact ⟨_, visitColumnDefs_cons htext hvisit⟩

/-- Known types: both passes go through, column by column. -/
theorem passes_known (h : Known columnDefs) : ∃ astCols columns,
    ASTBuilder.visitColumnDefs memory columnDefs = .ok astCols ∧
    astCols.mapM Binder.bindColumn = .ok columns ∧
    columns.map Column.name = columnDefs.map ColumnDefContext.columnName ∧
    (List.Forall₂ Declares columnDefs columns ↔
      ∀ i columnDef, columnDefs[i]? = some columnDef → Flagged (memory i) columnDef) := by
  induction columnDefs generalizing memory with
  | nil => exact ⟨[], [], rfl, rfl, rfl, by simp⟩
  | cons columnDef rest ih =>
    obtain ⟨text, type, htext, htype⟩ := h columnDef List.mem_cons_self
    obtain ⟨astCols, columns, hvisit, hbind, hnames, hiff⟩ :=
      @ih (fun i => memory (i + 1)) (fun c hc => h c (List.mem_cons_of_mem _ hc))
    refine ⟨_, columnOf (memory 0) columnDef type :: columns, visitColumnDefs_cons htext hvisit,
      ?_, ?_, ?_⟩
    · rw [List.mapM_cons, bindColumn_known htype, hbind]
      rfl
    · rw [List.map_cons, List.map_cons, hnames]
      rfl
    · rw [List.forall₂_cons, declares_columnOf htext htype, hiff]
      constructor
      · rintro ⟨hfirst, hrest⟩ (_ | i) c hc
        · cases hc
          exact hfirst
        · exact hrest i c hc
      · intro hall
        exact ⟨hall 0 columnDef rfl, fun i c hc => hall (i + 1) c hc⟩

/-- An unknown type: the tree is built, and the binder raises and says which it was. -/
theorem passes_unknown (htyped : ∀ columnDef ∈ columnDefs, columnDef.typeName.isSome)
    (h : ¬ Known columnDefs) : ∃ astCols text, (¬ ∃ type, TypeNamed text type) ∧
    (∃ columnDef ∈ columnDefs, columnDef.typeName = some text) ∧
    ASTBuilder.visitColumnDefs memory columnDefs = .ok astCols ∧
    astCols.mapM Binder.bindColumn =
      .error (.runtimeError ("[Binder:create_table]: Unknown type " ++ strText text)) := by
  induction columnDefs generalizing memory with
  | nil => exact absurd (fun c hc => absurd hc List.not_mem_nil) h
  | cons columnDef rest ih =>
    obtain ⟨text, htext⟩ := Option.isSome_iff_exists.mp (htyped columnDef List.mem_cons_self)
    have hrest : ∀ c ∈ rest, c.typeName.isSome := fun c hc => htyped c (List.mem_cons_of_mem _ hc)
    by_cases htype : ∃ type, TypeNamed text type
    · obtain ⟨type, htype⟩ := htype
      have hunknown : ¬ Known rest := by
        intro hk
        refine h (List.forall_mem_cons.mpr ⟨⟨text, type, htext, htype⟩, hk⟩)
      obtain ⟨astCols, text', htext', ⟨c, hc, hct⟩, hvisit, hbind⟩ :=
        @ih (fun i => memory (i + 1)) hrest hunknown
      refine ⟨_, text', htext', ⟨c, List.mem_cons_of_mem _ hc, hct⟩,
        visitColumnDefs_cons htext hvisit, ?_⟩
      rw [List.mapM_cons, bindColumn_known htype, hbind]
      rfl
    · -- the tree is built to its end before the binder looks at the first column
      obtain ⟨astCols, hvisit⟩ : ∃ astCols,
          ASTBuilder.visitColumnDefs (fun i => memory (i + 1)) rest = .ok astCols :=
        visitColumnDefs_typed hrest
      refine ⟨_, text, htype, ⟨columnDef, List.mem_cons_self, htext⟩,
        visitColumnDefs_cons htext hvisit, ?_⟩
      rw [List.mapM_cons, bindColumn_unknown htype]
      rfl

end Passes

end Cpplite
