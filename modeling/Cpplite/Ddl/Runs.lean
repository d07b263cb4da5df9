import Cpplite.Ddl.Description

/-!
DDL over whole runs. The catalog is the one that the statements describe exactly as long as no
column is `NOT NULL`, no flag is left over from memory, and what is not a table and is dropped
has no table's name.
-/
namespace Cpplite

open Exec Encoding Schema HeightTree Sweep

namespace CatalogManager

/-! ### A table that no other depends on -/

section Alone

variable [Build] {s : CatalogState} {rows : Rows} {name : Str} {table : Table} {k : DefaultPagerKey}
  {n : Nat} {t : BTree n} {fuel : Nat}

/-- The end of `drop_table`. -/
def dropDependents (fuel : Nat) (name : Str) : CatalogM Unit := do
  let self ← getManager
  match self.tableDependencies.lookup name with
  | none => pure ()
  | some dependencies => dependencies.forM (fun dependent => dropFrom fuel dependent)

theorem dropFrom_absent (h : s.self.tables.lookup name = none) :
    dropFrom (fuel + 1) name s = .ok () s := by
  have hself : getManager s = .ok s.self s := rfl
  rw [dropFrom, bind_ok hself, h]
  rfl

theorem dropTable_absent (h : s.self.tables.lookup name = none) :
    dropTable name s = .ok () s := by
  have hself : getManager s = .ok s.self s := rfl
  rw [dropTable, bind_ok hself, dropFrom_absent h]

theorem dropDependents_alone (hdeps : ∀ child ∈ s.self.dependents name, child = name)
    (h : s.self.tables.lookup name = none) : dropDependents (fuel + 1) name s = .ok () s := by
  have hall : ∀ as : List Str, (∀ child ∈ as, child = name) →
      as.forM (fun dependent => dropFrom (fuel + 1) dependent) s = .ok () s := by
    intro as
    induction as with
    | nil => exact fun _ => rfl
    | cons a as ih =>
      intro has
      obtain rfl := has a List.mem_cons_self
      have hrest := ih (fun child hc => has child (List.mem_cons_of_mem _ hc))
      exact (bind_ok (dropFrom_absent h)).trans hrest
  have hself : getManager s = .ok s.self s := rfl
  rw [dropDependents, bind_ok hself]
  cases hl : s.self.tableDependencies.lookup name with
  | none => rfl
  | some as =>
    refine hall as ?_
    rw [dependents, StdMap.at, hl] at hdeps
    exact hdeps

/-- `drop_table` up to the removal of the row. -/
theorem dropTable_reaches (hg : s.pager.disk.Good) (hT : Planted s.pager.disk s.self.schemaCursor t)
    (htab : s.self.tables.lookup name = some table) (hname : table.name = name)
    (ho : s.self.tableOids.lookup name = some k) (hk : ∃ v ∈ entries t.spine, v.key = k) :
    ∃ pager cur, dropTable name s = (do
        onSchemaCursor remove
        dropDependents s.self.tables.keys.length name) ⟨pager, s.self.unrecord name cur⟩ ∧
      pager.disk = s.pager.disk ∧ cur.config = s.self.schemaCursor.config ∧
      Planted pager.disk cur t ∧ StandsOn cur t k := by
  obtain ⟨pager, self⟩ := s
  subst hname
  have hself : getManager ⟨pager, self⟩ = .ok self ⟨pager, self⟩ := rfl
  have hat : self.tableOids.at table.name 0 = k := by
    rw [StdMap.at, ho]
    rfl
  obtain ⟨found, _, hmove, pager₁, cur₁, rfl, hd, c, l, i, harr⟩ :=
    runs_onSchemaCursor (s := ⟨pager, { self with tables := self.tables.erase table.name }⟩)
      (moveToKey_runs (k := k) hg hT)
  obtain rfl := (harr.found_iff hT).mpr hk
  have hT₁ : Planted pager₁.disk cur₁ t := by
    rw [hd, harr.cursor]
    exact hT.setCursor _
  refine ⟨pager₁, cur₁, ?_, hd, by rw [harr.cursor], hT₁, harr.standsOn hT⟩
  rw [dropTable, bind_ok hself, dropFrom, bind_ok hself, htab]
  have hmod : ∀ (f : CatalogManager → CatalogManager) (u : CatalogState),
      modifyManager f u = .ok () ⟨u.pager, f u.self⟩ := fun _ _ => rfl
  simp only [bind_ok (hmod _ _), hat, bind_ok hmove]
  rfl

/-- The row with this oid can be removed: no assertion on the way fails. -/
def Removable (s : CatalogState) (k : DefaultPagerKey) : Prop :=
  Build.ndebug = true ∨ ∀ (n : Nat) (t : BTree n), WellFormed s.pager.disk s.self.schemaCursor t →
    ¬ MinimalRight s.self.schemaCursor.config k t

theorem Mirrored.dropTable_returns_iff (h : Mirrored AnyTree s rows)
    (hdeps : ∀ child ∈ s.self.dependents name, child = name)
    (ho : s.self.tableOids.lookup name = some k) :
    Returns (CatalogManager.dropTable name) s (fun _ _ => True) ↔ Removable s k := by
  obtain ⟨table, htab⟩ := Option.isSome_iff_exists.mp ((h.names name).mp (by rw [ho]; rfl))
  have hname := h.named name table htab
  obtain ⟨n, t, hb⟩ := h.tree
  have hg := hb.good
  constructor
  · intro hret
    by_contra hnot
    simp only [Removable, not_or, not_forall, Bool.not_eq_true, not_not] at hnot
    obtain ⟨hdebug, n', t', hw, hmin⟩ := hnot
    obtain ⟨pager, cur, heq, hd, hcfg, hT, c, p, lo, v, hi, rfl, hcur, rfl⟩ :=
      dropTable_reaches hg (wellFormed_iff.mp hw) htab hname ho hmin.mem_entries
    have hfault : AtFault cur.config (lo ++ v :: hi).length c := by
      rw [hcfg]
      exact (hT.locates.atFault_iff (l := ⟨p, lo ++ v :: hi⟩) ⟨v, by simp, rfl⟩).mpr hmin
    obtain ⟨e, u, he, -⟩ := fails_onSchemaCursor (s := ⟨pager, s.self.unrecord name cur⟩)
      (remove_aborts (hd ▸ hg) hT hcur hdebug hfault)
    obtain ⟨a, u', hok, -⟩ := hret
    rw [heq, bind_error he] at hok
    cases hok
  · intro hrem
    have hk : ∃ v ∈ entries t.spine, v.key = k :=
      hb.chained.isSome_iff.mp ((h.keys k).mpr ⟨name, ho⟩)
    obtain ⟨pager, cur, heq, hd, hcfg, hT, c, p, lo, v, hi, rfl, hcur, rfl⟩ :=
      dropTable_reaches hg hb.planted htab hname ho hk
    have hfault : Build.ndebug = true ∨ ¬ AtFault cur.config (lo ++ v :: hi).length c := by
      refine hrem.imp_right (fun hw => ?_)
      rw [hcfg, hT.locates.atFault_iff (l := ⟨p, lo ++ v :: hi⟩) ⟨v, by simp, rfl⟩]
      exact hw _ _ (wellFormed_iff.mpr hb.planted)
    have hvalid : cur.config.Valid := by
      rw [hcfg]
      exact hb.valid
    obtain ⟨_, u, hrun, pager₂, cur₂, rfl, -⟩ :=
      runs_onSchemaCursor (s := ⟨pager, s.self.unrecord name cur⟩)
        (remove_runs (hd ▸ hg) hvalid hT hcur hfault)
    obtain ⟨fuel, hfuel⟩ : ∃ fuel, s.self.tables.keys.length = fuel + 1 := by
      have hin : name ∈ s.self.names := mem_names.mpr (by rw [htab]; rfl)
      have hpos := Finset.card_pos.mpr ⟨name, hin⟩
      rw [card_names] at hpos
      exact ⟨_, (Nat.succ_pred_eq_of_pos hpos).symm⟩
    rw [Returns, heq, hfuel, bind_ok hrun]
    refine ⟨(), _, dropDependents_alone hdeps ?_, trivial⟩
    exact AList.lookup_erase _ _

/-- No table is listed under another. -/
def Alone (s : CatalogState) : Prop :=
  ∀ parent child, child ∈ s.self.dependents parent → child = parent

/-- One table goes and the others stay. -/
theorem Mirrored.dropTable_alone (h : Mirrored AnyTree s rows) (halone : Alone s)
    (hret : Returns (CatalogManager.dropTable name) s (fun _ _ => True)) :
    (∃ rows', Mirrored AnyTree (after (CatalogManager.dropTable name) s) rows') ∧
      Alone (after (CatalogManager.dropTable name) s) ∧
      (after (CatalogManager.dropTable name) s).self.tables.lookup name = none ∧
      ∀ other, other ≠ name → (after (CatalogManager.dropTable name) s).self.tables.lookup other =
        s.self.tables.lookup other := by
  have hup : ¬ Crashes (CatalogManager.dropTable name) s := by
    rintro ⟨u, hu⟩
    obtain ⟨a, u', hok, -⟩ := hret
    rw [hu] at hok
    cases hok
  obtain ⟨-, rows', hm, hk, hs⟩ := (h.dropTable tended_anyTree (.inr hup)).after
  have hleads : ∀ other, Leads s.self.dependents s.self.names name other → other = name := by
    intro other hl
    induction hl with
    | refl => rfl
    | tail _ he ih => rw [halone _ _ he.1, ih]
  refine ⟨⟨rows', hm⟩, ?_, ?_, ?_⟩
  · intro parent child hc
    rw [dependents, hk.deps] at hc
    exact halone parent child hc
  · have hgone := hs.gone name (List.mem_singleton_self _)
    rw [mem_names] at hgone
    simpa using hgone
  · intro other hne
    by_cases hin : other ∈ s.self.names
    · refine hk.tables other (hs.mem_iff.mpr ⟨hin, ?_⟩)
      rintro ⟨-, hl⟩
      exact hne (hleads other hl)
    · have hout := fun hin' => hin (hs.subset hin')
      rw [mem_names] at hin hout
      have h1 : s.self.tables.lookup other = none := by simpa using hin
      have h2 : (after (CatalogManager.dropTable name) s).self.tables.lookup other = none := by
        simpa using hout
      rw [h1, h2]

theorem Mirrored.createTable_returns_iff (h : Mirrored AnyTree s rows) :
    Returns (CatalogManager.createTable table) s (fun _ _ => True) ↔
      (∀ name, s.self.tableOids.lookup name ≠ some s.self.nextOid) ∧
        ∀ root, storedRow (serializeTable table root) ≠ none := by
  have hfree : rows s.self.nextOid = none ↔
      ∀ name, s.self.tableOids.lookup name ≠ some s.self.nextOid := by
    rw [← Option.not_isSome_iff_eq_none, h.keys, not_exists]
  constructor
  · intro hret
    by_contra hnot
    refine not_returns_of_raises (createTable_raises tended_anyTree h.tree ?_) hret
    rw [← hfree, not_and_or, not_forall] at hnot
    refine hnot.imp Option.isSome_iff_ne_none.mpr ?_
    rintro ⟨root, hroot⟩ root'
    exact storedRow_eq_none (by rw [length_serializeTable, length_serializeTable]) (not_not.mp hroot)
  · rintro ⟨hoid, hfit⟩
    exact (createTable_returns tended_anyTree.toFramed h.tree (fun d root => anyTree_takes) (hfree.mpr hoid)
      hfit).mono (fun _ _ _ => trivial)

/-- One table more. -/
theorem Mirrored.createTable_alone (h : Mirrored AnyTree s rows) (halone : Alone s)
    (hname : s.self.tables.lookup table.name = none) (htbl : table.tblName = table.name)
    (hret : Returns (CatalogManager.createTable table) s (fun _ _ => True)) :
    (∃ rows', Mirrored AnyTree (after (CatalogManager.createTable table) s) rows') ∧
      Alone (after (CatalogManager.createTable table) s) ∧
      (after (CatalogManager.createTable table) s).self.tables =
        s.self.tables.insert table.name table := by
  have hends : Ends (CatalogManager.createTable table) s _ _ :=
    createTable_ends tended_anyTree h.tree (fun d root => anyTree_takes)
  obtain ⟨a, s', hok, -⟩ := hret
  simp only [Exec.Ends, hok] at hends
  simp only [after, hok]
  obtain ⟨pager, cur, root, r, rfl, hroot, hk, hr, ht⟩ := hends
  refine ⟨⟨_, h.record hname hk hroot hr ht⟩, ?_, rfl⟩
  intro parent child hc
  rcases mem_pushDependency.mp hc with hc | ⟨rfl, rfl⟩
  · exact halone parent child hc
  · exact htbl.symm

end Alone

end CatalogManager

/-! ### What the statements describe -/

/-- The columns declared for each table. -/
abbrev Described := Str → Option (List ColumnDefContext)

open Classical in
/-- What one more statement describes. One with an unknown type describes nothing new. -/
noncomputable def describe (m : Described) : StmtContext → Described
  | .createTable ctx =>
    if Known ctx.columnDef then Function.update m ctx.tableName (some ctx.columnDef) else m
  | .drop ⟨.table, name⟩ => Function.update m name none
  | .drop _ => m

/-- `get_table` has the described tables and no others. -/
def Reflects (s : CatalogState) (m : Described) : Prop :=
  ∀ name, Option.Rel (fun columnDefs table => List.Forall₂ Declares columnDefs table.columns)
    (m name) (s.self.getTable name)

/-- A statement, and what the memory holds where its columns are built. -/
structure Request where
  stmt : StmtContext
  memory : Nat → Uninit

/-- The size of the row of a table. -/
def rowLength (ctx : CreateTableStmtContext) : Nat :=
  11 + (2 + ctx.tableName.length % 2 ^ 16) + (2 + ctx.tableName.length % 2 ^ 16) +
    ((ctx.columnDef.take (ctx.columnDef.length % 2 ^ 16)).map
      (fun columnDef => 5 + columnDef.columnName.length % 2 ^ 16)).sum

/-- The chunking loop of a payload of this size ends. -/
def Chunkable (size : Nat) : Prop := payloadChunks (List.replicate size 0) ≠ none

namespace Request

variable [Build]

def run (r : Request) : CatalogM Unit := runStmt r.memory r.stmt

omit [Build] in
/-- A table to be created is not there yet, and all its columns have a type. -/
def Posed (s : CatalogState) (r : Request) : Prop :=
  match r.stmt with
  | .createTable ctx => s.self.tables.lookup ctx.tableName = none ∧
      ∀ columnDef ∈ ctx.columnDef, columnDef.typeName.isSome
  | .drop _ => True

/-- An unknown type raises and leaves the catalog alone; everything else returns. -/
def Concludes (s : CatalogState) (r : Request) : Prop :=
  match r.stmt with
  | .createTable ctx => (Known ctx.columnDef → Returns r.run s (fun _ _ => True)) ∧
      (¬ Known ctx.columnDef → Raises r.run s (fun e s' => (∃ msg, e = .runtimeError msg) ∧ s' = s))
  | .drop _ => Returns r.run s (fun _ _ => True)

/-- The passes carry the statement over: the flags come out as declared, the next oid is free and
the row fits; the row of the table can be removed; what is no table has no table's name. -/
def Carried (s : CatalogState) (r : Request) : Prop :=
  match r.stmt with
  | .createTable ctx => Known ctx.columnDef →
      (∀ i columnDef, ctx.columnDef[i]? = some columnDef → Flagged (r.memory i) columnDef) ∧
      (∀ name, s.self.tableOids.lookup name ≠ some s.self.nextOid) ∧ Chunkable (rowLength ctx)
  | .drop ⟨.table, name⟩ => ∀ k, s.self.tableOids.lookup name = some k →
      CatalogManager.Removable s k
  | .drop ⟨_, name⟩ => s.self.tables.lookup name = none

end Request

section Steps

variable [Build] {s : CatalogState} {m : Described} {ctx : CreateTableStmtContext}
  {memory : Nat → Uninit}

omit [Build] in
theorem length_row {columns : List Column}
    (hnames : columns.map Column.name = ctx.columnDef.map ColumnDefContext.columnName) (root : Nat) :
    (serializeTable ⟨.table, ctx.tableName, ctx.tableName, columns⟩ root).length =
      rowLength ctx := by
  have hlen : columns.length = ctx.columnDef.length := by
    simpa using congrArg List.length hnames
  have hmap : (columns.take (ctx.columnDef.length % 2 ^ 16)).map (fun col => col.name) =
      (ctx.columnDef.take (ctx.columnDef.length % 2 ^ 16)).map (fun c => c.columnName) := by
    rw [List.map_take, List.map_take, ← hnames]
  have hsum := congrArg (fun names : List Str =>
    (names.map (fun name => 5 + name.length % 2 ^ 16)).sum) hmap
  simp only [List.map_map, Function.comp_def] at hsum
  rw [CatalogManager.length_serializeTable, rowLength, hlen, hsum]

omit [Build] in
theorem chunkable_iff {columns : List Column}
    (hnames : columns.map Column.name = ctx.columnDef.map ColumnDefContext.columnName) :
    (∀ root, CatalogManager.storedRow
      (serializeTable ⟨.table, ctx.tableName, ctx.tableName, columns⟩ root) ≠ none) ↔
      Chunkable (rowLength ctx) := by
  have hsize : ∀ root, (serializeTable ⟨.table, ctx.tableName, ctx.tableName, columns⟩ root).length =
      (List.replicate (rowLength ctx) (0 : Byte)).length := by
    intro root
    rw [length_row hnames, List.length_replicate]
  have hnone : Chunkable (rowLength ctx) ↔
      CatalogManager.storedRow (List.replicate (rowLength ctx) 0) ≠ none := by
    rw [Chunkable, CatalogManager.storedRow, ne_eq, ne_eq, Option.map_eq_none_iff]
  rw [hnone]
  constructor
  · exact fun h hrow => h 0 (CatalogManager.storedRow_eq_none (hsize 0).symm hrow)
  · exact fun h root hrow => h (CatalogManager.storedRow_eq_none (hsize root) hrow)

/-- What follows the visit of the parse tree. -/
theorem run_visited {astCols : List Ast.ColumnDef}
    (hvisit : ASTBuilder.visitColumnDefs memory ctx.columnDef = .ok astCols) :
    Request.run ⟨.createTable ctx, memory⟩ s =
      (liftExcept (astCols.mapM Binder.bindColumn) >>= fun columns =>
        CatalogManager.createTable ⟨.table, ctx.tableName, ctx.tableName, columns⟩) s := by
  have hast : ASTBuilder.visit memory (.createTable ctx) =
      .ok (.createTable ⟨ctx.tableName, astCols⟩) := by
    rw [ASTBuilder.visit, ASTBuilder.visitCreateTableStmt, hvisit]
    rfl
  rw [Request.run, runStmt, hast]
  change (liftExcept (Binder.bindCreateTable ⟨ctx.tableName, astCols⟩) >>=
    DDLExecutor.execute) s = _
  rw [Binder.bindCreateTable]
  cases astCols.mapM Binder.bindColumn with
  | ok columns => rfl
  | error e => rfl

/-- A statement whose types are known gets to the catalog. -/
theorem run_known (h : Known ctx.columnDef) : ∃ columns : List Column,
    columns.map Column.name = ctx.columnDef.map ColumnDefContext.columnName ∧
    (List.Forall₂ Declares ctx.columnDef columns ↔
      ∀ i columnDef, ctx.columnDef[i]? = some columnDef → Flagged (memory i) columnDef) ∧
    Request.run ⟨.createTable ctx, memory⟩ =
      CatalogManager.createTable ⟨.table, ctx.tableName, ctx.tableName, columns⟩ := by
  obtain ⟨astCols, columns, hvisit, hbind, hnames, hiff⟩ := @passes_known memory _ h
  refine ⟨columns, hnames, hiff, ?_⟩
  funext s
  rw [run_visited hvisit, hbind]
  rfl

/-- One with an unknown type does not. -/
theorem run_unknown (htyped : ∀ columnDef ∈ ctx.columnDef, columnDef.typeName.isSome)
    (h : ¬ Known ctx.columnDef) : ∃ msg,
    Request.run ⟨.createTable ctx, memory⟩ s = .error (.runtimeError msg) s := by
  obtain ⟨astCols, text, -, -, hvisit, hbind⟩ := @passes_unknown memory _ htyped h
  refine ⟨"[Binder:create_table]: Unknown type " ++ strText text, ?_⟩
  rw [run_visited hvisit, hbind]
  rfl

theorem run_drop {ctx : DropStmtContext} :
    Request.run ⟨.drop ctx, memory⟩ = CatalogManager.dropTable ctx.anyName := rfl

/-- The maps mirror the schema tree and no table is listed under another. -/
def Tidy (s : CatalogState) : Prop :=
  (∃ rows, CatalogManager.Mirrored CatalogManager.AnyTree s rows) ∧ CatalogManager.Alone s

omit [Build] in
/-- Entering a table that is as declared, and only such a table, keeps to the description. -/
theorem Reflects.insert_iff {s' : CatalogState} {table : Table} {columnDefs : List ColumnDefContext}
    (h : Reflects s m) (hs : s'.self.tables = s.self.tables.insert table.name table) :
    Reflects s' (Function.update m table.name (some columnDefs)) ↔
      List.Forall₂ Declares columnDefs table.columns := by
  constructor
  · intro hr
    have hname := hr table.name
    rw [Function.update_self, CatalogManager.getTable, hs, AList.lookup_insert] at hname
    cases hname with
    | some hcols => exact hcols
  · intro hcols name
    rw [CatalogManager.getTable, hs]
    by_cases hne : name = table.name
    · subst hne
      rw [Function.update_self, AList.lookup_insert]
      exact .some hcols
    · rw [Function.update_of_ne hne, AList.lookup_insert_ne hne]
      exact h name

omit [Build] in
theorem Reflects.erase {s' : CatalogState} {name : Str} (h : Reflects s m)
    (hgone : s'.self.tables.lookup name = none)
    (hs : ∀ other, other ≠ name → s'.self.tables.lookup other = s.self.tables.lookup other) :
    Reflects s' (Function.update m name none) := by
  intro other
  rw [CatalogManager.getTable]
  by_cases hne : other = name
  · subst hne
    rw [Function.update_self, hgone]
    exact .none
  · rw [Function.update_of_ne hne, hs other hne]
    exact h other

theorem createTable_iff (ht : Tidy s) (hm : Reflects s m)
    (habs : s.self.tables.lookup ctx.tableName = none) (hk : Known ctx.columnDef) :
    Returns (Request.run ⟨.createTable ctx, memory⟩) s (fun _ _ => True) ∧
      Reflects (after (Request.run ⟨.createTable ctx, memory⟩) s)
        (Function.update m ctx.tableName (some ctx.columnDef)) ↔
      (∀ i columnDef, ctx.columnDef[i]? = some columnDef → Flagged (memory i) columnDef) ∧
      (∀ name, s.self.tableOids.lookup name ≠ some s.self.nextOid) ∧ Chunkable (rowLength ctx) := by
  obtain ⟨⟨rows, hmir⟩, halone⟩ := ht
  obtain ⟨columns, hnames, hflags, hrun⟩ := @run_known _ ctx memory hk
  rw [hrun, hmir.createTable_returns_iff, chunkable_iff hnames, and_comm]
  refine and_congr_left (fun hok => ?_)
  rw [← chunkable_iff hnames, ← hmir.createTable_returns_iff] at hok
  obtain ⟨-, -, htables⟩ := hmir.createTable_alone halone habs rfl hok
  rw [← hflags]
  exact hm.insert_iff htables

theorem dropTable_iff {name : Str} (ht : Tidy s) (hm : Reflects s m) :
    Returns (CatalogManager.dropTable name) s (fun _ _ => True) ∧
      Reflects (after (CatalogManager.dropTable name) s) (Function.update m name none) ↔
      ∀ k, s.self.tableOids.lookup name = some k → CatalogManager.Removable s k := by
  obtain ⟨⟨rows, hmir⟩, halone⟩ := ht
  constructor
  · rintro ⟨hret, -⟩ k ho
    exact (hmir.dropTable_returns_iff (halone name) ho).mp hret
  · intro hrem
    have hret : Returns (CatalogManager.dropTable name) s (fun _ _ => True) := by
      cases ho : s.self.tableOids.lookup name with
      | none =>
        have habs : s.self.tables.lookup name = none := by
          rw [← Option.not_isSome_iff_eq_none, ← hmir.names, ho]
          decide
        exact ⟨(), s, CatalogManager.dropTable_absent habs, trivial⟩
      | some k => exact (hmir.dropTable_returns_iff (halone name) ho).mpr (hrem k ho)
    obtain ⟨-, -, hgone, hothers⟩ := hmir.dropTable_alone halone hret
    exact ⟨hret, hm.erase hgone hothers⟩

/-- What is no table is dropped as if it were one. -/
theorem dropOther_iff {name : Str} (ht : Tidy s) (hm : Reflects s m) :
    Returns (CatalogManager.dropTable name) s (fun _ _ => True) ∧
      Reflects (after (CatalogManager.dropTable name) s) m ↔ s.self.tables.lookup name = none := by
  obtain ⟨⟨rows, hmir⟩, halone⟩ := ht
  constructor
  · rintro ⟨hret, href⟩
    obtain ⟨-, -, hgone, -⟩ := hmir.dropTable_alone halone hret
    have hafter := href name
    rw [CatalogManager.getTable, hgone] at hafter
    have hbefore := hm name
    rw [CatalogManager.getTable] at hbefore
    cases hname : m name with
    | none =>
      rw [hname] at hbefore
      cases htab : s.self.tables.lookup name with
      | none => rfl
      | some table =>
        rw [htab] at hbefore
        cases hbefore
    | some columnDefs =>
      rw [hname] at hafter
      cases hafter
  · intro habs
    have hrun := CatalogManager.dropTable_absent habs
    refine ⟨⟨(), s, hrun, trivial⟩, ?_⟩
    rw [after, hrun]
    exact hm

variable {r : Request}

/-- One statement does what it says exactly when it is of the kind that the passes carry over. -/
theorem Request.carried_iff (ht : Tidy s) (hm : Reflects s m) (hp : r.Posed s) :
    r.Concludes s ∧ Reflects (after r.run s) (describe m r.stmt) ↔ r.Carried s := by
  obtain ⟨stmt, memory⟩ := r
  cases stmt with
  | createTable ctx =>
    obtain ⟨habs, htyped⟩ := hp
    by_cases hk : Known ctx.columnDef
    · simp only [Request.Concludes, Request.Carried, describe, hk, if_true, not_true, true_implies,
        false_implies, and_true]
      exact createTable_iff ht hm habs hk
    · obtain ⟨msg, hrun⟩ := @run_unknown _ s ctx memory htyped hk
      simp only [Request.Concludes, Request.Carried, describe, hk, if_false, false_implies,
        not_false_eq_true, true_implies, true_and, iff_true]
      refine ⟨⟨_, s, hrun, ⟨msg, rfl⟩, rfl⟩, ?_⟩
      rw [after, hrun]
      exact hm
  | drop ctx =>
    obtain ⟨object, name⟩ := ctx
    cases object with
    | table => exact dropTable_iff ht hm
    | index => exact dropOther_iff ht hm
    | trigger => exact dropOther_iff ht hm
    | view => exact dropOther_iff ht hm

theorem Request.tidy (ht : Tidy s) (hp : r.Posed s) (hc : r.Concludes s) : Tidy (after r.run s) := by
  obtain ⟨⟨rows, hmir⟩, halone⟩ := ht
  obtain ⟨stmt, memory⟩ := r
  cases stmt with
  | createTable ctx =>
    obtain ⟨habs, htyped⟩ := hp
    by_cases hk : Known ctx.columnDef
    · obtain ⟨columns, -, -, hrun⟩ := @run_known _ ctx memory hk
      have hret := hc.1 hk
      rw [hrun] at hret ⊢
      obtain ⟨hmir', halone', -⟩ := hmir.createTable_alone halone habs rfl hret
      exact ⟨hmir', halone'⟩
    · obtain ⟨msg, hrun⟩ := @run_unknown _ s ctx memory htyped hk
      rw [after, hrun]
      exact ⟨⟨rows, hmir⟩, halone⟩
  | drop ctx =>
    obtain ⟨hmir', halone', -⟩ := hmir.dropTable_alone halone hc
    exact ⟨hmir', halone'⟩

end Steps

/-! ### Whole runs -/

section Runs

variable [Build]

/-- Before every statement and at the end the catalog is the one described so far, and every
statement concludes as it should. -/
def Faithful : Described → CatalogState → List Request → Prop
  | m, s, [] => Reflects s m
  | m, s, r :: rs => Reflects s m ∧ r.Concludes s ∧ Faithful (describe m r.stmt) (after r.run s) rs

def PosedAll : CatalogState → List Request → Prop
  | _, [] => True
  | s, r :: rs => r.Posed s ∧ PosedAll (after r.run s) rs

def CarriedAll : CatalogState → List Request → Prop
  | _, [] => True
  | s, r :: rs => r.Carried s ∧ CarriedAll (after r.run s) rs

theorem Faithful.reflects {m : Described} {s : CatalogState} :
    ∀ {rs : List Request}, Faithful m s rs → Reflects s m
  | [], h => h
  | _ :: _, h => h.1

theorem faithful_iff (rs : List Request) {m : Described} {s : CatalogState} (ht : Tidy s)
    (hm : Reflects s m) (hp : PosedAll s rs) : Faithful m s rs ↔ CarriedAll s rs := by
  induction rs generalizing m s with
  | nil => exact ⟨fun _ => trivial, fun _ => hm⟩
  | cons r rs ih =>
    obtain ⟨hr, hrs⟩ := hp
    have hone := Request.carried_iff ht hm hr
    constructor
    · rintro ⟨-, hc, hrest⟩
      have href := hrest.reflects
      exact ⟨hone.mp ⟨hc, href⟩, (ih (Request.tidy ht hr hc) href hrs).mp hrest⟩
    · rintro ⟨hcar, hrest⟩
      obtain ⟨hc, href⟩ := hone.mpr hcar
      exact ⟨hm, hc, (ih (Request.tidy ht hr hc) href hrs).mpr hrest⟩

theorem fresh_tidy : Tidy CatalogManager.fresh := by
  refine ⟨⟨_, (CatalogManager.mirrored_new CatalogManager.new_ok
    (fun d hg hp => CatalogManager.anyTree_empty hg hp)).1⟩, ?_⟩
  intro parent child hc
  rw [CatalogManager.dependents, CatalogManager.fresh_maps.2.2] at hc
  cases hc

theorem fresh_reflects : Reflects CatalogManager.fresh (fun _ => none) := by
  intro name
  rw [CatalogManager.getTable, CatalogManager.fresh_maps.1]
  exact .none

/-- From a fresh catalog a run keeps to its description exactly when each of its statements is one
that the passes carry over. -/
theorem runAll_faithful_iff (rs : List Request) (hp : PosedAll CatalogManager.fresh rs) :
    Faithful (fun _ => none) CatalogManager.fresh rs ↔ CarriedAll CatalogManager.fresh rs :=
  faithful_iff rs fresh_tidy fresh_reflects hp

end Runs

/-- `CREATE TABLE t (i int PRIMARY KEY, x Text NULL)`, over cleared memory. -/
def createT : Request where
  stmt := .createTable ⟨[116], [⟨[105], some [105, 110, 116], [.primaryKey]⟩,
    ⟨[120], some [84, 101, 120, 116], [.null]⟩]⟩
  memory _ := ⟨false, false⟩

/-- `DROP INDEX i` -/
def dropIndexI : Request := ⟨.drop ⟨.index, [105]⟩, fun _ => ⟨false, false⟩⟩

/-- `DROP TABLE t` -/
def dropT : Request := ⟨.drop ⟨.table, [116]⟩, fun _ => ⟨false, false⟩⟩

theorem createT_flagged (i : Nat) (columnDef : ColumnDefContext)
    (h : [⟨[105], some [105, 110, 116], [.primaryKey]⟩,
      ⟨[120], some [84, 101, 120, 116], [.null]⟩][i]? = some columnDef) :
    Flagged ⟨false, false⟩ columnDef := by
  have hmem := List.mem_of_getElem? h
  simp only [List.mem_cons, List.not_mem_nil, or_false] at hmem
  rcases hmem with rfl | rfl
  · exact ⟨by decide, .inl (by decide)⟩
  · exact ⟨by decide, .inr rfl⟩

theorem createT_chunkable : Chunkable 29 := by
  have hlim : (List.replicate 29 (0 : Byte)).length ≤ chainLimit := by
    rw [chainLimit_eq]
    decide
  obtain ⟨chunks, hch, -⟩ := payloadChunks_eq hlim
  rw [Chunkable, hch]
  exact Option.some_ne_none _

theorem createT_tables : (after (@Request.run ⟨true⟩ createT)
    (@CatalogManager.fresh ⟨true⟩)).self.tables.lookup [105] = none := by
  decide +kernel

theorem createT_posed : @PosedAll ⟨true⟩ (@CatalogManager.fresh ⟨true⟩)
    [createT, dropIndexI, dropT] := by
  refine ⟨⟨?_, by decide⟩, trivial, trivial, trivial⟩
  rw [(@CatalogManager.fresh_maps ⟨true⟩).1]
  rfl

theorem createT_carried : @CarriedAll ⟨true⟩ (@CatalogManager.fresh ⟨true⟩)
    [createT, dropIndexI, dropT] := by
  refine ⟨fun _ => ⟨createT_flagged, ?_, createT_chunkable⟩, createT_tables, ?_, trivial⟩
  · intro name ho
    rw [(@CatalogManager.fresh_maps ⟨true⟩).2.1] at ho
    cases ho
  · exact fun _ _ => .inl rfl

/-- The table comes, stays when an index is dropped, and goes. -/
theorem runAll_faithful_createT : @PosedAll ⟨true⟩ (@CatalogManager.fresh ⟨true⟩)
      [createT, dropIndexI, dropT] ∧
    @Faithful ⟨true⟩ (fun _ => none) (@CatalogManager.fresh ⟨true⟩) [createT, dropIndexI, dropT] :=
  ⟨createT_posed, (@runAll_faithful_iff ⟨true⟩ _ createT_posed).mpr createT_carried⟩

/-- `CREATE TABLE t (x INT NOT NULL)`, over cleared memory. -/
def createNotNull : Request where
  stmt := .createTable ⟨[116], [⟨[120], some [73, 78, 84], [.notNull]⟩]⟩
  memory _ := ⟨false, false⟩

theorem createNotNull_posed :
    @PosedAll ⟨true⟩ (@CatalogManager.fresh ⟨true⟩) [createNotNull] := by
  refine ⟨⟨?_, by decide⟩, trivial⟩
  rw [(@CatalogManager.fresh_maps ⟨true⟩).1]
  rfl

/-- The column that was not to be null is entered as nullable. -/
theorem createNotNull_columns : (after (@Request.run ⟨true⟩ createNotNull)
    (@CatalogManager.fresh ⟨true⟩)).self.getTable [116] =
      some ⟨.table, [116], [116], [⟨.integer, [120], false, true⟩]⟩ := by
  decide +kernel

theorem createNotNull_describes : describe (fun _ => none) createNotNull.stmt [116] =
    some [⟨[120], some [73, 78, 84], [.notNull]⟩] := by
  have hknown : Known [⟨[120], some [73, 78, 84], [.notNull]⟩] := by
    intro columnDef hc
    obtain rfl := List.mem_singleton.mp hc
    exact ⟨[73, 78, 84], .integer, rfl, ⟨[73, 78, 84], .integer⟩, by decide, rfl, rfl⟩
  simp only [createNotNull, describe, hknown, if_true, Function.update_self]

theorem runAll_faithful_fails : ¬ ∀ rs : List Request,
    @PosedAll ⟨true⟩ (@CatalogManager.fresh ⟨true⟩) rs →
      @Faithful ⟨true⟩ (fun _ => none) (@CatalogManager.fresh ⟨true⟩) rs := by
  intro h
  obtain ⟨-, -, hreflects⟩ := h [createNotNull] createNotNull_posed
  have hcols := hreflects [116]
  rw [createNotNull_columns, createNotNull_describes] at hcols
  obtain ⟨hcols⟩ := hcols
  obtain ⟨hdecl, -⟩ := List.forall₂_cons.mp hcols
  have hnull := hdecl.notNull (by decide)
  cases hnull

end Cpplite
