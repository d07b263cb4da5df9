import Cpplite.Catalog.Restart
import Cpplite.Ddl.Runs

/-!
What a run of DDL statements leaves for the next process. While the tables fit the first leaf of
the schema tree, a new catalog over the file is the one the statements describe, whichever of
them were refused.
-/
namespace Cpplite

open Exec Encoding Schema HeightTree

namespace Request

variable [Build]

/-- Room for one more row: the leaf on page 2 is not full, the lengths fit 16 bits and the row fits
its chain. -/
def Housed (s : CatalogState) (r : Request) : Prop :=
  match r.stmt with
  | .createTable ctx => Known ctx.columnDef → s.self.tables.keys.length < leafMaxCells ∧
      ctx.tableName.length ≤ 65535 ∧ ctx.columnDef.length ≤ 65535 ∧
      (∀ columnDef ∈ ctx.columnDef, columnDef.columnName.length ≤ 65535) ∧
      rowLength ctx ≤ chainLimit
  | .drop _ => True

end Request

section Runs

variable [Build] {s : CatalogState} {m : Described} {r : Request} {ctx : CreateTableStmtContext}

omit [Build] in
theorem readable_of_names {columns : List Column}
    (hnames : columns.map Column.name = ctx.columnDef.map ColumnDefContext.columnName)
    (hname : ctx.tableName.length ≤ 65535) (hlen : ctx.columnDef.length ≤ 65535)
    (hcols : ∀ columnDef ∈ ctx.columnDef, columnDef.columnName.length ≤ 65535)
    (hrow : rowLength ctx ≤ chainLimit) :
    CatalogManager.Readable ⟨.table, ctx.tableName, ctx.tableName, columns⟩ := by
  refine ⟨⟨hname, hname, ?_, ?_⟩, fun root => by rw [length_row hnames]; exact hrow⟩
  · have hsame := congrArg List.length hnames
    rw [List.length_map, List.length_map] at hsame
    rw [hsame]
    exact hlen
  · intro col hc
    have hin : col.name ∈ columns.map Column.name := List.mem_map_of_mem hc
    rw [hnames] at hin
    obtain ⟨columnDef, hcd, heq⟩ := List.mem_map.mp hin
    rw [← heq]
    exact hcols columnDef hcd

omit [Build] in
theorem not_crashes {x : CatalogM Unit} (h : Returns x s (fun _ _ => True)) :
    ¬ CatalogManager.Crashes x s := by
  rintro ⟨t, ht⟩
  obtain ⟨a, u, hu, -⟩ := h
  rw [ht] at hu
  cases hu

/-- A statement that concludes is one of the catalog's own steps, or none at all. -/
theorem Request.reached (h : CatalogManager.Reached CatalogManager.Roomy s) (hp : r.Posed s)
    (hh : r.Housed s) (hc : r.Concludes s) :
    CatalogManager.Reached CatalogManager.Roomy (after r.run s) := by
  obtain ⟨stmt, memory⟩ := r
  cases stmt with
  | createTable ctx =>
    obtain ⟨habs, htyped⟩ := hp
    by_cases hk : Known ctx.columnDef
    · obtain ⟨hroom, hname, hlen, hcols, hrow⟩ := hh hk
      obtain ⟨columns, hnames, -, hrun⟩ := @run_known _ ctx memory hk
      have hread := readable_of_names hnames hname hlen hcols hrow
      have hup := not_crashes (hc.1 hk)
      rw [hrun] at hup ⊢
      exact @CatalogManager.Reached.step _ _ s (.createTable _) h ⟨habs, hread, hroom⟩ hup
    · obtain ⟨msg, hrun⟩ := @run_unknown _ s ctx memory htyped hk
      rw [after, hrun]
      exact h
  | drop ctx =>
    have hup := not_crashes hc
    rw [run_drop] at hup ⊢
    exact @CatalogManager.Reached.step _ _ s (.dropTable _) h trivial hup

omit [Build] in
/-- The catalog is seen through `get_table` only. -/
theorem Reflects.congr {s' : CatalogState} (h : Reflects s m)
    (hs : ∀ name, s'.self.getTable name = s.self.getTable name) : Reflects s' m := by
  intro name
  rw [hs name]
  exact h name

end Runs

end Cpplite
