import Cpplite.Catalog.Manager

/-!
A DDL statement on its way to the catalog: `ASTBuilder` makes an AST of the parse tree,
`Binder` looks the types up, and `DDLExecutor` calls the catalog.

The parse tree is the generated parser's, reduced to what `ASTBuilder` asks it for.
-/
namespace Cpplite

open Exec Encoding Schema

/-! ### `SQLiteParser` -/

/-- The alternatives of `column_constraint`. -/
inductive ColumnConstraintContext where
  | primaryKey
  | notNull
  | null
  | unique
  | check
  | default
  | collate
  | foreignKey
  | generated
deriving DecidableEq, Repr

namespace ColumnConstraintContext

/-- `PRIMARY_() != nullptr` -/
def primary? : ColumnConstraintContext → Bool
  | .primaryKey => true
  | _ => false

/-- `NULL_() != nullptr`. The token is there in `NULL` and in `NOT NULL`. -/
def null? : ColumnConstraintContext → Bool
  | .null => true
  | .notNull => true
  | _ => false

end ColumnConstraintContext

structure ColumnDefContext where
  columnName : Str
  /-- A null pointer where the column has no type. -/
  typeName : Option Str
  columnConstraint : List ColumnConstraintContext
deriving DecidableEq, Repr

structure CreateTableStmtContext where
  tableName : Str
  columnDef : List ColumnDefContext
deriving DecidableEq, Repr

/-- The token after `DROP`. -/
inductive DropObject where
  | index
  | table
  | trigger
  | view
deriving DecidableEq, Repr

structure DropStmtContext where
  object : DropObject
  anyName : Str
deriving DecidableEq, Repr

inductive StmtContext where
  | createTable (ctx : CreateTableStmtContext)
  | drop (ctx : DropStmtContext)
deriving DecidableEq, Repr

/-! ### `ast.h` and `ast.cpp` -/

namespace Ast

structure ColumnDef where
  name : Str
  datatypeStr : Str
  isPrimaryKey : Bool
  isNullable : Bool
deriving DecidableEq, Repr

structure CreateTableNode where
  name : Str
  columns : List ColumnDef
deriving DecidableEq, Repr

structure DropTableNode where
  name : Str
deriving DecidableEq, Repr

inductive Stmt where
  | createTable (node : CreateTableNode)
  | dropTable (node : DropTableNode)
deriving DecidableEq, Repr

end Ast

/-- What memory holds where a new `ast::ColumnDef` has its flags: nothing initialises them. -/
structure Uninit where
  isPrimaryKey : Bool
  isNullable : Bool
deriving DecidableEq, Repr

namespace ASTBuilder

/-- The body of the loop over the constraints of a column. -/
def visitConstraint (astCol : Ast.ColumnDef) (constraint : ColumnConstraintContext) : Ast.ColumnDef :=
  let astCol := if constraint.primary? then { astCol with isPrimaryKey := true } else astCol
  if constraint.null? then { astCol with isNullable := true } else astCol

/-- The body of the loop over the columns. A column without a type is a null pointer's `getText`. -/
def visitColumnDef (raw : Uninit) (columnDef : ColumnDefContext) : Except Error Ast.ColumnDef :=
  match columnDef.typeName with
  | none => .error .undefined
  | some typeName =>
    .ok (columnDef.columnConstraint.foldl visitConstraint
      ⟨columnDef.columnName, typeName, raw.isPrimaryKey, raw.isNullable⟩)

/-- The loop over the columns, with what each new `ColumnDef` finds in memory. -/
def visitColumnDefs (memory : Nat → Uninit) : List ColumnDefContext → Except Error (List Ast.ColumnDef)
  | [] => .ok []
  | columnDef :: rest => do
    let astCol ← visitColumnDef (memory 0) columnDef
    let astCols ← visitColumnDefs (fun i => memory (i + 1)) rest
    return astCol :: astCols

/-- `visitCreate_table_stmt` -/
def visitCreateTableStmt (memory : Nat → Uninit) (ctx : CreateTableStmtContext) :
    Except Error Ast.CreateTableNode := do
  let astColumnDefs ← visitColumnDefs memory ctx.columnDef
  return ⟨ctx.tableName, astColumnDefs⟩

/-- `visitDrop_stmt` -/
def visitDropStmt (ctx : DropStmtContext) : Ast.DropTableNode := ⟨ctx.anyName⟩

def visit (memory : Nat → Uninit) : StmtContext → Except Error Ast.Stmt
  | .createTable ctx => do
    let node ← visitCreateTableStmt memory ctx
    return .createTable node
  | .drop ctx => .ok (.dropTable (visitDropStmt ctx))

end ASTBuilder

/-! ### `binder.h` and `binder.cpp` -/

/-- `TYPE_MAP`: `INTEGER`, `INT`, `TEXT`, `BOOLEAN`, `BOOL`. -/
def typeMap : StdMap DataType := List.toAList [
  ⟨[73, 78, 84, 69, 71, 69, 82], .integer⟩,
  ⟨[73, 78, 84], .integer⟩,
  ⟨[84, 69, 88, 84], .text⟩,
  ⟨[66, 79, 79, 76, 69, 65, 78], .boolean⟩,
  ⟨[66, 79, 79, 76], .boolean⟩]

/-- `::toupper` in the default locale. -/
def toupper (c : Byte) : Byte := if 97 ≤ c ∧ c ≤ 122 then c - 32 else c

/-- A `std::string` in a message. -/
def strText (s : Str) : String := String.ofList (s.map (fun c => Char.ofNat c.toNat))

namespace Binder

structure CreateTableStmt where
  name : Str
  columns : List Column
deriving DecidableEq, Repr

structure DropTableStmt where
  name : Str
deriving DecidableEq, Repr

inductive Stmt where
  | createTable (stmt : CreateTableStmt)
  | dropTable (stmt : DropTableStmt)
deriving DecidableEq, Repr

/-- The body of the loop in `bind_create_table`. -/
def bindColumn (colDef : Ast.ColumnDef) : Except Error Column :=
  let typeUpper := colDef.datatypeStr.map toupper
  match typeMap.lookup typeUpper with
  | none =>
    .error (.runtimeError ("[Binder:create_table]: Unknown type " ++ strText colDef.datatypeStr))
  | some type => .ok ⟨type, colDef.name, colDef.isPrimaryKey, colDef.isNullable⟩

def bindCreateTable (stmt : Ast.CreateTableNode) : Except Error Stmt := do
  let columns ← stmt.columns.mapM bindColumn
  return .createTable ⟨stmt.name, columns⟩

def bindDropTable (stmt : Ast.DropTableNode) : Stmt := .dropTable ⟨stmt.name⟩

def bind : Ast.Stmt → Except Error Stmt
  | .createTable node => bindCreateTable node
  | .dropTable node => .ok (bindDropTable node)

end Binder

/-! ### `ddl.h` and `ddl.cpp` -/

namespace DDLExecutor

variable [Build]

def executeCreateTable (stmt : Binder.CreateTableStmt) : CatalogM Unit :=
  CatalogManager.createTable ⟨.table, stmt.name, stmt.name, stmt.columns⟩

def executeDropTable (stmt : Binder.DropTableStmt) : CatalogM Unit :=
  CatalogManager.dropTable stmt.name

def execute : Binder.Stmt → CatalogM Unit
  | .createTable stmt => executeCreateTable stmt
  | .dropTable stmt => executeDropTable stmt

end DDLExecutor

/-- A statement through all passes. -/
def runStmt [Build] (memory : Nat → Uninit) (ctx : StmtContext) : CatalogM Unit := do
  let stmt ← liftExcept (ASTBuilder.visit memory ctx)
  let bound ← liftExcept (Binder.bind stmt)
  DDLExecutor.execute bound

end Cpplite
