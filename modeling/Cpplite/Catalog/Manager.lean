import Cpplite.BTree.Map
import Cpplite.Catalog.Schema
import Mathlib.Data.List.AList

/-!
`catalog.h` and `catalog.cpp`: the tables of a database in memory, and the schema B+tree on
page 2 that keeps them. Its rows are the tables' schemas, its keys their oids.
-/
namespace Cpplite

open Exec Encoding Schema

/-- A `std::map<std::string, α>`. -/
abbrev StdMap (α : Type) := AList (fun _ : Str => α)

/-- What `m[key]` reads: the value kept there, or the default that would be put there. -/
def StdMap.at {α : Type} (m : StdMap α) (key : Str) (default : α) : α := (m.lookup key).getD default

/-- `CPPLITE_SCHEMA_PGNO` -/
def schemaPgno : Nat := 2

/-- `CatalogManager` without its pager, which other structures share. -/
structure CatalogManager where
  tables : StdMap Table
  tableOids : StdMap DefaultPagerKey
  tableRootPages : StdMap Nat
  tableDependencies : StdMap (List Str)
  schemaCursor : BTreeCursor
  nextOid : DefaultPagerKey
  fpm : FirstPageManager

/-- A catalog together with the pager it points to. -/
structure CatalogState where
  pager : Pager
  self : CatalogManager

abbrev CatalogM := EStateM Error CatalogState

namespace CatalogManager

def onPager {α : Type} (x : PagerM α) : CatalogM α :=
  zoom (·.pager) (fun p s => { s with pager := p }) x

/-- A call on `schema_cursor_`. -/
def onSchemaCursor {α : Type} (x : BTreeM α) : CatalogM α :=
  zoom (fun s => ⟨s.pager, s.self.schemaCursor⟩)
    (fun t s => ⟨t.pager, { s.self with schemaCursor := t.self }⟩) x

def getManager : CatalogM CatalogManager := do
  let s ← get
  pure s.self

def modifyManager (f : CatalogManager → CatalogManager) : CatalogM Unit :=
  modify (fun s => { s with self := f s.self })

/-- `table_dependencies_[tbl_name].push_back(name)` -/
def pushDependency (deps : StdMap (List Str)) (table : Table) : StdMap (List Str) :=
  deps.insert table.tblName (deps.at table.tblName [] ++ [table.name])

section

variable [Build]

def ensureSchemaPage : PagerM Nat := do
  let numPages ← getNumPages
  if numPages < schemaPgno then do
    let _ ← createPage .leafPage
    pure schemaPgno
  else pure schemaPgno

/-- `deserialize_table` on its own offset. -/
def decodeTable (tableBytes : List Byte) : CatalogM (Table × Nat) :=
  match deserializeTable tableBytes 0 with
  | .ok res _ => pure res
  | .error e _ => throw e

/-- The scan of `initialize_tables`. One that passes more cells than the file has bytes never
ends. -/
def initializeLoop : Nat → CatalogM Unit
  | 0 => throw .diverges
  | fuel + 1 => do
    let oid ← onSchemaCursor currentKey
    let tableBytes ← onSchemaCursor currentValue
    let res ← decodeTable tableBytes
    modifyManager (fun self => { self with
      tables := self.tables.insert res.1.name res.1
      tableOids := self.tableOids.insert res.1.name oid
      tableRootPages := self.tableRootPages.insert res.1.name res.2
      tableDependencies := pushDependency self.tableDependencies res.1 })
    let more ← onSchemaCursor next
    if more = true then initializeLoop fuel else pure ()

def initializeTables : CatalogM Unit := do
  let empty ← onSchemaCursor isEmpty
  if empty = true then pure ()
  else do
    onSchemaCursor moveToFirst
    let s ← get
    initializeLoop (s.pager.file.numPages * pageSize + 1)

/-- A member function of a new object, which ends up in its owner's hands. -/
def construct (self : CatalogManager) (x : CatalogM Unit) : PagerM CatalogManager := fun pager =>
  match x ⟨pager, self⟩ with
  | .ok _ s => .ok s.self s.pager
  | .error e s => .error e s.pager

/-- The `CatalogManager` constructor. -/
def new : PagerM CatalogManager := do
  let pgno ← ensureSchemaPage
  let cursor ← BTreeCursor.new pgno {}
  let fpm ← FirstPageManager.load
  construct ⟨∅, ∅, ∅, ∅, cursor, fpm.nextOid, fpm⟩ initializeTables

/-- `create_table`. A `PageNumber` is 64 bits wide. -/
def createTable (table : Table) : CatalogM Unit := do
  let page ← onPager (createPage .leafPage)
  let rootPgno := page % 2 ^ 64
  let payload := serializeTable table rootPgno
  let self ← getManager
  onSchemaCursor (insert self.nextOid payload)
  modifyManager (fun self => { self with
    tableOids := self.tableOids.insert table.name self.nextOid
    tableRootPages := self.tableRootPages.insert table.name rootPgno
    nextOid := self.nextOid + 1 })
  let self ← getManager
  let fpm ← onPager (self.fpm.setNextOid self.nextOid)
  modifyManager (fun self => { self with
    fpm := fpm
    tables := self.tables.insert table.name table
    tableDependencies := pushDependency self.tableDependencies table })

/-- The recursion of `drop_table`, with how deep it may still go. -/
def dropFrom : Nat → Str → CatalogM Unit
  | 0, _ => throw .diverges
  | fuel + 1, name => do
    let self ← getManager
    match self.tables.lookup name with
    | none => pure ()
    | some table => do
      modifyManager (fun self => { self with tables := self.tables.erase name })
      let _ ← onSchemaCursor (moveToKey (self.tableOids.at name 0))
      modifyManager (fun self => { self with tableOids := self.tableOids.erase name })
      onSchemaCursor remove
      let self ← getManager
      match self.tableDependencies.lookup table.name with
      | none => pure ()
      | some dependencies => dependencies.forM (fun dependent => dropFrom fuel dependent)

/-- `drop_table`. Every call below another has one table less, so a recursion that is deeper than
the catalog has tables never ends. -/
def dropTable (name : Str) : CatalogM Unit := do
  let self ← getManager
  dropFrom (self.tables.keys.length + 1) name

omit [Build] in
/-- `get_table` -/
def getTable (self : CatalogManager) (name : Str) : Option Table := self.tables.lookup name

end

end CatalogManager

end Cpplite
