import Cpplite.BTree.Forest
import Cpplite.Catalog.Manager
import Cpplite.Lib.Sweep

/-!
The maps of the catalog and the rows of its schema tree, kept in step by `create_table` and
`drop_table` as long as no name is created twice.
-/
namespace Cpplite

open Exec Encoding Schema HeightTree Sweep

namespace CatalogManager

/-- What the schema tree keeps of a payload: its size in 32 bits and the chunks it was cut into. -/
def storedRow (payload : List Byte) : Option (Nat × List Byte) :=
  (payloadChunks payload).map (fun chunks => (payload.length % 2 ^ 32, chunks.flatten))

/-- What is known of a cursor over a tree with these rows. -/
abbrev TreeInv := Disk → BTreeCursor → Rows → Prop

/-- A B+tree of any shape. -/
def AnyTree : TreeInv := fun d cur rows => ∃ (n : Nat) (t : BTree n), Bears d cur t rows

/-- The maps and the rows of the schema tree say the same, and every table is listed under the one
it depends on. -/
structure Mirrored (T : TreeInv) (s : CatalogState) (rows : Rows) : Prop where
  tree : T s.pager.disk s.self.schemaCursor rows
  keys : ∀ k, (rows k).isSome ↔ ∃ name, s.self.tableOids.lookup name = some k
  names : ∀ name, (s.self.tableOids.lookup name).isSome ↔ (s.self.tables.lookup name).isSome
  distinct : ∀ name name' k, s.self.tableOids.lookup name = some k →
    s.self.tableOids.lookup name' = some k → name = name'
  named : ∀ name table, s.self.tables.lookup name = some table → table.name = name
  row : ∀ name k table, s.self.tableOids.lookup name = some k →
    s.self.tables.lookup name = some table → ∃ root < 2 ^ 64,
      s.self.tableRootPages.lookup name = some root ∧ rows k = storedRow (serializeTable table root)
  listed : ∀ name table, s.self.tables.lookup name = some table →
    name ∈ s.self.tableDependencies.at table.tblName []

/-- The catalog with a table entered in its maps. -/
def record (self : CatalogManager) (table : Table) (rootPgno : Nat) (cur : BTreeCursor) :
    CatalogManager where
  tables := self.tables.insert table.name table
  tableOids := self.tableOids.insert table.name self.nextOid
  tableRootPages := self.tableRootPages.insert table.name rootPgno
  tableDependencies := pushDependency self.tableDependencies table
  schemaCursor := cur
  nextOid := self.nextOid + 1
  fpm := { self.fpm with nextOid := self.nextOid + 1 }

/-- The catalog with a name taken out of its maps. -/
def unrecord (self : CatalogManager) (name : Str) (cur : BTreeCursor) : CatalogManager :=
  { self with
    tables := self.tables.erase name
    tableOids := self.tableOids.erase name
    schemaCursor := cur }

section Maps

variable {s : CatalogState} {rows : Rows} {name : Str} {table : Table} {k : DefaultPagerKey}
  {pager : Pager} {cur : BTreeCursor} {root : Nat} {r : Nat × List Byte} {T : TreeInv}

theorem mem_pushDependency {deps : StdMap (List Str)} {parent : Str} :
    name ∈ (pushDependency deps table).at parent [] ↔
      name ∈ deps.at parent [] ∨ (parent = table.tblName ∧ name = table.name) := by
  by_cases h : parent = table.tblName
  · subst h
    simp [pushDependency, StdMap.at]
  · simp [pushDependency, StdMap.at, AList.lookup_insert_ne h, h]

theorem Mirrored.record (h : Mirrored T s rows) (hname : s.self.tables.lookup table.name = none)
    (hk : rows s.self.nextOid = none) (hroot : root < 2 ^ 64)
    (hr : storedRow (serializeTable table root) = some r)
    (ht : T pager.disk cur (Function.update rows s.self.nextOid (some r))) :
    Mirrored T ⟨pager, s.self.record table root cur⟩
      (Function.update rows s.self.nextOid (some r)) := by
  have hnew : s.self.tableOids.lookup table.name = none := by
    rw [← Option.not_isSome_iff_eq_none, h.names, hname]
    simp
  have hfree : ∀ name', s.self.tableOids.lookup name' ≠ some s.self.nextOid := by
    intro name' ho
    have := (h.keys _).mpr ⟨name', ho⟩
    rw [hk] at this
    cases this
  refine ⟨ht, ?_, ?_, ?_, ?_, ?_, ?_⟩
  · intro k
    by_cases hkn : k = s.self.nextOid
    · subst hkn
      simp only [Function.update_self, Option.isSome_some, true_iff]
      exact ⟨table.name, AList.lookup_insert _⟩
    · rw [Function.update_of_ne hkn, h.keys]
      constructor
      · rintro ⟨name, ho⟩
        have hne : name ≠ table.name := by
          rintro rfl
          rw [hnew] at ho
          cases ho
        exact ⟨name, by rw [CatalogManager.record, AList.lookup_insert_ne hne, ho]⟩
      · rintro ⟨name, ho⟩
        by_cases hne : name = table.name
        · subst hne
          rw [CatalogManager.record, AList.lookup_insert] at ho
          cases ho
          exact absurd rfl hkn
        · rw [CatalogManager.record, AList.lookup_insert_ne hne] at ho
          exact ⟨name, ho⟩
  · intro name
    by_cases hne : name = table.name
    · subst hne
      simp [CatalogManager.record]
    · simp only [CatalogManager.record, AList.lookup_insert_ne hne]
      exact h.names name
  · intro name name' k ho ho'
    by_cases hne : name = table.name <;> by_cases hne' : name' = table.name
    · rw [hne, hne']
    · subst hne
      simp only [CatalogManager.record, AList.lookup_insert, AList.lookup_insert_ne hne'] at ho ho'
      cases ho
      exact absurd ho' (hfree name')
    · subst hne'
      simp only [CatalogManager.record, AList.lookup_insert, AList.lookup_insert_ne hne] at ho ho'
      cases ho'
      exact absurd ho (hfree name)
    · simp only [CatalogManager.record, AList.lookup_insert_ne hne,
        AList.lookup_insert_ne hne'] at ho ho'
      exact h.distinct name name' k ho ho'
  · intro name t ht
    by_cases hne : name = table.name
    · subst hne
      simp only [CatalogManager.record, AList.lookup_insert] at ht
      cases ht
      rfl
    · simp only [CatalogManager.record, AList.lookup_insert_ne hne] at ht
      exact h.named name t ht
  · intro name k t ho ht
    by_cases hne : name = table.name
    · subst hne
      simp only [CatalogManager.record, AList.lookup_insert] at ho ht ⊢
      cases ho
      cases ht
      exact ⟨root, hroot, rfl, by rw [Function.update_self, hr]⟩
    · simp only [CatalogManager.record, AList.lookup_insert_ne hne] at ho ht ⊢
      obtain ⟨root', hlt, hroot', hrow⟩ := h.row name k t ho ht
      refine ⟨root', hlt, hroot', ?_⟩
      rw [Function.update_of_ne, hrow]
      rintro rfl
      exact hfree name ho
  · intro name t ht
    rw [show (CatalogState.mk pager (s.self.record table root cur)).self.tableDependencies =
      pushDependency s.self.tableDependencies table from rfl, mem_pushDependency]
    by_cases hne : name = table.name
    · subst hne
      simp only [CatalogManager.record, AList.lookup_insert] at ht
      cases ht
      exact .inr ⟨rfl, rfl⟩
    · simp only [CatalogManager.record, AList.lookup_insert_ne hne] at ht
      exact .inl (h.listed name t ht)

theorem Mirrored.unrecord (h : Mirrored T s rows) (ho : s.self.tableOids.lookup name = some k)
    (ht : T pager.disk cur (Function.update rows k none)) :
    Mirrored T ⟨pager, s.self.unrecord name cur⟩ (Function.update rows k none) := by
  refine ⟨ht, ?_, ?_, ?_, ?_, ?_, ?_⟩
  · intro k'
    by_cases hkk : k' = k
    · subst hkk
      simp only [Function.update_self, Option.isSome_none, Bool.false_eq_true, false_iff]
      rintro ⟨name', ho'⟩
      by_cases hne : name' = name
      · subst hne
        simp [CatalogManager.unrecord] at ho'
      · rw [CatalogManager.unrecord, AList.lookup_erase_ne hne] at ho'
        exact hne (h.distinct name' name k' ho' ho)
    · rw [Function.update_of_ne hkk, h.keys]
      constructor
      · rintro ⟨name', ho'⟩
        have hne : name' ≠ name := by
          rintro rfl
          rw [ho] at ho'
          cases ho'
          exact hkk rfl
        exact ⟨name', by rw [CatalogManager.unrecord, AList.lookup_erase_ne hne, ho']⟩
      · rintro ⟨name', ho'⟩
        by_cases hne : name' = name
        · subst hne
          simp [CatalogManager.unrecord] at ho'
        · rw [CatalogManager.unrecord, AList.lookup_erase_ne hne] at ho'
          exact ⟨name', ho'⟩
  · intro name'
    by_cases hne : name' = name
    · subst hne
      simp [CatalogManager.unrecord]
    · simp only [CatalogManager.unrecord, AList.lookup_erase_ne hne]
      exact h.names name'
  · intro name₁ name₂ k' h₁ h₂
    by_cases hne₁ : name₁ = name
    · subst hne₁
      simp [CatalogManager.unrecord] at h₁
    by_cases hne₂ : name₂ = name
    · subst hne₂
      simp [CatalogManager.unrecord] at h₂
    simp only [CatalogManager.unrecord, AList.lookup_erase_ne hne₁,
      AList.lookup_erase_ne hne₂] at h₁ h₂
    exact h.distinct name₁ name₂ k' h₁ h₂
  · intro name' t ht
    by_cases hne : name' = name
    · subst hne
      simp [CatalogManager.unrecord] at ht
    · simp only [CatalogManager.unrecord, AList.lookup_erase_ne hne] at ht
      exact h.named name' t ht
  · intro name' k' t ho' ht
    by_cases hne : name' = name
    · subst hne
      simp [CatalogManager.unrecord] at ht
    · simp only [CatalogManager.unrecord, AList.lookup_erase_ne hne] at ho' ht ⊢
      obtain ⟨root', hlt, hroot', hrow⟩ := h.row name' k' t ho' ht
      refine ⟨root', hlt, hroot', ?_⟩
      rw [Function.update_of_ne, hrow]
      rintro rfl
      exact hne (h.distinct name' name k' ho' ho)
  · intro name' t ht
    by_cases hne : name' = name
    · subst hne
      simp [CatalogManager.unrecord] at ht
    · simp only [CatalogManager.unrecord, AList.lookup_erase_ne hne] at ht
      exact h.listed name' t ht

end Maps

/-! ### The calls on the schema tree -/

section Tree

variable [Build] {T : TreeInv} {s : CatalogState} {rows : Rows} {α : Type} {x : BTreeM α}

/-- The process is gone: an assertion was on and failed. -/
def Aborted (e : Error) : Prop := Build.ndebug = false ∧ e = .assertion

/-- `remove` leaves a tree with these rows, unless it ends the process. -/
def Removes (T : TreeInv) (d : Disk) (cur : BTreeCursor) (rows : Rows) : Prop :=
  Runs remove d cur (fun _ d' cur' => T d' cur' rows) ∨
    Fails remove d cur (fun e _ _ => Aborted e)

/-- `insert` of a new key leaves a tree with one row more. -/
def Takes (T : TreeInv) (d : Disk) (cur : BTreeCursor) (rows : Rows) (k : DefaultPagerKey)
    (value : List Byte) : Prop :=
  ∀ r, rows k = none → storedRow value = some r →
    Runs (insert k value) d cur (fun _ d' cur' => T d' cur' (Function.update rows k (some r)))

/-- It stands on pages that nothing else writes. -/
structure Framed (T : TreeInv) : Prop where
  good : ∀ {d cur rows}, T d cur rows → d.Good
  frame : ∀ {d d' cur rows}, T d cur rows → d'.Good →
    (∀ p, p ≠ 1 → (d.page p).InUse → d'.page p = d.page p) → T d' cur rows

/-- What the catalog relies on. -/
structure Tended (T : TreeInv) : Prop extends Framed T where
  move : ∀ {d cur rows} k, T d cur rows → Runs (moveToKey k) d cur (fun _ d' cur' => d' = d ∧
    T d cur' rows ∧ ((rows k).isSome → Removes T d cur' (Function.update rows k none)))
  refuse : ∀ {d cur rows k value}, T d cur rows → (rows k).isSome ∨ storedRow value = none →
    Fails (insert k value) d cur (fun e d' cur' =>
      (e = .runtimeError "[btree:insert]: Duplicate key" ∨ e = .diverges) ∧ d' = d ∧ T d cur' rows)

theorem tended_anyTree : Tended AnyTree where
  good := by
    rintro d cur rows ⟨n, t, h⟩
    exact h.good
  frame := by
    rintro d d' cur rows ⟨n, t, h⟩ hg hs
    exact ⟨n, t, h.frame hg hs⟩
  move := by
    rintro d cur rows k ⟨n, t, h⟩
    refine (h.moveToKey k).mono ?_
    rintro found d' cur' ⟨rfl, -, hb, hfound, hstand⟩
    refine ⟨rfl, ⟨n, t, hb⟩, fun hk => ?_⟩
    rcases hb.remove (hstand (hfound.mpr hk)) with hrun | ⟨hn, hab⟩
    · refine .inl (hrun.mono ?_)
      rintro _ d' cur' ⟨n', t', -, -, hb'⟩
      exact ⟨n', t', hb'⟩
    · refine .inr (fun u hu hcur => ?_)
      obtain ⟨e, v, he, rfl⟩ := hab u hu hcur
      exact ⟨_, v, he, hn, rfl⟩
  refuse := by
    rintro d cur rows k value ⟨n, t, h⟩ hcase
    rw [h.chained.isSome_iff, storedRow, Option.map_eq_none_iff] at hcase
    intro u hu hcur
    obtain ⟨e, v, he, hkind, hd, hs, -⟩ := insert_fails h.toStanding hcase u hu hcur
    exact ⟨e, v, he, hkind, hd, n, t, hs, h.chained⟩

theorem anyTree_takes {d : Disk} {cur : BTreeCursor} {k : DefaultPagerKey} {value : List Byte}
    (h : AnyTree d cur rows) : Takes AnyTree d cur rows k value := by
  obtain ⟨n, t, h⟩ := h
  intro r hk hr
  obtain ⟨chunks, hch, rfl⟩ := Option.map_eq_some_iff.mp hr
  refine (h.insert hk hch).mono ?_
  rintro _ d' cur' ⟨n', t', v, pages, -, hb⟩
  exact ⟨n', t', hb⟩

omit [Build] in
theorem runs_onSchemaCursor {Q : α → Disk → BTreeCursor → Prop}
    (h : Runs x s.pager.disk s.self.schemaCursor Q) :
    Returns (onSchemaCursor x) s (fun a s' => ∃ pager cur,
      s' = ⟨pager, { s.self with schemaCursor := cur }⟩ ∧ Q a pager.disk cur) := by
  rw [onSchemaCursor, returns_zoom]
  refine (h ⟨s.pager, s.self.schemaCursor⟩ rfl rfl).mono ?_
  intro a u hq
  exact ⟨u.pager, u.self, rfl, hq⟩

omit [Build] in
theorem fails_onSchemaCursor {R : Error → Disk → BTreeCursor → Prop}
    (h : Fails x s.pager.disk s.self.schemaCursor R) :
    Raises (onSchemaCursor x) s (fun e s' => ∃ pager cur,
      s' = ⟨pager, { s.self with schemaCursor := cur }⟩ ∧ R e pager.disk cur) := by
  obtain ⟨e, u, he, hr⟩ := h ⟨s.pager, s.self.schemaCursor⟩ rfl rfl
  exact ⟨e, _, zoom_error he, u.pager, u.self, rfl, hr⟩

end Tree

/-! ### `create_table` -/

section Create

variable [Build] {T : TreeInv} {s : CatalogState} {rows : Rows} {table : Table}

/-- The maps are as they were and so are the rows. -/
def Untouched (T : TreeInv) (s : CatalogState) (rows : Rows) (s' : CatalogState) : Prop :=
  ∃ pager cur, s' = ⟨pager, { s.self with schemaCursor := cur }⟩ ∧ T pager.disk cur rows

/-- The table was entered in the maps and in the tree. -/
def Entered (T : TreeInv) (s : CatalogState) (rows : Rows) (table : Table) (s' : CatalogState) :
    Prop :=
  ∃ pager cur root r, s' = ⟨pager, s.self.record table root cur⟩ ∧ root < 2 ^ 64 ∧
    rows s.self.nextOid = none ∧ storedRow (serializeTable table root) = some r ∧
    T pager.disk cur (Function.update rows s.self.nextOid (some r))

omit [Build] in
theorem onPager_returns {α : Type} {x : PagerM α} {Q : α → Pager → Prop}
    (h : Returns x s.pager Q) :
    Returns (onPager x) s (fun a s' => ∃ pager, s' = ⟨pager, s.self⟩ ∧ Q a pager) := by
  rw [onPager, returns_zoom]
  exact h.mono (fun a pager hq => ⟨pager, rfl, hq⟩)

omit [Build] in
/-- Whether the chunking loop ends is a matter of the payload's size. -/
theorem chunkLoop_eq_none {p q : List Byte} {size : Nat} : ∀ {fuel offset : Nat},
    chunkLoop p size fuel offset = none → chunkLoop q size fuel offset = none
  | 0, _, _ => rfl
  | fuel + 1, offset, h => by
    rw [chunkLoop_succ] at h ⊢
    split_ifs at h ⊢ with hlt
    rw [Option.map_eq_none_iff] at h ⊢
    exact chunkLoop_eq_none h

omit [Build] in
theorem storedRow_eq_none {p q : List Byte} (hlen : p.length = q.length) (h : storedRow p = none) :
    storedRow q = none := by
  rw [storedRow, Option.map_eq_none_iff, payloadChunks] at h ⊢
  rw [← hlen]
  exact chunkLoop_eq_none h

omit [Build] in
theorem length_appendName (serialized : List Byte) (name : Str) :
    (appendName serialized name).length = serialized.length + (2 + name.length % 2 ^ 16) := by
  have hle : name.length % 2 ^ 16 ≤ name.length := Nat.mod_le _ _
  simp only [appendName, appendUint16, List.length_append, BigEndian.length_toBytes, List.length_take,
    min_eq_left hle]
  omega

omit [Build] in
theorem length_appendColumn (serialized : List Byte) (col : Column) :
    (appendColumn serialized col).length = serialized.length + (5 + col.name.length % 2 ^ 16) := by
  simp only [appendColumn, length_appendName, List.length_append, List.length_singleton]
  omega

omit [Build] in
/-- The size of a row is a matter of the names in it. -/
theorem length_serializeTable (table : Table) (root : Nat) : (serializeTable table root).length =
    11 + (2 + table.name.length % 2 ^ 16) + (2 + table.tblName.length % 2 ^ 16) +
      ((table.columns.take (table.columns.length % 2 ^ 16)).map
        (fun col => 5 + col.name.length % 2 ^ 16)).sum := by
  have hcols : ∀ (cols : List Column) (serialized : List Byte),
      (cols.foldl appendColumn serialized).length =
        serialized.length + (cols.map (fun col => 5 + col.name.length % 2 ^ 16)).sum := by
    intro cols
    induction cols with
    | nil => simp
    | cons col cols ih =>
      intro serialized
      rw [List.foldl_cons, ih, length_appendColumn, List.map_cons, List.sum_cons, Nat.add_assoc]
  simp only [serializeTable, hcols, appendUint16, appendUint64, List.length_append,
    BigEndian.length_toBytes, length_appendName, List.length_singleton]
  omega

/-- With a free oid, and a row whose chunking loop ends, the call returns. -/
theorem createTable_returns (hT : Framed T) (h : T s.pager.disk s.self.schemaCursor rows)
    (htake : ∀ d root, T d s.self.schemaCursor rows →
      Takes T d s.self.schemaCursor rows s.self.nextOid (serializeTable table root))
    (hk : rows s.self.nextOid = none) (hfit : ∀ root, storedRow (serializeTable table root) ≠ none) :
    Returns (createTable table) s (fun _ => Entered T s rows table) := by
  obtain ⟨pager, self⟩ := s
  unfold createTable
  refine (onPager_returns (createRoot_returns (hT.good h))).bind ?_
  rintro page _ ⟨pager₁, rfl, -, -, -, hev⟩
  have h₁ : T pager₁.disk self.schemaCursor rows :=
    hT.frame h hev.good (fun p hp hu => hev.same p hp (List.not_mem_nil) hu)
  refine Returns.bind_eq (a := self) rfl ?_
  obtain ⟨r, hr⟩ := Option.ne_none_iff_exists'.mp (hfit (page % 2 ^ 64))
  refine (runs_onSchemaCursor (s := ⟨pager₁, self⟩)
    (htake _ (page % 2 ^ 64) h₁ r hk hr)).bind ?_
  rintro _ _ ⟨pager₂, cur, rfl, h₂⟩
  refine Returns.bind_eq (a := ()) rfl ?_
  refine Returns.bind_eq (a := _) rfl ?_
  have hg := hT.good h₂
  obtain ⟨hd, h1⟩ := hg.sound.first
  refine (onPager_returns (s := ⟨pager₂, _⟩) (setNextOid_yields h1 _ _)).bind ?_
  rintro _ _ ⟨pager₃, rfl, rfl, hd₃⟩
  refine ⟨(), _, rfl, pager₃, cur, page % 2 ^ 64, r, rfl, Nat.mod_lt _ (by decide), hk, hr, ?_⟩
  rw [hd₃]
  exact hT.frame h₂ (hg.set_nextOid h1 _) (fun p hp _ => Disk.set_page_of_ne hp)

/-- A call that raises (the oid is taken, or the row's chunking loop never ends) has made a page
and no other change. -/
theorem createTable_raises (hT : Tended T) (h : T s.pager.disk s.self.schemaCursor rows)
    (hcase : (rows s.self.nextOid).isSome ∨ ∀ root, storedRow (serializeTable table root) = none) :
    Raises (createTable table) s (fun _ => Untouched T s rows) := by
  obtain ⟨pager, self⟩ := s
  unfold createTable
  obtain ⟨page, _, hpage, pager₁, rfl, -, -, -, hev⟩ :=
    onPager_returns (createRoot_returns (hT.good h))
  have h₁ : T pager₁.disk self.schemaCursor rows :=
    hT.frame h hev.good (fun p hp hu => hev.same p hp (List.not_mem_nil) hu)
  obtain ⟨e, s', he, p, cur, rfl, -, hd, ht⟩ := fails_onSchemaCursor (s := ⟨pager₁, self⟩)
    (hT.refuse h₁ (hcase.imp_right (fun hnone => hnone (page % 2 ^ 64))))
  refine ⟨e, _, ?_, p, cur, rfl, by rw [hd]; exact ht⟩
  refine (bind_ok hpage).trans ?_
  have hself : getManager ⟨pager₁, self⟩ = .ok self ⟨pager₁, self⟩ := rfl
  exact (bind_ok hself).trans (bind_error he)

theorem createTable_ends (hT : Tended T) (h : T s.pager.disk s.self.schemaCursor rows)
    (htake : ∀ d root, T d s.self.schemaCursor rows →
      Takes T d s.self.schemaCursor rows s.self.nextOid (serializeTable table root)) :
    Ends (createTable table) s (fun _ => Entered T s rows table) (Untouched T s rows) := by
  by_cases hcase : (rows s.self.nextOid).isSome ∨ storedRow (serializeTable table 0) = none
  · refine (createTable_raises hT h (hcase.imp_right (fun hnone root => ?_))).ends
    exact storedRow_eq_none (by rw [length_serializeTable, length_serializeTable]) hnone
  · push Not at hcase
    refine (createTable_returns hT.toFramed h htake (by simpa using hcase.1) ?_).ends
    intro root hnone
    exact hcase.2 (storedRow_eq_none (by rw [length_serializeTable, length_serializeTable]) hnone)

end Create

/-! ### `drop_table` -/

/-- The names in `tables_`. -/
def names (self : CatalogManager) : Finset Str := self.tables.keys.toFinset

/-- The names listed under a table. -/
def dependents (self : CatalogManager) (name : Str) : List Str := self.tableDependencies.at name []

/-- What is still there is as it was. -/
structure Keeps (s s' : CatalogState) (rows rows' : Rows) : Prop where
  deps : s'.self.tableDependencies = s.self.tableDependencies
  roots : s'.self.tableRootPages = s.self.tableRootPages
  tables : ∀ name ∈ s'.self.names, s'.self.tables.lookup name = s.self.tables.lookup name
  oids : ∀ name ∈ s'.self.names, s'.self.tableOids.lookup name = s.self.tableOids.lookup name
  rows : ∀ k r, rows' k = some r → rows k = some r

/-- The tables `as` were dropped, one after the other. -/
def Dropped (T : TreeInv) (as : List Str) (s : CatalogState) (rows : Rows) (s' : CatalogState) :
    Prop :=
  ∃ rows', Mirrored T s' rows' ∧ Keeps s s' rows rows' ∧
    Swept s.self.dependents as s.self.names s'.self.names

section Names

variable {self : CatalogManager} {s s' s'' : CatalogState} {rows rows' rows'' : Rows} {name : Str}
  {cur : BTreeCursor} {T : TreeInv} {as : List Str} {k : DefaultPagerKey} {pager : Pager}

theorem mem_names : name ∈ self.names ↔ (self.tables.lookup name).isSome := by
  rw [names, List.mem_toFinset, AList.lookup_isSome, AList.mem_keys]

theorem card_names : self.names.card = self.tables.keys.length :=
  List.toFinset_card_of_nodup self.tables.keys_nodup

theorem names_unrecord : (self.unrecord name cur).names = self.names.erase name := by
  ext name'
  by_cases h : name' = name
  · subst h
    simp [mem_names, unrecord]
  · simp [mem_names, unrecord, h]

theorem Keeps.refl : Keeps s s rows rows :=
  ⟨rfl, rfl, fun _ _ => rfl, fun _ _ => rfl, fun _ _ hr => hr⟩

theorem Keeps.subset (h : Keeps s s' rows rows') : s'.self.names ⊆ s.self.names := by
  intro name hn
  rw [mem_names, ← h.tables name hn, ← mem_names]
  exact hn

theorem Keeps.trans (h : Keeps s s' rows rows') (h' : Keeps s' s'' rows' rows'') :
    Keeps s s'' rows rows'' where
  deps := h'.deps.trans h.deps
  roots := h'.roots.trans h.roots
  tables name hn := (h'.tables name hn).trans (h.tables name (h'.subset hn))
  oids name hn := (h'.oids name hn).trans (h.oids name (h'.subset hn))
  rows k r hr := h.rows k r (h'.rows k r hr)

theorem keeps_unrecord :
    Keeps s ⟨pager, s.self.unrecord name cur⟩ rows (Function.update rows k none) := by
  have hne : ∀ name' ∈ (s.self.unrecord name cur).names, name' ≠ name := by
    intro name' hn
    rw [names_unrecord] at hn
    exact Finset.ne_of_mem_erase hn
  refine ⟨rfl, rfl, ?_, ?_, ?_⟩
  · intro name' hn
    exact AList.lookup_erase_ne (hne name' hn)
  · intro name' hn
    exact AList.lookup_erase_ne (hne name' hn)
  · intro k' r hr
    by_cases hk : k' = k
    · subst hk
      simp at hr
    · rwa [Function.update_of_ne hk] at hr

theorem Dropped.nil (h : Mirrored T s rows) : Dropped T [] s rows s :=
  ⟨rows, h, .refl, .nil⟩

theorem Dropped.cons (hk : Keeps s s' rows rows')
    (hs : Swept s.self.dependents [name] s.self.names s'.self.names)
    (h' : Dropped T as s' rows' s'') : Dropped T (name :: as) s rows s'' := by
  obtain ⟨rows'', hm, hk', hs'⟩ := h'
  have hdeps : s'.self.dependents = s.self.dependents := by
    funext p
    rw [dependents, dependents, hk.deps]
  rw [hdeps] at hs'
  exact ⟨rows'', hm, hk.trans hk', hs.cons hs'⟩

end Names

section Drop

variable [Build] {T : TreeInv}

/-- Dropping tables one after the other, by what one drop does. -/
theorem dropFrom_forM {fuel : Nat}
    (hone : ∀ name s rows, Mirrored T s rows → s.self.names.card < fuel →
      ReturnsUnless Aborted (dropFrom fuel name) s (fun _ => Dropped T [name] s rows))
    (as : List Str) : ∀ s rows, Mirrored T s rows → s.self.names.card < fuel →
      ReturnsUnless Aborted (as.forM (fun name => dropFrom fuel name)) s
        (fun _ => Dropped T as s rows) := by
  induction as with
  | nil =>
    intro s rows h _
    exact Returns.unless (returns_pure.mpr (.nil h))
  | cons name as ih =>
    intro s rows h hlt
    refine (hone name s rows h hlt).bind ?_
    rintro _ s' ⟨rows', h', hk, hs⟩
    have hlt' : s'.self.names.card < fuel := (Finset.card_le_card hs.subset).trans_lt hlt
    exact (ih s' rows' h' hlt').mono (fun _ s'' hd => .cons hk hs hd)

/-- The recursion never runs out: each table goes before the ones listed under it are dropped. -/
theorem dropFrom_spec (hT : Tended T) (fuel : Nat) : ∀ name s rows, Mirrored T s rows →
    s.self.names.card < fuel →
    ReturnsUnless Aborted (dropFrom fuel name) s (fun _ => Dropped T [name] s rows) := by
  induction fuel with
  | zero =>
    intro name s rows _ hlt
    exact absurd hlt (Nat.not_lt_zero _)
  | succ fuel ih =>
    rintro name ⟨pager, self⟩ rows h hlt
    rw [dropFrom]
    refine ReturnsUnless.bind_eq (a := self) rfl ?_
    cases htab : self.tables.lookup name with
    | none =>
      have hnot : name ∉ self.names := by
        rw [mem_names, htab]
        simp
      exact Returns.unless (returns_pure.mpr ⟨rows, h, .refl, .absent hnot⟩)
    | some table =>
      have hin : name ∈ self.names := by
        rw [mem_names, htab]
        rfl
      obtain ⟨k, hoid⟩ := Option.isSome_iff_exists.mp ((h.names name).mpr (by rw [htab]; rfl))
      have hat : self.tableOids.at name 0 = k := by
        rw [StdMap.at, hoid]
        rfl
      have hname : table.name = name := h.named name table htab
      refine ReturnsUnless.bind_eq (a := ()) rfl ?_
      rw [hat]
      refine (runs_onSchemaCursor (s := ⟨pager, { self with tables := self.tables.erase name }⟩)
        (hT.move k h.tree)).unless.bind ?_
      rintro _ _ ⟨pager₁, cur₁, rfl, hd, -, hremoves⟩
      refine ReturnsUnless.bind_eq (a := ()) rfl ?_
      have hrem : ReturnsUnless Aborted (onSchemaCursor remove)
          ⟨pager₁, self.unrecord name cur₁⟩ (fun _ s' => ∃ pager₂ cur₂,
            s' = ⟨pager₂, self.unrecord name cur₂⟩ ∧
              T pager₂.disk cur₂ (Function.update rows k none)) := by
        rcases hremoves ((h.keys k).mpr ⟨name, hoid⟩) with hrun | hfail
        · rw [← hd] at hrun
          exact (runs_onSchemaCursor (s := ⟨pager₁, self.unrecord name cur₁⟩) hrun).unless
        · rw [← hd] at hfail
          obtain ⟨e, u, he, -, -, -, hab⟩ :=
            fails_onSchemaCursor (s := ⟨pager₁, self.unrecord name cur₁⟩) hfail
          exact Raises.unless ⟨e, u, he, hab⟩
      refine hrem.bind ?_
      rintro _ _ ⟨pager₂, cur₂, rfl, htree⟩
      have h₂ : Mirrored T ⟨pager₂, self.unrecord name cur₂⟩ (Function.update rows k none) :=
        h.unrecord hoid htree
      refine ReturnsUnless.bind_eq (a := self.unrecord name cur₂) rfl ?_
      have hlt₂ : (self.unrecord name cur₂).names.card < fuel := by
        rw [names_unrecord, Finset.card_erase_of_mem hin]
        have hpos : 0 < self.names.card := Finset.card_pos.mpr ⟨name, hin⟩
        have hle : self.names.card < fuel + 1 := hlt
        omega
      have hall : ∀ as, self.dependents name = as → ReturnsUnless Aborted
          (as.forM (fun dependent => dropFrom fuel dependent)) ⟨pager₂, self.unrecord name cur₂⟩
          (fun _ => Dropped T [name] ⟨pager, self⟩ rows) := by
        rintro as rfl
        refine (dropFrom_forM ih _ _ _ h₂ hlt₂).mono ?_
        rintro _ s' ⟨rows', h', hk', hs'⟩
        refine ⟨rows', h', keeps_unrecord.trans hk', Swept.of_erase hin ?_⟩
        have hnames : (self.unrecord name cur₂).names = self.names.erase name := names_unrecord
        rw [← hnames]
        exact hs'
      have hdeps : (self.unrecord name cur₂).tableDependencies = self.tableDependencies := rfl
      rw [hdeps, hname]
      cases hdep : self.tableDependencies.lookup name with
      | none => exact hall [] (by rw [dependents, StdMap.at, hdep]; rfl)
      | some as => exact hall as (by rw [dependents, StdMap.at, hdep]; rfl)

end Drop

end CatalogManager

end Cpplite
