import Cpplite.BTree.Traverse
import Cpplite.Catalog.Runs

/-!
A second catalog over the same file. It starts from page 2 again, where it finds the tables of
the first one as long as the leaf there has never been split.
-/
namespace Cpplite

open Exec Encoding Schema HeightTree

namespace CatalogManager

/-! ### Reading the rows in -/

section Scan

variable [Build] {m : Contents} {k : DefaultPagerKey} {table : Table} {s : CatalogState}

/-- Row `k` decodes to that table. -/
def RowTable (m : Contents) (k : DefaultPagerKey) (table : Table) : Prop :=
  ∃ value root off, m k = some value ∧ deserializeTable value 0 = .ok (table, root) off

/-- Every row decodes, and no two to tables of one name. -/
structure Legible (m : Contents) : Prop where
  decodes : ∀ k, (m k).isSome → ∃ table, RowTable m k table
  distinct : ∀ k k' table table', RowTable m k table → RowTable m k' table' →
    table.name = table'.name → k = k'

/-- The tables of these rows were entered and no others. -/
structure ReadIn (m : Contents) (ks : List DefaultPagerKey) (tables tables' : StdMap Table) :
    Prop where
  read : ∀ k ∈ ks, ∀ table, RowTable m k table → tables'.lookup table.name = some table
  other : ∀ name, (∀ k ∈ ks, ∀ table, RowTable m k table → table.name ≠ name) →
    tables'.lookup name = tables.lookup name

theorem RowTable.unique {table' : Table} (h : RowTable m k table) (h' : RowTable m k table') :
    table' = table := by
  obtain ⟨value, root, off, hm, hd⟩ := h
  obtain ⟨value', root', off', hm', hd'⟩ := h'
  rw [hm] at hm'
  cases hm'
  rw [hd] at hd'
  cases hd'
  rfl

theorem ReadIn.nil {tables : StdMap Table} : ReadIn m [] tables tables :=
  ⟨fun _ hk => absurd hk List.not_mem_nil, fun _ _ => rfl⟩

theorem ReadIn.cons {ks : List DefaultPagerKey} {tables tables' : StdMap Table} (hl : Legible m)
    (hrow : RowTable m k table) (hk : k ∉ ks)
    (h : ReadIn m ks (tables.insert table.name table) tables') :
    ReadIn m (k :: ks) tables tables' := by
  constructor
  · intro k' hk' table' hrow'
    rcases List.mem_cons.mp hk' with rfl | hk'
    · obtain rfl := hrow.unique hrow'
      rw [h.other, AList.lookup_insert]
      intro k'' hk'' table'' hrow'' hname
      exact hk (hl.distinct _ _ _ _ hrow'' hrow hname ▸ hk'')
    · exact h.read k' hk' table' hrow'
  · intro name hname
    rw [h.other name (fun k' hk' => hname k' (List.mem_cons_of_mem _ hk'))]
    exact AList.lookup_insert_ne (hname k List.mem_cons_self table hrow).symm

omit [Build] in
/-- The catalog with the table of a row entered in its maps. -/
def readRow (self : CatalogManager) (oid : DefaultPagerKey) (table : Table) (rootPgno : Nat) :
    CatalogManager :=
  { self with
    tables := self.tables.insert table.name table
    tableOids := self.tableOids.insert table.name oid
    tableRootPages := self.tableRootPages.insert table.name rootPgno
    tableDependencies := pushDependency self.tableDependencies table }

theorem decodeTable_ok {value : List Byte} {root off : Nat}
    (h : deserializeTable value 0 = .ok (table, root) off) :
    decodeTable value s = .ok (table, root) s := by
  rw [decodeTable, h]
  rfl

/-- One round: the row under the cursor is entered, and the cursor goes on. -/
theorem initializeLoop_round {n fuel : Nat} {t : BTree n} {A B : List LeafCell} {v : LeafCell}
    (h : Holds s.pager.disk s.self.schemaCursor t m) (hb : Between s.self.schemaCursor t A v B)
    (hrow : RowTable m v.key table) : ∃ pager self more, initializeLoop (fuel + 1) s =
        (if more = true then initializeLoop fuel else pure ()) ⟨pager, self⟩ ∧
      self.tables = s.self.tables.insert table.name table ∧
      ((more = false ∧ B = []) ∨ ∃ w B', more = true ∧ B = w :: B' ∧
        Holds pager.disk self.schemaCursor t m ∧ Between self.schemaCursor t (A ++ [v]) w B') := by
  obtain ⟨value, root, off, hm, hdec⟩ := hrow
  obtain ⟨_, _, hkey, pager₁, cur₁, rfl, rfl, hd₁, rfl⟩ :=
    runs_onSchemaCursor (h.currentKey hb.standsOn)
  have hval := h.currentValue hb.standsOn hm
  rw [← hd₁] at hval
  obtain ⟨_, _, hread, pager₂, cur₂, rfl, rfl, hd₂, rfl⟩ :=
    runs_onSchemaCursor (s := ⟨pager₁, s.self⟩) hval
  have hnext := next_runs h.good h.valid h.planted hb
  rw [← hd₁, ← hd₂] at hnext
  obtain ⟨more, _, hrun, pager₃, cur₃, rfl, hd₃, st, rfl, hcase⟩ := runs_onSchemaCursor
    (s := ⟨pager₂, s.self.readRow v.key table root⟩) hnext
  refine ⟨pager₃, { s.self.readRow v.key table root with
    schemaCursor := { s.self.schemaCursor with cursor := st } }, more, ?_, rfl, ?_⟩
  · rw [initializeLoop, bind_ok hkey, bind_ok hread, bind_ok (decodeTable_ok hdec)]
    exact bind_ok hrun
  · rcases hcase with ⟨hmore, -, hB⟩ | ⟨w, B', hmore, hB, hw⟩
    · exact .inl ⟨hmore, hB⟩
    · refine .inr ⟨w, B', hmore, hB, ?_, hw⟩
      rw [hd₃, hd₂, hd₁]
      exact ⟨⟨h.good, h.valid, h.planted.setCursor st, hw.placed⟩, h.spells⟩

/-- The scan reads the cell under the cursor and all behind it. -/
theorem initializeLoop_returns {n : Nat} {t : BTree n} (hl : Legible m) (B : List LeafCell) :
    ∀ {A : List LeafCell} {v : LeafCell} {fuel : Nat} {s : CatalogState},
      Holds s.pager.disk s.self.schemaCursor t m → Between s.self.schemaCursor t A v B →
      B.length < fuel → Returns (initializeLoop fuel) s (fun _ s' =>
        ReadIn m ((v :: B).map LeafCell.key) s.self.tables s'.self.tables) := by
  induction B with
  | nil =>
    intro A v fuel s h hb hfuel
    obtain ⟨fuel, rfl⟩ := Nat.exists_eq_add_of_lt hfuel
    have hv : v ∈ entries t.spine := by simp [hb.entries_eq]
    obtain ⟨table, hrow⟩ := hl.decodes v.key (h.spells.isSome_iff.mpr ⟨v, hv, rfl⟩)
    obtain ⟨pager, self, more, heq, htables, ⟨rfl, -⟩ | ⟨w, B', -, hB, -⟩⟩ :=
      initializeLoop_round h hb hrow
    · refine ⟨(), ⟨pager, self⟩, heq, ReadIn.cons hl hrow List.not_mem_nil ?_⟩
      rw [← htables]
      exact .nil
    · cases hB
  | cons b B ih =>
    intro A v fuel s h hb hfuel
    obtain ⟨fuel, rfl⟩ := Nat.exists_eq_add_of_lt hfuel
    have hv : v ∈ entries t.spine := by simp [hb.entries_eq]
    obtain ⟨table, hrow⟩ := hl.decodes v.key (h.spells.isSome_iff.mpr ⟨v, hv, rfl⟩)
    obtain ⟨pager, self, more, heq, htables, ⟨-, hB⟩ | ⟨w, B', rfl, hB, hh, hb'⟩⟩ :=
      initializeLoop_round h hb hrow
    · cases hB
    · cases hB
      rw [Returns, heq]
      refine (ih hh hb' ?_).mono ?_
      · simp only [List.length_cons]
        omega
      · intro _ s' hread
        refine ReadIn.cons hl hrow ?_ (htables ▸ hread)
        -- the keys of a tree are in order, so the first one does not come back
        have hsorted := h.planted.ordered.keySorted_entries
        rw [hb.entries_eq] at hsorted
        rintro hmem
        obtain ⟨u, hu, hkey⟩ := List.mem_map.mp hmem
        exact (hsorted.around.2 u hu).ne hkey.symm

theorem isEmpty_leaf {d : Disk} {cur : BTreeCursor} {l : BTreeLeaf}
    (h : Planted (n := 0) d cur l) :
    Steps isEmpty d cur (decide (l.cells.length = 0)) d cur := by
  obtain ⟨prev, next, hpage⟩ := h.stored
  rw [show l.id = cur.rootPgno from h.root_eq] at hpage
  refine steps_getSelf.then ?_
  have htype : (d.page cur.rootPgno).type? = some .leafPage := by rw [hpage]; rfl
  refine (steps_getPageType htype).then ?_
  refine (steps_loadLeaf hpage).then ?_
  exact steps_pure

/-- A leaf at the root is read in from its first cell to its last. -/
theorem initializeTables_returns {l : BTreeLeaf} (hl : Legible m)
    (h : Holds (n := 0) s.pager.disk s.self.schemaCursor l m) :
    Returns initializeTables s (fun _ s' =>
      ReadIn m (l.cells.map LeafCell.key) s.self.tables s'.self.tables) := by
  have hent : entries (Tree.spine (K := DefaultPagerKey) (n := 0) l) = l.cells := entries_single l
  obtain ⟨_, _, hempty, pager₁, cur₁, rfl, rfl, hd₁, rfl⟩ :=
    runs_onSchemaCursor (isEmpty_leaf h.planted)
  cases hcells : l.cells with
  | nil =>
    refine ⟨(), ⟨pager₁, s.self⟩, ?_, .nil⟩
    rw [initializeTables, bind_ok hempty, hcells]
    rfl
  | cons v B =>
    have hfirst := moveToFirst_runs h.good h.valid h.planted (hent.trans hcells)
    rw [← hd₁] at hfirst
    obtain ⟨_, _, hmove, pager₂, cur₂, rfl, hd₂, st, rfl, hb⟩ :=
      runs_onSchemaCursor (s := ⟨pager₁, s.self⟩) hfirst
    have hh : Holds (n := 0) pager₂.disk { s.self.schemaCursor with cursor := st } l m := by
      rw [hd₂, hd₁]
      exact ⟨⟨h.good, h.valid, h.planted.setCursor st, hb.placed⟩, h.spells⟩
    have hfuel : B.length < pager₂.file.numPages * pageSize + 1 := by
      have hlen : (v :: B).length ≤ leafMaxCells := by
        rw [← hcells]
        exact hh.planted.leaf_length_le (c := (.top : BTreeCtx 0 0)) hh.valid
      have hpos : 0 < pager₂.file.numPages := by
        have hsize := hh.good.sound.size_eq
        have htotal := hh.good.sound.pos
        rw [← hsize] at htotal
        exact htotal
      have hmul : pageSize ≤ pager₂.file.numPages * pageSize := Nat.le_mul_of_pos_left _ hpos
      have hmax : leafMaxCells ≤ pageSize := by decide
      rw [List.length_cons] at hlen
      omega
    have hloop := initializeLoop_returns (s := ⟨pager₂, { s.self with
      schemaCursor := { s.self.schemaCursor with cursor := st } }⟩) hl B hh hb hfuel
    obtain ⟨_, s', hrun, hread⟩ := hloop
    refine ⟨(), s', ?_, hread⟩
    rw [initializeTables, bind_ok hempty, hcells]
    exact (bind_ok hmove).trans hrun

/-- `ensure_schema_page` touches nothing that is in use. -/
theorem ensureSchemaPage_returns {pager : Pager} (hg : pager.disk.Good) :
    Returns ensureSchemaPage pager (fun pgno pager' => pgno = schemaPgno ∧ pager'.disk.Good ∧
      ∀ p, p ≠ 1 → (pager.disk.page p).InUse → pager'.disk.page p = pager.disk.page p) := by
  obtain ⟨hd, h1⟩ := hg.sound.first
  have hnum : getNumPages pager = .ok hd.numPages pager := by
    rw [getNumPages, bind_ok (FirstPageManager.load_ok h1)]
    rfl
  refine Returns.bind_eq hnum ?_
  split_ifs with hlt
  · refine (createRoot_returns hg).bind ?_
    rintro root pager' ⟨-, -, -, hev⟩
    exact returns_pure.mpr ⟨rfl, hev.good, fun p hp hu => hev.same p hp List.not_mem_nil hu⟩
  · exact returns_pure.mpr ⟨rfl, hg, fun _ _ _ => rfl⟩

/-- A catalog over a file whose page 2 is a leaf has the tables of its rows. -/
theorem new_returns {pager : Pager} {l : BTreeLeaf} (hl : Legible m)
    (h : Holds (n := 0) pager.disk ⟨[], schemaPgno, {}⟩ l m) :
    Returns CatalogManager.new pager (fun self _ =>
      ReadIn m (l.cells.map LeafCell.key) ∅ self.tables) := by
  unfold CatalogManager.new
  refine (ensureSchemaPage_returns h.good).bind ?_
  rintro _ pager' ⟨rfl, hg, hsame⟩
  have hb := (holds_iff.mp h).frame hg hsame
  obtain ⟨prev, next, hpage⟩ := hb.planted.stored
  rw [show l.id = schemaPgno from hb.planted.root_eq] at hpage
  have htype : getPageType schemaPgno pager' = .ok .leafPage pager' :=
    getPageType_ok (by rw [hpage]; rfl)
  have hcursor : BTreeCursor.new schemaPgno {} pager' = .ok ⟨[], schemaPgno, {}⟩ pager' := by
    rw [BTreeCursor.new, bind_ok htype, bind_ok (assert_ok (.inr (.inr rfl)))]
    rfl
  refine Returns.bind_eq hcursor ?_
  obtain ⟨hd, h1⟩ := hg.sound.first
  refine Returns.bind_eq (FirstPageManager.load_ok h1) ?_
  exact construct_returns (initializeTables_returns (s := ⟨pager', _⟩) hl (holds_iff.mpr hb))

end Scan

/-! ### One leaf -/

/-- The schema tree is one leaf, on page 2. -/
def SoleLeaf : TreeInv := fun d cur rows =>
  cur.rootPgno = schemaPgno ∧ cur.config = {} ∧ ∃ l : BTreeLeaf, Bears (n := 0) d cur l rows

section Sole

variable [Build] {T : TreeInv} {s : CatalogState} {rows : Rows}

theorem tended_soleLeaf : Tended SoleLeaf where
  good := by
    rintro d cur rows ⟨-, -, l, h⟩
    exact h.good
  frame := by
    rintro d d' cur rows ⟨hroot, hcfg, l, h⟩ hg hs
    exact ⟨hroot, hcfg, l, h.frame hg hs⟩
  move := by
    rintro d cur rows k ⟨hroot, hcfg, l, h⟩
    refine (moveToKey_runs (k := k) h.good h.planted).mono ?_
    rintro found d' cur' ⟨rfl, c, l', i, harr⟩
    have hb : Bears (n := 0) d' cur' l rows := ⟨harr.standing h.toStanding, h.chained⟩
    have hcur : cur'.rootPgno = cur.rootPgno ∧ cur'.config = cur.config := by
      rw [harr.cursor]
      exact ⟨rfl, rfl⟩
    refine ⟨rfl, ⟨hcur.1.trans hroot, hcur.2.trans hcfg, l, hb⟩, ?_⟩
    intro hk
    obtain rfl : found = true := (harr.found_iff h.planted).mpr (h.chained.isSome_iff.mp hk)
    refine .inl ((hb.remove_root (harr.standsOn h.planted)).mono ?_)
    rintro _ d'' cur'' ⟨hcfg', l'', hid, hb'⟩
    refine ⟨?_, hcfg'.trans (hcur.2.trans hcfg), l'', hb'⟩
    have hroot' : l''.id = cur''.rootPgno := hb'.planted.root_eq
    have hold : l.id = cur.rootPgno := h.planted.root_eq
    rw [← hroot', hid, hold, hroot]
  refuse := by
    rintro d cur rows k value ⟨hroot, hcfg, l, h⟩ hcase
    rw [h.chained.isSome_iff, storedRow, Option.map_eq_none_iff] at hcase
    intro u hu hcur
    obtain ⟨e, v, he, hkind, hd, hs, hcfg'⟩ := insert_fails h.toStanding hcase u hu hcur
    refine ⟨e, v, he, hkind, hd, ?_, hcfg'.trans hcfg, l, hs, h.chained⟩
    have hroot' : l.id = v.self.rootPgno := hs.planted.root_eq
    have hold : l.id = cur.rootPgno := h.planted.root_eq
    rw [← hroot', hold, hroot]

omit [Build] in
theorem soleLeaf_empty {d : Disk} (hg : d.Good)
    (hpage : d.page schemaPgno = .leaf [] nullPage nullPage) :
    SoleLeaf d ⟨[], schemaPgno, {}⟩ (fun _ => none) :=
  ⟨rfl, rfl, _, holds_iff.mp (holds_empty hg default_valid rfl hpage)⟩

omit [Build] in
/-- There are as many tables as there are rows. -/
theorem Mirrored.length_eq {d : Disk} {cells : List LeafCell} (h : Mirrored T s rows)
    (hc : Chained d cells rows) (hnd : (cells.map LeafCell.key).Nodup) :
    s.self.tables.keys.length = cells.length := by
  have hoid : ∀ name ∈ s.self.names, ∃ k, s.self.tableOids.lookup name = some k := by
    intro name hn
    rw [mem_names, ← h.names] at hn
    exact Option.isSome_iff_exists.mp hn
  rw [← card_names, ← List.length_map (f := LeafCell.key), ← List.toFinset_card_of_nodup hnd]
  refine Finset.card_bij (fun name _ => s.self.tableOids.at name 0) ?_ ?_ ?_
  · intro name hn
    obtain ⟨k, ho⟩ := hoid name hn
    rw [StdMap.at, ho, List.mem_toFinset, List.mem_map]
    exact hc.isSome_iff.mp ((h.keys k).mpr ⟨name, ho⟩)
  · intro name hn name' hn' heq
    obtain ⟨k, ho⟩ := hoid name hn
    obtain ⟨k', ho'⟩ := hoid name' hn'
    rw [StdMap.at, StdMap.at, ho, ho'] at heq
    exact h.distinct name name' k ho (ho'.trans (congrArg some heq.symm))
  · intro k hk
    rw [List.mem_toFinset, List.mem_map] at hk
    obtain ⟨name, ho⟩ := (h.keys k).mp (hc.isSome_iff.mpr hk)
    refine ⟨name, mem_names.mpr ((h.names name).mp (by rw [ho]; rfl)), ?_⟩
    rw [StdMap.at, ho]
    rfl

omit [Build] in
theorem Mirrored.length_leaf {d : Disk} {cur : BTreeCursor} {l : BTreeLeaf} (h : Mirrored T s rows)
    (hb : Bears (n := 0) d cur l rows) : s.self.tables.keys.length = l.cells.length := by
  have hc := hb.chained
  have hs := hb.planted.ordered.keySorted_entries
  rw [entries_single] at hc hs
  exact h.length_eq hc (List.pairwise_map.mpr (hs.imp (fun hlt => hlt.ne)))

theorem Mirrored.soleLeaf_takes {d : Disk} {k : DefaultPagerKey} {value : List Byte}
    (h : Mirrored SoleLeaf s rows) (hroom : s.self.tables.keys.length < leafMaxCells)
    (hd : SoleLeaf d s.self.schemaCursor rows) :
    Takes SoleLeaf d s.self.schemaCursor rows k value := by
  obtain ⟨hroot, hcfg, l, hb⟩ := hd
  intro r hk hr
  obtain ⟨chunks, hch, rfl⟩ := Option.map_eq_some_iff.mp hr
  have hlt : l.cells.length < s.self.schemaCursor.config.leafMaxCells := by
    rw [hcfg, ← h.length_leaf hb]
    exact hroom
  refine (hb.insert_room hk hch hlt).mono ?_
  rintro _ d' cur' ⟨hcfg', l', hid, hb'⟩
  refine ⟨?_, hcfg'.trans hcfg, l', hb'⟩
  have hroot' : l'.id = cur'.rootPgno := hb'.planted.root_eq
  have hold : l.id = s.self.schemaCursor.rootPgno := hb.planted.root_eq
  rw [← hroot', hid, hold, hroot]

end Sole

/-! ### The second catalog -/

section Second

variable [Build] {T : TreeInv} {s : CatalogState} {rows : Rows} {m : Contents} {table : Table}

/-- A second catalog over the same file has the same tables. -/
def Reopens (s : CatalogState) : Prop :=
  Returns CatalogManager.new s.pager (fun self _ =>
    ∀ name, self.getTable name = s.self.getTable name)

/-- A new name, a row that can be read back, and room for it in one leaf. -/
def Roomy (s : CatalogState) : Op → Prop
  | .createTable table => s.self.tables.lookup table.name = none ∧ Readable table ∧
      s.self.tables.keys.length < leafMaxCells
  | .dropTable _ => True

/-- A new name, and counts that fit their 16 bits. -/
def Countable (s : CatalogState) : Op → Prop
  | .createTable table => s.self.tables.lookup table.name = none ∧ table.Narrow
  | .dropTable _ => True

theorem Reached.mono {Ok Ok' : CatalogState → Op → Prop} (h : Reached Ok s)
    (hi : ∀ s op, Ok s op → Ok' s op) : Reached Ok' s := by
  induction h with
  | new h => exact .new h
  | step _ hop hup ih => exact .step ih (hi _ _ hop) hup

theorem Reached.sane (h : Reached Roomy s) : Reached Sane s := by
  refine h.mono ?_
  rintro s (table | name) hop
  · exact ⟨hop.1, hop.2.1⟩
  · exact trivial

theorem Reached.soleLeaf (h : Reached Roomy s) : ∃ rows, Mirrored SoleLeaf s rows := by
  induction h with
  | new h => exact ⟨_, (mirrored_new h (fun d hg hp => soleLeaf_empty hg hp)).1⟩
  | @step s op h hop hup ih =>
    obtain ⟨rows, hm⟩ := ih
    cases op with
    | createTable table =>
      obtain ⟨rows', hm', -⟩ := hm.createTable tended_soleLeaf hop.1
        (fun d root => hm.soleLeaf_takes hop.2.2)
      exact ⟨rows', hm'⟩
    | dropTable name =>
      obtain ⟨-, rows', hm', -, -⟩ := (hm.dropTable tended_soleLeaf (.inr hup)).after
      exact ⟨rows', hm'⟩

theorem RowTable.rowNamed {k : DefaultPagerKey} (h : RowTable m k table) :
    RowNamed m k table.name := by
  obtain ⟨value, root, off, hv, hd⟩ := h
  exact ⟨value, table, root, off, hv, hd, rfl⟩

theorem MirrorOf.rowTable {k : DefaultPagerKey} {name : Str} (h : MirrorOf s m)
    (ho : s.self.tableOids.lookup name = some k) (ht : s.self.tables.lookup name = some table) :
    RowTable m k table := by
  obtain ⟨value, table', root, hv, hd, ht', -⟩ := h.decodes name k ho
  rw [ht] at ht'
  cases ht'
  exact ⟨value, root, _, hv, hd⟩

theorem MirrorOf.legible (h : MirrorOf s m) (hm : Mirrored T s rows) : Legible m := by
  constructor
  · intro k hk
    obtain ⟨name, ho⟩ := (h.keys k).mp hk
    obtain ⟨table, ht⟩ := Option.isSome_iff_exists.mp ((h.names name).mp (by rw [ho]; rfl))
    exact ⟨table, h.rowTable ho ht⟩
  · intro k k' table table' hrow hrow' hname
    have ho := h.rowNamed hm hrow.rowNamed
    rw [hname, h.rowNamed hm hrow'.rowNamed] at ho
    cases ho
    rfl

/-- Who reads all rows in has the tables that they mirror. -/
theorem MirrorOf.readIn {ks : List DefaultPagerKey} {tables : StdMap Table} (h : MirrorOf s m)
    (hm : Mirrored T s rows) (hks : ∀ k, (m k).isSome → k ∈ ks) (hr : ReadIn m ks ∅ tables)
    (name : Str) : tables.lookup name = s.self.tables.lookup name := by
  cases ht : s.self.tables.lookup name with
  | some table =>
    obtain ⟨k, ho⟩ := Option.isSome_iff_exists.mp ((h.names name).mpr (by rw [ht]; rfl))
    rw [← hm.named name table ht]
    exact hr.read k (hks k ((h.keys k).mpr ⟨name, ho⟩)) table (h.rowTable ho ht)
  | none =>
    refine hr.other name ?_
    rintro k - table hrow rfl
    have hsome := (h.names table.name).mp (by rw [h.rowNamed hm hrow.rowNamed]; rfl)
    rw [ht] at hsome
    cases hsome

/-- What a second catalog finds where page 2 is a leaf with the rows of the first. -/
theorem MirrorOf.reopens {pager : Pager} {l : BTreeLeaf} (h : MirrorOf s m)
    (hm : Mirrored T s rows) (hh : Holds (n := 0) pager.disk ⟨[], schemaPgno, {}⟩ l m) :
    Returns CatalogManager.new pager (fun self _ =>
      ∀ name, self.getTable name = s.self.getTable name) := by
  refine (new_returns (h.legible hm) hh).mono ?_
  intro self _ hr name
  refine h.readIn hm ?_ hr name
  intro k hk
  obtain ⟨v, hv, hkey⟩ := hh.spells.isSome_iff.mp hk
  rw [entries_single] at hv
  exact List.mem_map.mpr ⟨v, hv, hkey⟩

omit [Build] in
/-- The leaf of the schema tree, as a cursor that has not been moved sees it. -/
theorem SoleLeaf.unmoved {d : Disk} {cur : BTreeCursor} (h : SoleLeaf d cur rows) :
    ∃ l : BTreeLeaf, Bears (n := 0) d ⟨[], schemaPgno, {}⟩ l rows ∧ Bears (n := 0) d cur l rows := by
  obtain ⟨hroot, hcfg, l, hb⟩ := h
  exact ⟨l, hb.retake hroot.symm hcfg.symm (.inl rfl), hb⟩

theorem Reached.mirrorOf (h : Reached Roomy s) : ∃ rows m, Mirrored SoleLeaf s rows ∧
    m.rows = rows ∧ MirrorOf s m := by
  obtain ⟨rows, hm⟩ := h.soleLeaf
  have hany : Mirrored AnyTree s rows := by
    obtain ⟨-, -, l, hb⟩ := hm.tree
    exact { hm with tree := ⟨0, l, hb⟩ }
  obtain ⟨m, hrows, hmo⟩ := hany.mirrorOf h.sane.readable.2
  exact ⟨rows, m, hm, hrows, hmo⟩

/-- As long as the tables fit into one leaf, a second catalog has the tables of the first. -/
theorem reached_reopens (h : Reached Roomy s) : Reopens s := by
  obtain ⟨rows, m, hm, rfl, hmo⟩ := h.mirrorOf
  obtain ⟨l, hb, -⟩ := hm.tree.unmoved
  exact hmo.reopens hm (holds_iff.mpr hb)

/-- The first table that does not fit moves the tree away from page 2, and a second catalog does
not find it. -/
theorem createTable_full (h : Reached Roomy s) (hfull : s.self.tables.keys.length = leafMaxCells)
    (habs : s.self.tables.lookup table.name = none) (hread : Readable table)
    (hfree : ∀ name, s.self.tableOids.lookup name ≠ some s.self.nextOid) :
    ¬ Crashes (CatalogManager.createTable table) s ∧
      ¬ Reopens (after (CatalogManager.createTable table) s) := by
  obtain ⟨rows, m, hm, rfl, hmo⟩ := h.mirrorOf
  obtain ⟨l, hb, hcur⟩ := hm.tree.unmoved
  obtain ⟨hroot, hcfg, -⟩ := hm.tree
  -- the leaf is kept on page 2 all along
  let Left : TreeInv := fun d _ _ => Bears (n := 0) d ⟨[], schemaPgno, {}⟩ l m.rows
  have hleft : Framed Left := ⟨fun h => h.good, fun h hg hs => h.frame hg hs⟩
  have hk : m.rows s.self.nextOid = none := by
    rw [← Option.not_isSome_iff_eq_none, hm.keys, not_exists]
    exact hfree
  have htakes : ∀ d root, Left d s.self.schemaCursor m.rows →
      Takes Left d s.self.schemaCursor m.rows s.self.nextOid (serializeTable table root) := by
    intro d root hd r _ hr
    obtain ⟨chunks, hch, -⟩ := Option.map_eq_some_iff.mp hr
    have hd' : Bears (n := 0) d s.self.schemaCursor l m.rows := hd.retake hroot hcfg hcur.placed
    refine (hd'.insert_full hk hch ?_).mono ?_
    · rw [hcfg, ← hm.length_leaf hcur]
      exact hfull
    · intro _ d'' _ hb''
      exact hb''.retake hroot.symm hcfg.symm (.inl rfl)
  have hret := createTable_returns hleft hb htakes hk
    (fun root => by rw [storedRow_eq (hread.short root)]; exact Option.some_ne_none _)
  obtain ⟨_, s', hrun, pager, cur, root, r, rfl, -, -, -, hold⟩ := hret
  constructor
  · rintro ⟨t, ht⟩
    rw [hrun] at ht
    cases ht
  · rw [after, hrun]
    intro hre
    obtain ⟨self, pager', hnew, hsame⟩ := hre
    obtain ⟨self', pager'', hnew', hsame'⟩ := hmo.reopens hm (holds_iff.mpr hold)
    rw [hnew] at hnew'
    cases hnew'
    have hnone := hsame' table.name
    rw [hsame table.name, getTable, getTable, habs] at hnone
    have hsome : (s.self.record table root cur).tables.lookup table.name = some table :=
      AList.lookup_insert _
    rw [hsome] at hnone
    cases hnone

/-! ### A full leaf -/

/-- A table whose name is `n` letters. -/
def numbered (n : Nat) : Table := plainTable (List.replicate n 97) (List.replicate n 97)

/-- The first `n` of them have been created. -/
structure Stocked (n : Nat) (s : CatalogState) : Prop where
  reached : Reached Roomy s
  length : s.self.tables.keys.length = n
  next : s.self.nextOid.val = n + 1
  oids : ∀ name k, s.self.tableOids.lookup name = some k → k.val ≤ n
  names : ∀ i, n ≤ i → s.self.tables.lookup (List.replicate i 97) = none

omit [Build] in
theorem numbered_readable {n : Nat} (h : n ≤ leafMaxCells) : Readable (numbered n) := by
  have hmax : leafMaxCells ≤ 65535 := by decide
  refine plainTable_readable ?_ ?_ <;> rw [List.length_replicate] <;> omega

theorem Stocked.free {n : Nat} (h : Stocked n s) (name : Str) :
    s.self.tableOids.lookup name ≠ some s.self.nextOid := by
  intro ho
  have hle := h.oids name _ ho
  rw [h.next] at hle
  omega

theorem Stocked.more {n : Nat} (h : Stocked n s) (hn : n < leafMaxCells) :
    Stocked (n + 1) (after (createTable (numbered n)) s) := by
  obtain ⟨rows, hm⟩ := h.reached.soleLeaf
  have hroom : s.self.tables.keys.length < leafMaxCells := h.length ▸ hn
  have hread := numbered_readable hn.le
  have hk : rows s.self.nextOid = none := by
    rw [← Option.not_isSome_iff_eq_none, hm.keys, not_exists]
    exact h.free
  obtain ⟨_, s', hrun, pager, cur, root, r, rfl, -⟩ := createTable_returns
    tended_soleLeaf.toFramed hm.tree (fun d root => hm.soleLeaf_takes hroom) hk
    (fun root => by rw [storedRow_eq (hread.short root)]; exact Option.some_ne_none _)
  have habs := h.names n le_rfl
  have hup : ¬ Crashes (createTable (numbered n)) s := by
    rintro ⟨t, ht⟩
    rw [hrun] at ht
    cases ht
  have hstep : Reached Roomy (after (Op.createTable (numbered n)).run s) :=
    .step h.reached ⟨habs, hread, hroom⟩ hup
  rw [Op.run] at hstep
  rw [after, hrun] at hstep ⊢
  refine ⟨hstep, ?_, ?_, ?_, ?_⟩
  · have hnot : (numbered n).name ∉ s.self.tables := by
      rw [← AList.lookup_eq_none]
      exact habs
    change (s.self.tables.insert (numbered n).name (numbered n)).keys.length = n + 1
    rw [AList.keys, List.keys, AList.entries_insert_of_notMem hnot, List.map_cons, List.length_cons]
    exact congrArg (· + 1) h.length
  · have hmax : leafMaxCells < 65535 := by decide
    change (s.self.nextOid + 1).val = n + 1 + 1
    have hone : (1 : DefaultPagerKey).val = 1 := rfl
    rw [Fin.val_add, h.next, hone]
    exact Nat.mod_eq_of_lt (by omega)
  · intro name k ho
    change (s.self.tableOids.insert (numbered n).name s.self.nextOid).lookup name = some k at ho
    by_cases hne : name = (numbered n).name
    · subst hne
      rw [AList.lookup_insert] at ho
      cases ho
      exact h.next.le
    · rw [AList.lookup_insert_ne hne] at ho
      exact (h.oids name k ho).trans (Nat.le_succ n)
  · intro i hi
    have hne : List.replicate i 97 ≠ (numbered n).name := by
      intro heq
      have hlen := congrArg List.length heq
      rw [numbered, plainTable, List.length_replicate, List.length_replicate] at hlen
      omega
    change (s.self.tables.insert (numbered n).name (numbered n)).lookup _ = none
    rw [AList.lookup_insert_ne hne]
    exact h.names i (by omega)

/-- A full leaf can be reached, if the first oid is 1. -/
theorem stocked_full (hnext : fresh.self.nextOid.val = 1) :
    ∀ n, n ≤ leafMaxCells → ∃ s, Stocked n s := by
  intro n
  induction n with
  | zero =>
    intro _
    obtain ⟨htables, hoids, -⟩ := fresh_maps
    refine ⟨fresh, .new new_ok, ?_, hnext, ?_, ?_⟩
    · rw [htables]
      rfl
    · intro name k ho
      rw [hoids] at ho
      cases ho
    · intro i _
      rw [htables]
      rfl
  | succ n ih =>
    intro hn
    obtain ⟨s, hs⟩ := ih (by omega)
    exact ⟨_, hs.more (by omega)⟩

theorem exists_not_reopens (hnext : fresh.self.nextOid.val = 1) :
    ∃ s, Reached Countable s ∧ ¬ Reopens s := by
  obtain ⟨s, hs⟩ := stocked_full hnext leafMaxCells le_rfl
  have hread := numbered_readable (le_refl leafMaxCells)
  have habs : s.self.tables.lookup (numbered leafMaxCells).name = none := hs.names leafMaxCells le_rfl
  obtain ⟨hup, hnot⟩ := createTable_full hs.reached hs.length habs hread hs.free
  have hr : Reached Countable s := by
    refine hs.reached.mono ?_
    rintro s (table | name) hop
    · exact ⟨hop.1, hop.2.1.toNarrow⟩
    · exact trivial
  have hstep : Reached Countable (after (Op.createTable (numbered leafMaxCells)).run s) :=
    .step hr ⟨habs, hread.toNarrow⟩ hup
  exact ⟨_, hstep, hnot⟩

end Second

theorem twoTables_fit : @OkAll ⟨true⟩ (fun s op => Absent s op ∧
      s.self.tables.keys.length < leafMaxCells)
    [.createTable (plainTable [97] [97]), .createTable (plainTable [98] [98])] (@fresh ⟨true⟩) := by
  decide +kernel

theorem reached_reopens_two :
    @Reopens ⟨true⟩ (@runOps ⟨true⟩ [.createTable (plainTable [97] [97]),
      .createTable (plainTable [98] [98])] (@fresh ⟨true⟩)) := by
  have hroomy := @OkAll.mono ⟨true⟩ _ Roomy _ _ twoTables_fit (by
    intro s op hop hfit
    simp only [List.mem_cons, List.not_mem_nil, or_false] at hop
    rcases hop with rfl | rfl
    · exact ⟨hfit.1, plainTable_readable (by decide) (by decide), hfit.2⟩
    · exact ⟨hfit.1, plainTable_readable (by decide) (by decide), hfit.2⟩)
  exact @reached_reopens ⟨true⟩ _ (@Reached.runOps ⟨true⟩ _ _ _
    (@Reached.new ⟨true⟩ _ _ _ (@new_ok ⟨true⟩)) hroomy)

theorem fresh_nextOid : (@fresh ⟨true⟩).self.nextOid.val = 1 := by
  decide +kernel

/-- One table more than a leaf has room for. -/
theorem reached_reopens_fails :
    ¬ ∀ s, @Reached ⟨true⟩ Countable s → @Reopens ⟨true⟩ s := by
  intro h
  obtain ⟨s, hs, hnot⟩ := @exists_not_reopens ⟨true⟩ fresh_nextOid
  exact hnot (h s hs)

end CatalogManager

end Cpplite
