import Cpplite.Catalog.Mirror

/-!
The catalog over whole runs. As long as no name is created twice, every reached catalog
mirrors its schema tree, and `drop_table` removes what the dependency lists lead to.
-/
namespace Cpplite

open Exec Encoding Schema HeightTree Sweep

namespace CatalogManager

inductive Op where
  | createTable (table : Table)
  | dropTable (name : Str)

section Reached

variable [Build]

def Op.run : Op → CatalogM Unit
  | .createTable table => CatalogManager.createTable table
  | .dropTable name => CatalogManager.dropTable name

/-- A failed assertion ends the process. -/
def Crashes (x : CatalogM Unit) (s : CatalogState) : Prop := ∃ t, x s = .error .assertion t

/-- Whether it does, by running the call. -/
def crashes? (x : CatalogM Unit) (s : CatalogState) : Bool :=
  match x s with
  | .error .assertion _ => true
  | _ => false

omit [Build] in
theorem crashes_iff {x : CatalogM Unit} {s : CatalogState} : Crashes x s ↔ crashes? x s = true := by
  unfold Crashes crashes?
  cases x s with
  | ok a t => simp
  | error e t => cases e <;> simp

instance {x : CatalogM Unit} {s : CatalogState} : Decidable (Crashes x s) :=
  decidable_of_iff _ crashes_iff.symm

/-- A catalog over a fresh file. -/
def fresh : CatalogState :=
  match CatalogManager.new Pager.fresh with
  | .ok self pager => ⟨pager, self⟩
  | .error _ pager => ⟨pager, ⟨∅, ∅, ∅, ∅, ⟨[], schemaPgno, {}⟩, 0, ⟨0, 0, 0⟩⟩⟩

/-- One call after the other. -/
def runOps (ops : List Op) (s : CatalogState) : CatalogState :=
  ops.foldl (fun s op => after op.run s) s

/-- The catalogs over a fresh file, between calls that meet the condition; calls that raise are
included. -/
inductive Reached (Ok : CatalogState → Op → Prop) : CatalogState → Prop where
  | new {self : CatalogManager} {pager : Pager} (h : CatalogManager.new Pager.fresh = .ok self pager) :
      Reached Ok ⟨pager, self⟩
  | step {s : CatalogState} {op : Op} (h : Reached Ok s) (hop : Ok s op)
      (hup : ¬ Crashes op.run s) : Reached Ok (after op.run s)

/-- No table of that name is there yet. -/
def Absent (s : CatalogState) : Op → Prop
  | .createTable table => s.self.tables.lookup table.name = none
  | .dropTable _ => True

/-- The row can be read back. -/
structure Readable (table : Table) : Prop extends table.Narrow where
  short : ∀ root, (serializeTable table root).length ≤ chainLimit

/-- A new name, and a table whose row can be read back. -/
def Sane (s : CatalogState) : Op → Prop
  | .createTable table => s.self.tables.lookup table.name = none ∧ Readable table
  | .dropTable _ => True

variable {s : CatalogState} {rows : Rows} {T : TreeInv}

omit [Build] in
theorem construct_returns {self : CatalogManager} {x : CatalogM Unit} {pager : Pager}
    {Q : CatalogManager → Pager → Prop}
    (h : Returns x ⟨pager, self⟩ (fun _ s => Q s.self s.pager)) :
    Returns (construct self x) pager Q := by
  obtain ⟨a, t, hx, hq⟩ := h
  exact ⟨t.self, t.pager, by rw [construct, hx], hq⟩

/-- The constructor on a fresh file: an empty leaf on page 2 and empty maps. -/
theorem new_fresh : Returns CatalogManager.new Pager.fresh (fun self pager =>
    ∃ fpm, self = ⟨∅, ∅, ∅, ∅, ⟨[], schemaPgno, {}⟩, fpm.nextOid, fpm⟩ ∧ pager.disk.Good ∧
      pager.disk.page schemaPgno = .leaf [] nullPage nullPage) := by
  have hensure : Returns ensureSchemaPage Pager.fresh (fun pgno pager => pgno = schemaPgno ∧
      pager.disk.Good ∧ pager.disk.page schemaPgno = .leaf [] nullPage nullPage) := by
    refine Returns.bind_eq (a := 1) (t := Pager.fresh) rfl ?_
    refine (createRoot_returns fresh_good).bind ?_
    rintro root pager ⟨rfl, hpage, -, hev⟩
    exact returns_pure.mpr ⟨rfl, hev.good, hpage⟩
  unfold CatalogManager.new
  refine hensure.bind ?_
  rintro _ pager ⟨rfl, hg, hpage⟩
  have htype : getPageType schemaPgno pager = .ok .leafPage pager :=
    getPageType_ok (by rw [hpage]; rfl)
  have hcursor : BTreeCursor.new schemaPgno {} pager = .ok ⟨[], schemaPgno, {}⟩ pager := by
    rw [BTreeCursor.new, bind_ok htype, bind_ok (assert_ok (.inr (.inr rfl)))]
    rfl
  refine Returns.bind_eq hcursor ?_
  obtain ⟨hd, h1⟩ := hg.sound.first
  refine Returns.bind_eq (FirstPageManager.load_ok h1) ?_
  have hempty : Steps isEmpty pager.disk ⟨[], schemaPgno, {}⟩ true pager.disk
      ⟨[], schemaPgno, {}⟩ := by
    refine steps_getSelf.then ?_
    have hleaf : (pager.disk.page schemaPgno).type? = some .leafPage := by
      rw [hpage]
      rfl
    refine (steps_getPageType hleaf).then ?_
    refine (steps_loadLeaf hpage).then ?_
    exact steps_pure
  refine construct_returns ?_
  refine (runs_onSchemaCursor (s := ⟨pager, ⟨∅, ∅, ∅, ∅, ⟨[], schemaPgno, {}⟩, hd.nextOid,
    ⟨hd.numPages, hd.freePageHead, hd.nextOid⟩⟩⟩) hempty).bind ?_
  rintro _ _ ⟨pager', cur, rfl, rfl, hd', rfl⟩
  refine returns_pure.mpr ⟨⟨hd.numPages, hd.freePageHead, hd.nextOid⟩, rfl, ?_, ?_⟩
  · rw [hd']
    exact hg
  · rw [hd']
    exact hpage

theorem new_ok : CatalogManager.new Pager.fresh = .ok fresh.self fresh.pager := by
  obtain ⟨self, pager, h, -⟩ := new_fresh
  rw [fresh, h]

/-- A fresh catalog has nothing in its maps. -/
theorem fresh_maps : fresh.self.tables = ∅ ∧ fresh.self.tableOids = ∅ ∧
    fresh.self.tableDependencies = ∅ := by
  obtain ⟨fpm, hself, -, -⟩ := (returns_of_eq new_ok).mp new_fresh
  rw [hself]
  exact ⟨rfl, rfl, rfl⟩

theorem mirrored_new {self : CatalogManager} {pager : Pager}
    (h : CatalogManager.new Pager.fresh = .ok self pager)
    (ht : ∀ d : Disk, d.Good → d.page schemaPgno = .leaf [] nullPage nullPage →
      T d ⟨[], schemaPgno, {}⟩ (fun _ => none)) :
    Mirrored T ⟨pager, self⟩ (fun _ => none) ∧ self.tables = ∅ := by
  obtain ⟨fpm, rfl, hg, hpage⟩ := (returns_of_eq h).mp new_fresh
  refine ⟨⟨ht _ hg hpage, ?_, ?_, ?_, ?_, ?_, ?_⟩, rfl⟩ <;> simp

omit [Build] in
theorem anyTree_empty {d : Disk} (hg : d.Good)
    (hpage : d.page schemaPgno = .leaf [] nullPage nullPage) :
    AnyTree d ⟨[], schemaPgno, {}⟩ (fun _ => none) :=
  ⟨0, _, holds_iff.mp (holds_empty hg default_valid rfl hpage)⟩

/-! ### One call -/

omit [Build] in
theorem Mirrored.untouched {s' : CatalogState} (h : Mirrored T s rows) (hu : Untouched T s rows s') :
    Mirrored T s' rows := by
  obtain ⟨pager, cur, rfl, ht⟩ := hu
  exact ⟨ht, h.keys, h.names, h.distinct, h.named, h.row, h.listed⟩

/-- After a `create_table`, returned or raised, the tables are the old ones and perhaps the new. -/
theorem Mirrored.createTable (hT : Tended T) (h : Mirrored T s rows) {table : Table}
    (hname : s.self.tables.lookup table.name = none)
    (htake : ∀ d root, T d s.self.schemaCursor rows →
      Takes T d s.self.schemaCursor rows s.self.nextOid (serializeTable table root)) :
    ∃ rows', Mirrored T (after (createTable table) s) rows' ∧
      ∀ name t, (after (CatalogManager.createTable table) s).self.tables.lookup name = some t →
        t = table ∨ s.self.tables.lookup name = some t := by
  refine Exec.Ends.after (R := fun s' => ∃ rows', Mirrored T s' rows' ∧ ∀ name t,
    s'.self.tables.lookup name = some t → t = table ∨ s.self.tables.lookup name = some t) ?_
  have hends := createTable_ends hT h.tree htake
  cases hx : CatalogManager.createTable table s with
  | ok a s' =>
    simp only [Exec.Ends, hx] at hends ⊢
    obtain ⟨pager, cur, root, r, rfl, hroot, hk, hr, ht⟩ := hends
    refine ⟨_, h.record hname hk hroot hr ht, ?_⟩
    intro name t hl
    by_cases hne : name = table.name
    · subst hne
      rw [show (s.self.record table root cur).tables = s.self.tables.insert table.name table from rfl,
        AList.lookup_insert] at hl
      cases hl
      exact .inl rfl
    · rw [show (s.self.record table root cur).tables = s.self.tables.insert table.name table from rfl,
        AList.lookup_insert_ne hne] at hl
      exact .inr hl
  | error e s' =>
    simp only [Exec.Ends, hx] at hends ⊢
    refine ⟨rows, h.untouched hends, ?_⟩
    obtain ⟨pager, cur, rfl, -⟩ := hends
    exact fun name t hl => .inr hl

/-- A `drop_table` that does not crash returns. -/
theorem Mirrored.dropTable (hT : Tended T) (h : Mirrored T s rows) {name : Str}
    (hup : Build.ndebug = true ∨ ¬ Crashes (dropTable name) s) :
    Returns (CatalogManager.dropTable name) s (fun _ => Dropped T [name] s rows) := by
  have hdrop : ReturnsUnless Aborted (CatalogManager.dropTable name) s
      (fun _ => Dropped T [name] s rows) := by
    unfold CatalogManager.dropTable
    refine ReturnsUnless.bind_eq (a := s.self) rfl ?_
    exact dropFrom_spec hT _ name s rows h (by rw [card_names]; exact Nat.lt_succ_self _)
  refine hdrop.returns ?_
  rintro e t he ⟨hn, rfl⟩
  rcases hup with hb | hc
  · rw [hb] at hn
    cases hn
  · exact hc ⟨t, he⟩

/-! ### Every reached catalog -/

theorem Reached.mirrored (h : Reached Absent s) : ∃ rows, Mirrored AnyTree s rows := by
  induction h with
  | new h => exact ⟨_, (mirrored_new h (fun d hg hp => anyTree_empty hg hp)).1⟩
  | @step s op h hop hup ih =>
    obtain ⟨rows, hm⟩ := ih
    cases op with
    | createTable table =>
      obtain ⟨rows', hm', -⟩ := hm.createTable tended_anyTree hop (fun d root => anyTree_takes)
      exact ⟨rows', hm'⟩
    | dropTable name =>
      obtain ⟨-, rows', hm', -, -⟩ := (hm.dropTable tended_anyTree (.inr hup)).after
      exact ⟨rows', hm'⟩

/-- In a sane run every table's row can be read back. -/
theorem Reached.readable (h : Reached Sane s) : Reached Absent s ∧
    ∀ name table, s.self.tables.lookup name = some table → Readable table := by
  induction h with
  | new h =>
    refine ⟨.new h, ?_⟩
    intro name table hl
    rw [show (CatalogState.mk _ _).self.tables = ∅ from
      (mirrored_new h (fun d hg hp => anyTree_empty hg hp)).2] at hl
    cases hl
  | @step s op h hop hup ih =>
    obtain ⟨hr, hread⟩ := ih
    obtain ⟨rows, hm⟩ := hr.mirrored
    cases op with
    | createTable table =>
      refine ⟨.step hr hop.1 hup, ?_⟩
      obtain ⟨-, -, htab⟩ := hm.createTable tended_anyTree hop.1 (fun d root => anyTree_takes)
      intro name t hl
      rcases htab name t hl with rfl | hold
      · exact hop.2
      · exact hread name t hold
    | dropTable name =>
      refine ⟨.step hr trivial hup, ?_⟩
      obtain ⟨-, rows', -, hk, -⟩ := (hm.dropTable tended_anyTree (.inr hup)).after
      intro name' t hl
      have hin : name' ∈ (after (Op.dropTable name).run s).self.names := by
        rw [mem_names, hl]
        rfl
      refine hread name' t ?_
      rw [← hk.tables name' hin]
      exact hl

/-- The maps mirror the map `m` that the schema tree stands for, row by row. -/
structure MirrorOf (s : CatalogState) (m : Contents) : Prop where
  represents : Represents ⟨s.pager, s.self.schemaCursor⟩ m
  keys : ∀ k, (m k).isSome ↔ ∃ name, s.self.tableOids.lookup name = some k
  names : ∀ name, (s.self.tableOids.lookup name).isSome ↔ (s.self.tables.lookup name).isSome
  distinct : ∀ name name' k, s.self.tableOids.lookup name = some k →
    s.self.tableOids.lookup name' = some k → name = name'
  decodes : ∀ name k, s.self.tableOids.lookup name = some k → ∃ value table root,
    m k = some value ∧ deserializeTable value 0 = .ok (table, root) value.length ∧
    s.self.tables.lookup name = some table ∧ s.self.tableRootPages.lookup name = some root

/-- Row `k` decodes to a table of that name. -/
def RowNamed (m : Contents) (k : DefaultPagerKey) (name : Str) : Prop :=
  ∃ value table root off, m k = some value ∧ deserializeTable value 0 = .ok (table, root) off ∧
    table.name = name

/-- The mirror, with one row for each name at most. -/
def Mirror (s : CatalogState) : Prop :=
  ∃ m, MirrorOf s m ∧ ∀ name k k', RowNamed m k name → RowNamed m k' name → k = k'

/-- No row of the schema tree has that name. -/
def Cleared (s : CatalogState) (name : Str) : Prop :=
  ∃ m, Represents ⟨s.pager, s.self.schemaCursor⟩ m ∧ ∀ k, ¬ RowNamed m k name

omit [Build] in
theorem storedRow_eq {payload : List Byte} (h : payload.length ≤ chainLimit) :
    storedRow payload = some (payload.length, payload) := by
  obtain ⟨chunks, hch, hflat⟩ := payloadChunks_eq h
  have hmod : payload.length % 2 ^ 32 = payload.length := by
    rw [chainLimit_eq] at h
    omega
  rw [storedRow, hch, Option.map_some, hflat, hmod]

theorem Mirrored.mirrorOf (h : Mirrored AnyTree s rows)
    (hread : ∀ name table, s.self.tables.lookup name = some table → Readable table) :
    ∃ m : Contents, m.rows = rows ∧ MirrorOf s m := by
  have hrow : ∀ name k, s.self.tableOids.lookup name = some k → ∃ table root,
      s.self.tables.lookup name = some table ∧ s.self.tableRootPages.lookup name = some root ∧
      root < 2 ^ 64 ∧ Readable table ∧
      rows k = some ((serializeTable table root).length, serializeTable table root) := by
    intro name k ho
    obtain ⟨table, ht⟩ := Option.isSome_iff_exists.mp ((h.names name).mp (by rw [ho]; rfl))
    obtain ⟨root, hlt, hroot, hr⟩ := h.row name k table ho ht
    have hrd := hread name table ht
    exact ⟨table, root, ht, hroot, hlt, hrd, by rw [hr, storedRow_eq (hrd.short root)]⟩
  have hsized : ∀ k r, rows k = some r → r.1 = r.2.length := by
    intro k r hr
    obtain ⟨name, ho⟩ := (h.keys k).mp (by rw [hr]; rfl)
    obtain ⟨table, root, -, -, -, -, hr'⟩ := hrow name k ho
    rw [hr] at hr'
    cases hr'
    rfl
  have hm : Contents.rows (fun k => (rows k).map Prod.snd) = rows := by
    funext k
    cases hr : rows k with
    | none => simp [Contents.rows, hr]
    | some r =>
      have := hsized k r hr
      simp [Contents.rows, hr, ← this]
  refine ⟨fun k => (rows k).map Prod.snd, hm, ?_, ?_, h.names, h.distinct, ?_⟩
  · obtain ⟨n, t, hb⟩ := h.tree
    rw [← hm] at hb
    exact (holds_iff.mpr hb).represents
  · intro k
    rw [Option.isSome_map]
    exact h.keys k
  · intro name k ho
    obtain ⟨table, root, ht, hroot, hlt, hrd, hr⟩ := hrow name k ho
    exact ⟨_, table, root, by rw [hr]; rfl, deserializeTable_ok hrd.toNarrow hlt, ht, hroot⟩

/-- The name of a row is the name its oid is kept under. -/
theorem MirrorOf.rowNamed {m : Contents} (h : MirrorOf s m) (hm : Mirrored T s rows)
    {k : DefaultPagerKey} {name : Str} (hr : RowNamed m k name) :
    s.self.tableOids.lookup name = some k := by
  obtain ⟨value, table, root, off, hv, hd, rfl⟩ := hr
  obtain ⟨name, ho⟩ := (h.keys k).mp (by rw [hv]; rfl)
  obtain ⟨value', table', root', hv', hd', ht, -⟩ := h.decodes name k ho
  rw [hv] at hv'
  cases hv'
  rw [hd] at hd'
  cases hd'
  rw [hm.named name table ht]
  exact ho

/-- In every state of a sane run the maps mirror the schema tree one to one, and a drop clears
every row of its name. -/
theorem reached_mirror (h : Reached Sane s) : Mirror s ∧ ∀ name,
    ¬ Crashes (CatalogManager.dropTable name) s →
      Cleared (after (CatalogManager.dropTable name) s) name := by
  have hmirror : ∀ {s}, Reached Sane s → ∃ m rows, MirrorOf s m ∧ Mirrored AnyTree s rows := by
    intro s h
    obtain ⟨hr, hread⟩ := h.readable
    obtain ⟨rows, hm⟩ := hr.mirrored
    obtain ⟨m, -, hmo⟩ := hm.mirrorOf hread
    exact ⟨m, rows, hmo, hm⟩
  obtain ⟨m, rows, hmo, hm⟩ := hmirror h
  refine ⟨⟨m, hmo, ?_⟩, ?_⟩
  · intro name k k' hk hk'
    have ho := hmo.rowNamed hm hk
    rw [hmo.rowNamed hm hk'] at ho
    cases ho
    rfl
  · intro name hup
    have hnext : Reached Sane (after (Op.dropTable name).run s) := .step h trivial hup
    obtain ⟨m', rows', hmo', hm'⟩ := hmirror hnext
    refine ⟨m', hmo'.represents, ?_⟩
    intro k hr
    have ho := hmo'.rowNamed hm' hr
    obtain ⟨-, -, -, -, hs⟩ := (hm.dropTable tended_anyTree (.inr hup)).after
    refine hs.gone name (by simp) (mem_names.mpr ((hm'.names name).mp ?_))
    rw [ho]
    rfl

end Reached

section Trace

variable [Build] {Ok Ok' : CatalogState → Op → Prop} {ops : List Op} {s : CatalogState}

/-- Every call meets the condition and none crashes. -/
def OkAll (Ok : CatalogState → Op → Prop) : List Op → CatalogState → Prop
  | [], _ => True
  | op :: ops, s => Ok s op ∧ ¬ Crashes op.run s ∧ OkAll Ok ops (after op.run s)

instance decidableAbsent : ∀ s op, Decidable (Absent s op)
  | s, .createTable table => inferInstanceAs (Decidable (s.self.tables.lookup table.name = none))
  | _, .dropTable _ => inferInstanceAs (Decidable True)

instance decidableOkAll [∀ s op, Decidable (Ok s op)] : ∀ ops s, Decidable (OkAll Ok ops s)
  | [], _ => inferInstanceAs (Decidable True)
  | op :: ops, s =>
    have := decidableOkAll ops (after op.run s)
    inferInstanceAs (Decidable (Ok s op ∧ ¬ Crashes op.run s ∧ OkAll Ok ops (after op.run s)))

theorem OkAll.mono (h : OkAll Ok ops s) (hi : ∀ s, ∀ op ∈ ops, Ok s op → Ok' s op) :
    OkAll Ok' ops s := by
  induction ops generalizing s with
  | nil => trivial
  | cons op ops ih =>
    obtain ⟨hop, hup, hrest⟩ := h
    exact ⟨hi s op (by simp) hop, hup, ih hrest (fun s op hm => hi s op (by simp [hm]))⟩

theorem Reached.runOps (h : Reached Ok s) (hops : OkAll Ok ops s) : Reached Ok (runOps ops s) := by
  induction ops generalizing s with
  | nil => exact h
  | cons op ops ih => exact ih (.step h hops.1 hops.2.1) hops.2.2

end Trace

/-- A table that depends on the table `tblName`. -/
def plainTable (name tblName : Str) : Table := ⟨.table, name, tblName, []⟩

open BigEndian in
theorem plainTable_readable {name tblName : Str} (h : name.length ≤ 65535)
    (h' : tblName.length ≤ 65535) : Readable (plainTable name tblName) := by
  have hn : (plainTable name tblName).Narrow := ⟨h, h', by simp [plainTable], by simp [plainTable]⟩
  refine ⟨hn, ?_⟩
  intro root
  rw [serializeTable_eq hn, chainLimit_eq]
  simp only [plainTable, nameBytes, List.length_append, length_toBytes, List.length_singleton,
    List.flatMap_nil, List.length_nil]
  omega

theorem twoTables_ok : @OkAll ⟨true⟩ Absent
    [.createTable (plainTable [97] [97]), .createTable (plainTable [98] [98])] (@fresh ⟨true⟩) := by
  decide +kernel

theorem twoTables_drop : ¬ Crashes (@CatalogManager.dropTable ⟨true⟩ [97]) (@runOps ⟨true⟩
    [.createTable (plainTable [97] [97]), .createTable (plainTable [98] [98])] (@fresh ⟨true⟩)) := by
  decide +kernel

theorem reached_mirror_two :
    @Mirror ⟨true⟩ (@runOps ⟨true⟩ [.createTable (plainTable [97] [97]),
      .createTable (plainTable [98] [98])] (@fresh ⟨true⟩)) ∧
    @Cleared ⟨true⟩ (after (@CatalogManager.dropTable ⟨true⟩ [97]) (@runOps ⟨true⟩
      [.createTable (plainTable [97] [97]), .createTable (plainTable [98] [98])]
      (@fresh ⟨true⟩))) [97] := by
  have hsane := @OkAll.mono ⟨true⟩ _ Sane _ _ twoTables_ok (by
    intro s op hop ha
    simp only [List.mem_cons, List.not_mem_nil, or_false] at hop
    rcases hop with rfl | rfl
    · exact ⟨ha, plainTable_readable (by decide) (by decide)⟩
    · exact ⟨ha, plainTable_readable (by decide) (by decide)⟩)
  have hr := @Reached.runOps ⟨true⟩ _ _ _ (@Reached.new ⟨true⟩ _ _ _ (@new_ok ⟨true⟩)) hsane
  exact (@reached_mirror ⟨true⟩ _ hr).imp_right (fun hc => hc [97] twoTables_drop)

theorem twiceCreated_ok : @OkAll ⟨true⟩ (fun _ _ => True)
    [.createTable (plainTable [97] [97]), .createTable (plainTable [97] [97])] (@fresh ⟨true⟩) := by
  decide +kernel

theorem twiceCreated_oids : (@runOps ⟨true⟩ [.createTable (plainTable [97] [97]),
    .createTable (plainTable [97] [97])] (@fresh ⟨true⟩)).self.tableOids.entries = [⟨[97], 2⟩] := by
  decide +kernel

theorem twiceCreated_row : value? (@moveToKey ⟨true⟩ 1)
    ⟨(@runOps ⟨true⟩ [.createTable (plainTable [97] [97]), .createTable (plainTable [97] [97])]
      (@fresh ⟨true⟩)).pager, (@runOps ⟨true⟩ [.createTable (plainTable [97] [97]),
      .createTable (plainTable [97] [97])] (@fresh ⟨true⟩)).self.schemaCursor⟩ = some true := by
  decide +kernel

/-- Creating a name a second time leaves the first row without an owner. -/
theorem reached_mirror_fails :
    ¬ ∀ s, @Reached ⟨true⟩ (fun _ _ => True) s → @Mirror ⟨true⟩ s := by
  intro h
  have hr := @Reached.runOps ⟨true⟩ _ _ _ (@Reached.new ⟨true⟩ _ _ _ (@new_ok ⟨true⟩)) twiceCreated_ok
  obtain ⟨t, ht⟩ := ok_of_value? twiceCreated_row
  have hoids := twiceCreated_oids
  have hmirror := h _ hr
  clear h hr
  generalize @runOps ⟨true⟩ [.createTable (plainTable [97] [97]),
    .createTable (plainTable [97] [97])] (@fresh ⟨true⟩) = s at *
  obtain ⟨m, hm, -⟩ := hmirror
  have hsome := ((returns_of_eq ht).mp (@MirrorOf.represents ⟨true⟩ _ _ hm 1)).1.mp rfl
  obtain ⟨name, ho⟩ := (@MirrorOf.keys ⟨true⟩ _ _ hm 1).mp hsome
  have hmem := AList.mem_lookup_iff.mp ho
  rw [hoids, List.mem_singleton] at hmem
  cases hmem

end CatalogManager

end Cpplite
