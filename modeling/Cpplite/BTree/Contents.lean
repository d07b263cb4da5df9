import Cpplite.BTree.RemoveSpec

/-!
What a tree stands for: the finite map from its keys to the byte strings that their
overflow chains spell. Every operation of the cursor is an operation on that map.
-/
namespace Cpplite

open Exec Search Linked HeightTree

/-- A finite map from keys to values. -/
abbrev Contents := DefaultPagerKey → Option (List Byte)

/-- What the cells of a tree keep: under each key the size the cell records and the bytes its
chain spells. -/
abbrev Rows := DefaultPagerKey → Option (Nat × List Byte)

/-- The cells keep these rows on their overflow chains. -/
structure Chained (d : Disk) (cells : List LeafCell) (rows : Rows) : Prop where
  row : ∀ v ∈ cells, ∃ bytes pages, rows v.key = some (v.payloadSize, bytes) ∧
    d.OverflowChain v.recordPage pages bytes
  key : ∀ k r, rows k = some r → ∃ v ∈ cells, v.key = k

/-- The cells spell the map through their overflow chains. -/
structure Spells (d : Disk) (cells : List LeafCell) (m : Contents) : Prop where
  value : ∀ v ∈ cells, ∃ value pages, m v.key = some value ∧ value.length = v.payloadSize ∧
    d.OverflowChain v.recordPage pages value
  key : ∀ k value, m k = some value → ∃ v ∈ cells, v.key = k

/-- Rows whose recorded size is the real one. -/
def Contents.rows (m : Contents) : Rows := fun k => (m k).map (fun value => (value.length, value))

section Spells

variable {d d' : Disk} {cells A B : List LeafCell} {m : Contents} {rows : Rows}
  {k : DefaultPagerKey} {v : LeafCell} {value : List Byte} {ids pages : List Nat}

theorem Contents.rows_update (m : Contents) (k : DefaultPagerKey) (o : Option (List Byte)) :
    Contents.rows (Function.update m k o) =
      Function.update m.rows k (o.map (fun value => (value.length, value))) := by
  funext k'
  by_cases h : k' = k
  · subst h
    simp [Contents.rows]
  · simp [Contents.rows, h]

theorem spells_iff : Spells d cells m ↔ Chained d cells m.rows := by
  constructor
  · intro h
    constructor
    · intro v hv
      obtain ⟨value, pages, hm, hsize, hc⟩ := h.value v hv
      exact ⟨value, pages, by rw [Contents.rows, hm, ← hsize]; rfl, hc⟩
    · intro k r hr
      obtain ⟨value, hm, -⟩ := Option.map_eq_some_iff.mp hr
      exact h.key k value hm
  · intro h
    constructor
    · intro v hv
      obtain ⟨bytes, pages, hr, hc⟩ := h.row v hv
      obtain ⟨value, hm, heq⟩ := Option.map_eq_some_iff.mp hr
      obtain ⟨hsize, rfl⟩ := Prod.mk.inj heq
      exact ⟨value, pages, hm, hsize, hc⟩
    · intro k value hm
      exact h.key k (value.length, value) (by rw [Contents.rows, hm]; rfl)

/-- Work on tree pages and on pages nobody owned leaves every chain alone. -/
theorem chain_evolves {p : Nat} (h : d.OverflowChain p pages value) (hg : d.Good)
    (hev : d.Evolves d' ids) (hids : ∀ p ∈ ids, (d.page p).IsTree) :
    d'.OverflowChain p pages value := by
  refine h.frame ?_
  intro q hq
  obtain ⟨-, h1, -, r, c, hq'⟩ := overflow_bounds hg.sound h q hq
  refine hev.same q h1 ?_ (by rw [hq']; simp [LogicalPage.InUse])
  intro hm
  have := hids q hm
  rw [hq'] at this
  exact this

theorem Chained.evolves (h : Chained d cells rows) (hg : d.Good) (hev : d.Evolves d' ids)
    (hids : ∀ p ∈ ids, (d.page p).IsTree) : Chained d' cells rows := by
  refine ⟨?_, h.key⟩
  intro v hv
  obtain ⟨bytes, pages, hr, hc⟩ := h.row v hv
  exact ⟨bytes, pages, hr, chain_evolves hc hg hev hids⟩

theorem Chained.isSome_iff (h : Chained d cells rows) :
    (rows k).isSome ↔ ∃ v ∈ cells, v.key = k := by
  constructor
  · intro hs
    obtain ⟨r, hr⟩ := Option.isSome_iff_exists.mp hs
    exact h.key k r hr
  · rintro ⟨v, hv, rfl⟩
    obtain ⟨bytes, -, hr, -⟩ := h.row v hv
    rw [hr]
    rfl

theorem Chained.insert (h : Chained d (A ++ B) rows) (hk : rows v.key = none)
    (hc : d.OverflowChain v.recordPage pages value) :
    Chained d (A ++ v :: B) (Function.update rows v.key (some (v.payloadSize, value))) := by
  constructor
  · intro w hw
    simp only [List.mem_append, List.mem_cons] at hw
    rcases eq_or_ne w.key v.key with heq | hne
    · have hwv : w = v := by
        have hnot : w ∉ A ++ B := by
          intro hm
          obtain ⟨u, -, hu, -⟩ := h.row w hm
          rw [heq, hk] at hu
          cases hu
        simp only [List.mem_append] at hnot
        tauto
      subst hwv
      exact ⟨value, pages, by simp, hc⟩
    · have hw' : w ∈ A ++ B := by
        rw [List.mem_append]
        rcases hw with hw | rfl | hw
        · exact .inl hw
        · exact absurd rfl hne
        · exact .inr hw
      obtain ⟨u, pages, hu, hcu⟩ := h.row w hw'
      exact ⟨u, pages, by rw [Function.update_of_ne hne, hu], hcu⟩
  · intro k u hu
    rcases eq_or_ne k v.key with rfl | hne
    · exact ⟨v, by simp, rfl⟩
    · rw [Function.update_of_ne hne] at hu
      obtain ⟨w, hw, hwk⟩ := h.key k u hu
      refine ⟨w, ?_, hwk⟩
      simp only [List.mem_append, List.mem_cons] at hw ⊢
      tauto

theorem Chained.erase (h : Chained d (A ++ v :: B) rows) (hs : ∀ w ∈ A ++ B, w.key ≠ v.key) :
    Chained d (A ++ B) (Function.update rows v.key none) := by
  have hsub : ∀ w ∈ A ++ B, w ∈ A ++ v :: B := by
    intro w hw
    simp only [List.mem_append, List.mem_cons] at hw ⊢
    tauto
  constructor
  · intro w hw
    obtain ⟨u, pages, hu, hcu⟩ := h.row w (hsub w hw)
    exact ⟨u, pages, by rw [Function.update_of_ne (hs w hw), hu], hcu⟩
  · intro k u hu
    rcases eq_or_ne k v.key with rfl | hne
    · simp at hu
    · rw [Function.update_of_ne hne] at hu
      obtain ⟨w, hw, hwk⟩ := h.key k u hu
      refine ⟨w, ?_, hwk⟩
      simp only [List.mem_append, List.mem_cons] at hw ⊢
      rcases hw with hw | rfl | hw
      · exact .inl hw
      · exact absurd hwk.symm hne
      · exact .inr hw

theorem Spells.evolves (h : Spells d cells m) (hg : d.Good) (hev : d.Evolves d' ids)
    (hids : ∀ p ∈ ids, (d.page p).IsTree) : Spells d' cells m :=
  spells_iff.mpr ((spells_iff.mp h).evolves hg hev hids)

theorem Spells.isSome_iff (h : Spells d cells m) : (m k).isSome ↔ ∃ v ∈ cells, v.key = k := by
  rw [← (spells_iff.mp h).isSome_iff, Contents.rows, Option.isSome_map]

end Spells

/-- A cursor over a tree that keeps these rows. -/
structure Bears (d : Disk) (cur : BTreeCursor) {n : Nat} (t : BTree n) (rows : Rows) : Prop
    extends Standing d cur t where
  chained : Chained d (entries t.spine) rows

/-- A cursor over a tree that stands for `m`. -/
structure Holds (d : Disk) (cur : BTreeCursor) {n : Nat} (t : BTree n) (m : Contents) : Prop
    extends Standing d cur t where
  spells : Spells d (entries t.spine) m

/-- A tree and its rows stand on pages that nothing else writes. -/
theorem Bears.frame {n : Nat} {d d' : Disk} {cur : BTreeCursor} {t : BTree n} {rows : Rows}
    (h : Bears d cur t rows) (hg : d'.Good)
    (hs : ∀ p, p ≠ 1 → (d.page p).InUse → d'.page p = d.page p) : Bears d' cur t rows := by
  refine ⟨⟨hg, h.valid, h.planted.frame ?_, h.placed⟩, ?_, h.chained.key⟩
  · intro p hp
    have ht := h.planted.stored.isTree p hp
    exact hs p (h.good.ne_one ht) ht.inUse
  · intro v hv
    obtain ⟨bytes, pages, hr, hc⟩ := h.chained.row v hv
    refine ⟨bytes, pages, hr, hc.frame ?_⟩
    intro p hp
    obtain ⟨-, h1, -, q, c, hpage⟩ := overflow_bounds h.good.sound hc p hp
    exact hs p h1 (by rw [hpage]; simp [LogicalPage.InUse])

/-- Another cursor over the same tree. -/
theorem Bears.retake {n : Nat} {d : Disk} {cur cur' : BTreeCursor} {t : BTree n} {rows : Rows}
    (h : Bears d cur t rows) (hroot : cur'.rootPgno = cur.rootPgno)
    (hcfg : cur'.config = cur.config) (hp : Placed cur' t) : Bears d cur' t rows := by
  obtain ⟨st, root, config⟩ := cur'
  obtain rfl : root = cur.rootPgno := hroot
  obtain rfl : config = cur.config := hcfg
  exact ⟨⟨h.good, h.valid, h.planted.setCursor st, hp⟩, h.chained⟩

section Operations

variable {n : Nat} {d : Disk} {cur : BTreeCursor} {t : BTree n} {m : Contents}
  {k : DefaultPagerKey} {value : List Byte} [Build]

omit [Build] in
/-- A root page that is an empty leaf holds nothing. -/
theorem holds_empty (hg : d.Good) (hv : cur.config.Valid) (hcur : cur.cursor = [])
    (hroot : d.page cur.rootPgno = .leaf [] nullPage nullPage) :
    Holds (n := 0) d cur (⟨cur.rootPgno, []⟩ : BTreeLeaf) (fun _ => none) := by
  refine ⟨⟨hg, hv, ⟨rfl, ⟨_, _, hroot⟩, List.nodup_singleton _, ?_, ?_, Nat.zero_le _⟩, .inl hcur⟩, ?_⟩
  · exact ⟨Disk.links_eq hroot, trivial⟩
  · exact List.Pairwise.nil
  · exact ⟨by rintro v ⟨⟩, by rintro k value ⟨⟩⟩

omit [Build] in
theorem holds_iff : Holds d cur t m ↔ Bears d cur t m.rows :=
  ⟨fun h => ⟨h.toStanding, spells_iff.mp h.spells⟩, fun h => ⟨h.toStanding, spells_iff.mpr h.chained⟩⟩

omit [Build] in
/-- A new cell with its chain is a new row. -/
theorem Inserted.bears {d' : Disk} {cur' : BTreeCursor} {n' : Nat} {t' : BTree n'} {v : LeafCell}
    {pages : List Nat} {rows : Rows} {chunks : List (List Byte)}
    (hi : Inserted d d' cur cur' t t' k value chunks v pages) (h : Bears d cur t rows)
    (hk : rows k = none) :
    Bears d' cur' t' (Function.update rows k (some (value.length % 2 ^ 32, chunks.flatten))) := by
  obtain ⟨A, B, hA, hB⟩ := hi.entries_eq
  have hch := h.chained.evolves h.good hi.updated.evolves h.planted.stored.isTree
  rw [hA] at hch
  refine ⟨hi.standing h.toStanding, ?_⟩
  rw [hB, ← hi.key_eq, ← hi.size_eq]
  exact hch.insert (by rw [hi.key_eq, hk]) hi.chain

omit [Build] in
theorem Bears.key_ne {rows : Rows} (h : Bears d cur t rows) (hk : rows k = none) :
    ∀ v ∈ entries t.spine, v.key ≠ k := by
  intro v hv heq
  have hsome : (rows k).isSome := h.chained.isSome_iff.mpr ⟨v, hv, heq⟩
  rw [hk] at hsome
  cases hsome

theorem Bears.insert {rows : Rows} {chunks : List (List Byte)} (h : Bears d cur t rows)
    (hk : rows k = none) (hch : payloadChunks value = some chunks) :
    Runs (insert k value) d cur (fun _ d' cur' => ∃ (n' : Nat) (t' : BTree n') (v : LeafCell)
      (pages : List Nat), Inserted d d' cur cur' t t' k value chunks v pages ∧
        Bears d' cur' t'
          (Function.update rows k (some (value.length % 2 ^ 32, chunks.flatten)))) := by
  refine (insert_runs h.good h.valid h.planted (h.key_ne hk) hch).mono ?_
  rintro _ d' cur' ⟨n', t', v, pages, hi⟩
  exact ⟨n', t', v, pages, hi, hi.bears h hk⟩

theorem Holds.insert (h : Holds d cur t m) (hk : m k = none) (hlim : value.length ≤ chainLimit) :
    Runs (insert k value) d cur (fun _ d' cur' => ∃ (n' : Nat) (t' : BTree n')
      (chunks : List (List Byte)) (v : LeafCell) (pages : List Nat),
      Inserted d d' cur cur' t t' k value chunks v pages ∧
        Holds d' cur' t' (Function.update m k (some value))) := by
  obtain ⟨chunks, hch, hflat⟩ := payloadChunks_eq hlim
  refine ((holds_iff.mp h).insert (by rw [Contents.rows, hk]; rfl) hch).mono ?_
  rintro _ d' cur' ⟨n', t', v, pages, hi, hb⟩
  have hmod : value.length % 2 ^ 32 = value.length := by
    rw [chainLimit_eq] at hlim
    omega
  rw [hflat, hmod] at hb
  refine ⟨n', t', chunks, v, pages, hi, holds_iff.mpr ?_⟩
  rw [Contents.rows_update]
  exact hb

/-- A root that is a leaf takes a new row while there is room. -/
theorem Bears.insert_room {rows : Rows} {chunks : List (List Byte)} {l : BTreeLeaf}
    (h : Bears (n := 0) d cur l rows) (hk : rows k = none) (hch : payloadChunks value = some chunks)
    (hroom : l.cells.length < cur.config.leafMaxCells) : Runs (Cpplite.insert k value) d cur
      (fun _ d' cur' => cur'.config = cur.config ∧ ∃ l' : BTreeLeaf, l'.id = l.id ∧
        Bears (n := 0) d' cur' l'
          (Function.update rows k (some (value.length % 2 ^ 32, chunks.flatten)))) := by
  obtain ⟨fl, hf⟩ := h.good.free
  refine (insert_exact h.good h.valid h.planted hf (h.key_ne hk) hch).mono ?_
  rintro _ d' cur' (⟨c, p, lo, hi, e, rp, hplug, -, -, hins⟩ | ⟨c, l₀, hplug, -, hfull, -⟩)
  · obtain rfl := c.eq_top
    obtain rfl : ⟨p, lo ++ hi⟩ = l := hplug
    exact ⟨hins.updated.config_eq, ⟨p, lo ++ ⟨value.length % 2 ^ 32, k, rp⟩ :: hi⟩, rfl,
      hins.bears h hk⟩
  · obtain rfl := c.eq_top
    obtain rfl : l₀ = l := hplug
    exact absurd hfull hroom.ne

/-- Where there is none the tree moves to new pages, and the leaf stays behind as it was. -/
theorem Bears.insert_full {rows : Rows} {chunks : List (List Byte)} {l : BTreeLeaf}
    (h : Bears (n := 0) d cur l rows) (hk : rows k = none) (hch : payloadChunks value = some chunks)
    (hfull : l.cells.length = cur.config.leafMaxCells) :
    Runs (Cpplite.insert k value) d cur (fun _ d' _ => Bears (n := 0) d' cur l rows) := by
  obtain ⟨fl, hf⟩ := h.good.free
  refine (insert_exact h.good h.valid h.planted hf (h.key_ne hk) hch).mono ?_
  rintro _ d' cur' (⟨c, p, lo, hi, e, rp, hplug, -, -, hins⟩ |
    ⟨c, l₀, hplug, -, -, m, t', v, pages, -, hup⟩)
  · obtain rfl := c.eq_top
    obtain rfl : ⟨p, lo ++ hi⟩ = l := hplug
    have hle : (lo ++ ⟨value.length % 2 ^ 32, k, rp⟩ :: hi).length ≤ cur'.config.leafMaxCells :=
      hins.updated.planted.filled
    rw [hins.updated.config_eq, ← hfull] at hle
    simp only [List.length_append, List.length_cons] at hle
    omega
  · obtain rfl := c.eq_top
    exact h.frame hup.evolves.good (fun p hp hu => hup.evolves.same p hp List.not_mem_nil hu)

/-- The cursor stands on the cell with key `k`. -/
def StandsOn (cur : BTreeCursor) (t : BTree n) (k : DefaultPagerKey) : Prop :=
  ∃ (c : BTreeCtx n 0) (p : Nat) (lo : List LeafCell) (v : LeafCell) (hi : List LeafCell),
    c.plug ⟨p, lo ++ v :: hi⟩ = t ∧ cur.cursor = (p, lo.length) :: c.path ∧ v.key = k

omit [Build] in
/-- A search that found its key stands on it. -/
theorem Arrives.standsOn {cur₁ cur' : BTreeCursor} {c : BTreeCtx n 0} {l : BTreeLeaf} {i : Nat}
    (hT : Planted d cur t) (h : Arrives t k cur₁ cur' true c l i) : StandsOn cur' t k := by
  obtain ⟨rfl, -, hfind, hcur⟩ := h
  rcases findKey_cases hT.keySorted_leaf k with
    ⟨lo, w, hi, hl, hwk, -, -, hfk⟩ | ⟨lo, hi, hl, hlo, hhi, hfk⟩
  · rw [hfind] at hfk
    cases hfk
    exact ⟨c, l.id, lo, w, hi, by rw [← hl], by rw [hcur], hwk⟩
  · rw [hfind] at hfk
    cases hfk

theorem Bears.moveToKey {rows : Rows} (h : Bears d cur t rows) (k : DefaultPagerKey) :
    Runs (moveToKey k) d cur (fun found d' cur' => d' = d ∧ cur'.rootPgno = cur.rootPgno ∧
      Bears d cur' t rows ∧ (found = true ↔ (rows k).isSome) ∧
        (found = true → StandsOn cur' t k)) := by
  refine (moveToKey_runs (k := k) h.good h.planted).mono ?_
  rintro found d' cur' ⟨rfl, c, l, i, harr⟩
  refine ⟨rfl, by rw [harr.cursor], ⟨harr.standing h.toStanding, h.chained⟩, ?_, ?_⟩
  · rw [harr.found_iff h.planted, h.chained.isSome_iff]
  · rintro rfl
    exact harr.standsOn h.planted

theorem Holds.moveToKey (h : Holds d cur t m) (k : DefaultPagerKey) :
    Runs (moveToKey k) d cur (fun found d' cur' => d' = d ∧ cur'.rootPgno = cur.rootPgno ∧
      Holds d cur' t m ∧ (found = true ↔ (m k).isSome) ∧ (found = true → StandsOn cur' t k)) := by
  refine ((holds_iff.mp h).moveToKey k).mono ?_
  rintro found d' cur' ⟨rfl, hroot, hb, hfound, hstand⟩
  rw [Contents.rows, Option.isSome_map] at hfound
  exact ⟨rfl, hroot, holds_iff.mpr hb, hfound, hstand⟩

theorem Planted.currentKey (h : Planted d cur t) (hk : StandsOn cur t k) :
    Steps currentKey d cur k d cur := by
  obtain ⟨c, p, lo, v, hi, rfl, hcur, rfl⟩ := hk
  have hpage := h.leaf_page
  unfold Cpplite.currentKey
  refine steps_getSelf.then ?_
  rw [hcur]
  refine (steps_assert (.inr (by simp))).then ?_
  refine steps_topOf.then ?_
  refine (steps_getPageType (by rw [hpage]; rfl)).then ?_
  refine (steps_assert (.inr rfl)).then ?_
  refine (steps_loadLeaf hpage).then ?_
  have hcell : (leafManager p (lo ++ v :: hi) ((leafIds c.spineL).getLastD nullPage)
      ((leafIds c.spineR).headD nullPage)).cells[lo.length]? = some v := by simp [leafManager]
  simp only [hcell]
  exact steps_pure

/-- Where the cursor stands on a cell, its value is what the chain of that cell spells. -/
theorem Planted.currentValue (hg : d.Good) (h : Planted d cur t) (hk : StandsOn cur t k)
    (hval : ∀ v ∈ entries t.spine, v.key = k → ∃ pages, value.length = v.payloadSize ∧
      d.OverflowChain v.recordPage pages value) : Steps currentValue d cur value d cur := by
  obtain ⟨c, p, lo, v, hi, rfl, hcur, rfl⟩ := hk
  have hpage := h.leaf_page
  obtain ⟨pages, hsize, hchain⟩ := hval v (by simp [Ctx.spine_plug_leaf]) rfl
  have hcell : (leafManager p (lo ++ v :: hi) ((leafIds c.spineL).getLastD nullPage)
      ((leafIds c.spineR).headD nullPage)).cells[lo.length]? = some v := by simp [leafManager]
  unfold Cpplite.currentValue
  refine steps_getSelf.then ?_
  rw [hcur]
  refine (steps_assert (.inr (by simp))).then ?_
  refine steps_topOf.then ?_
  refine (steps_getPageType (by rw [hpage]; rfl)).then ?_
  refine (steps_assert (.inr rfl)).then ?_
  refine (steps_loadLeaf hpage).then ?_
  refine (steps_assert (.inr (by simp [leafManager]))).then ?_
  refine (steps_index hcell).then ?_
  refine (steps_read (a := some value) ?_).then steps_pure
  rintro s rfl
  exact getPayload_ok hg.sound h.keys_around.1 hchain hsize

theorem Holds.currentKey (h : Holds d cur t m) (hk : StandsOn cur t k) :
    Steps currentKey d cur k d cur :=
  h.planted.currentKey hk

theorem Holds.currentValue (h : Holds d cur t m) (hk : StandsOn cur t k) (hm : m k = some value) :
    Steps currentValue d cur value d cur := by
  refine h.planted.currentValue h.good hk ?_
  intro v hv hvk
  obtain ⟨u, pages, hu, hsize, hchain⟩ := h.spells.value v hv
  rw [hvk, hm] at hu
  cases hu
  exact ⟨pages, hsize, hchain⟩

/-- With assertions on, a removal that meets the fault of its leaf ends the program. -/
theorem Bears.remove {rows : Rows} (h : Bears d cur t rows) (hk : StandsOn cur t k) :
    Runs remove d cur (fun _ d' cur' => ∃ (n' : Nat) (t' : BTree n'),
      Updated d d' cur cur' t.ids t' ∧ (entries t'.spine).Sublist (entries t.spine) ∧
        Bears d' cur' t' (Function.update rows k none)) ∨
      (Build.ndebug = false ∧ Aborts remove d cur) := by
  obtain ⟨c, p, lo, v, hi, rfl, hcur, rfl⟩ := hk
  by_cases hb : Build.ndebug = true ∨ ¬ AtFault cur.config (lo ++ v :: hi).length c
  · left
    refine (remove_runs h.good h.valid h.planted hcur hb).mono ?_
    rintro _ d' cur' ⟨n', t', hup, hpl, hent⟩
    have hold : entries (c.plug (⟨p, lo ++ v :: hi⟩ : BTreeLeaf)).spine =
        (entries c.spineL ++ lo) ++ v :: (hi ++ entries c.spineR) := by
      simp [Ctx.spine_plug_leaf]
    have hnew : entries t'.spine = (entries c.spineL ++ lo) ++ (hi ++ entries c.spineR) := by
      simp [hent]
    have hch := h.chained.evolves h.good hup.evolves h.planted.stored.isTree
    rw [hold] at hch
    refine ⟨n', t', hup, ?_, hup.standing h.valid hpl, ?_⟩
    · rw [hold, hnew]
      exact (List.Sublist.refl _).append (List.sublist_cons_self _ _)
    · rw [hnew]
      refine hch.erase ?_
      have hgone := h.planted.key_gone
      simpa using hgone
  · right
    push Not at hb
    have hb' : Build.ndebug = false := by simpa using hb.1
    exact ⟨hb', remove_aborts h.good h.planted hcur hb' hb.2⟩

/-- A root that is a leaf stays one. -/
theorem Bears.remove_root {rows : Rows} {l : BTreeLeaf} (h : Bears (n := 0) d cur l rows)
    (hk : StandsOn (n := 0) cur l k) : Runs Cpplite.remove d cur (fun _ d' cur' =>
      cur'.config = cur.config ∧ ∃ l' : BTreeLeaf, l'.id = l.id ∧
        Bears (n := 0) d' cur' l' (Function.update rows k none)) := by
  obtain ⟨c, p, lo, v, hi, hplug, hcur, rfl⟩ := hk
  obtain rfl := c.eq_top
  obtain rfl : ⟨p, lo ++ v :: hi⟩ = l := hplug
  refine (remove_root_runs h.good h.valid h.planted hcur).mono ?_
  rintro _ d' cur' ⟨rfl, hst, hcfg⟩
  refine ⟨hcfg, ⟨p, lo ++ hi⟩, rfl, hst, ?_⟩
  have htree := h.planted.stored.isTree p (List.mem_singleton.mpr rfl)
  have hev : d.Evolves (d.set p (.leaf (lo ++ hi) nullPage nullPage)) [p] :=
    .set h.good htree (List.mem_singleton_self p)
  have hch := h.chained.evolves h.good hev (List.forall_mem_singleton.mpr htree)
  have hgone := h.planted.key_gone (c := (.top : BTreeCtx 0 0))
  rw [entries_single] at hch ⊢
  refine hch.erase (fun w hw => hgone w ?_)
  exact List.mem_append_left _ (List.mem_append_right _ hw)

theorem Holds.remove (h : Holds d cur t m) (hk : StandsOn cur t k) (hb : Build.ndebug = true) :
    Runs remove d cur (fun _ d' cur' => ∃ (n' : Nat) (t' : BTree n'),
      Updated d d' cur cur' t.ids t' ∧ (entries t'.spine).Sublist (entries t.spine) ∧
        Holds d' cur' t' (Function.update m k none)) := by
  rcases (holds_iff.mp h).remove hk with hrun | ⟨hn, -⟩
  · refine hrun.mono ?_
    rintro _ d' cur' ⟨n', t', hup, hsub, hb'⟩
    refine ⟨n', t', hup, hsub, holds_iff.mpr ?_⟩
    rw [Contents.rows_update]
    exact hb'
  · rw [hb] at hn
    cases hn

end Operations

end Cpplite
