import Cpplite.BTree.Forest

/-!
Which pages a forest accounts for. A split abandons the page it splits and a removal the
chain of the value it removes, so nothing leaks exactly as long as neither happens; until
then every tree is one leaf.
-/
namespace Cpplite

open Exec Search Linked HeightTree

/-- The leaf at the top of the cursor has room for a cell. -/
def HasRoom (s : BTreeState) : Prop :=
  ∃ p i rest cells prev next, s.self.cursor = (p, i) :: rest ∧
    s.pager.disk.page p = .leaf cells prev next ∧ cells.length < s.self.config.leafMaxCells

/-- The cursor is on a cell without a chain. -/
def OnBareCell (s : BTreeState) : Prop :=
  ∃ p i rest cells prev next v, s.self.cursor = (p, i) :: rest ∧
    s.pager.disk.page p = .leaf cells prev next ∧ cells[i]? = some v ∧ v.recordPage = nullPage

/-- The call neither splits a leaf nor removes a value that has pages. -/
def TreeOp.KeepsPages [Build] (s : BTreeState) : TreeOp → Prop
  | .insert k _ => Returns (Cpplite.moveToKey k) s (fun found t => found = true ∨ HasRoom t)
  | .moveToKey _ => True
  | .remove => OnBareCell s

namespace Forest

/-- Every page past the first has a use. -/
def NoLeak (f : Forest) : Prop :=
  ∀ q, 2 ≤ q → q ≤ f.pager.totalNumPages → (∃ i, f.TreePage i q) ∨
    (∃ i p j v, f.LiveCell i p j v ∧ f.ChainPage v q) ∨ f.FreePage q

def Op.KeepsPages [Build] (f : Forest) : Op → Prop
  | .createTree config => config.Valid
  | .on i op => ∀ cur, f.cursors[i]? = some cur → op.KeepsPages ⟨f.pager, cur⟩

/-- What a page of the file is used for, the trees being the leaves `ls`. -/
def Used (d : Disk) (ls : List BTreeLeaf) (q : Nat) : Prop :=
  (∃ l ∈ ls, q = l.id) ∨
  (∃ l ∈ ls, ∃ v ∈ l.cells, ∃ pages payload, d.OverflowChain v.recordPage pages payload ∧
    q ∈ pages) ∨ ∃ fl, d.FreeList fl ∧ q ∈ fl

/-- Every tree is one leaf on a page of its own, and every page has a use. -/
structure Tilled (f : Forest) (ls : List BTreeLeaf) : Prop where
  good : f.pager.disk.Good
  length_eq : ls.length = f.cursors.length
  standing : ∀ (i : Nat) (cur : BTreeCursor) (l : BTreeLeaf), f.cursors[i]? = some cur →
    ls[i]? = some l → Standing (n := 0) f.pager.disk cur l
  ids_nodup : (ls.map Leaf.id).Nodup
  used : ∀ q, 2 ≤ q → q ≤ f.pager.disk.total → Used f.pager.disk ls q

section Steps

variable {f : Forest} {ls : List BTreeLeaf} {i : Nat} {cur cur' : BTreeCursor} {l l' : BTreeLeaf}
  {d' : Disk}

theorem Tilled.leaf (h : Tilled f ls) (hi : f.cursors[i]? = some cur) :
    ∃ l, ls[i]? = some l ∧ Standing (n := 0) f.pager.disk cur l := by
  have hlt : i < ls.length := by
    rw [h.length_eq]
    exact (List.getElem?_eq_some_iff.mp hi).1
  exact ⟨ls[i], List.getElem?_eq_getElem hlt, h.standing i cur _ hi (List.getElem?_eq_getElem hlt)⟩

/-- Where every page has a use, nothing is leaked. -/
theorem Tilled.noLeak (h : Tilled f ls) : f.NoLeak := by
  have hcursor : ∀ l ∈ ls, ∃ (i : Nat) (cur : BTreeCursor), f.cursors[i]? = some cur ∧
      Standing (n := 0) f.pager.disk cur l := by
    intro l hl
    obtain ⟨i, hi⟩ := List.mem_iff_getElem?.mp hl
    have hlt : i < f.cursors.length := by
      rw [← h.length_eq]
      exact (List.getElem?_eq_some_iff.mp hi).1
    exact ⟨i, _, List.getElem?_eq_getElem hlt, h.standing i _ l (List.getElem?_eq_getElem hlt) hi⟩
  intro q h2 hle
  rcases h.used q h2 hle with ⟨l, hl, rfl⟩ | ⟨l, hl, v, hv, pages, payload, hc, hq⟩ | hfree
  · obtain ⟨i, cur, hcur, hst⟩ := hcursor l hl
    refine .inl ⟨i, cur, hcur, ?_⟩
    rw [← hst.planted.root_eq]
    exact .refl
  · obtain ⟨i, cur, hcur, hst⟩ := hcursor l hl
    obtain ⟨j, hj⟩ := List.mem_iff_getElem?.mp hv
    obtain ⟨prev, next, hpage⟩ := hst.planted.stored
    refine .inr (.inl ⟨i, l.id, j, v, ⟨cur, hcur, l.cells, prev, next, ?_, hpage, hj⟩,
      pages, payload, hc, hq⟩)
    rw [← hst.planted.root_eq]
    exact .refl
  · exact .inr (.inr hfree)

theorem standing_frame {d : Disk} {ids : List Nat} (h : Standing (n := 0) d cur l)
    (hev : d.Evolves d' ids) (hne : l.id ∉ ids) : Standing (n := 0) d' cur l := by
  refine ⟨hev.good, h.valid, h.planted.frame ?_, h.placed⟩
  intro q hq
  have ht := h.planted.stored.isTree q hq
  obtain rfl := List.mem_singleton.mp hq
  exact hev.same _ (h.good.ne_one ht) hne ht.inUse

/-- A page keeps its use where the leaf keeps its cells with pages and the free list its pages. -/
theorem Used.set {d : Disk} {q : Nat} (hu : Used d ls q) (hl : ls[i]? = some l) (hg : d.Good)
    (htree : (d.page l.id).IsTree) (hev : d.Evolves d' [l.id]) (hid : l'.id = l.id)
    (hcells : ∀ v ∈ l.cells, v.recordPage ≠ nullPage → v ∈ l'.cells)
    (hfree : ∀ fl, d.FreeList fl → q ∈ fl → Used d' (ls.set i l') q) : Used d' (ls.set i l') q := by
  have hlt : i < ls.length := (List.getElem?_eq_some_iff.mp hl).1
  have hnew : l' ∈ ls.set i l' := List.mem_set hlt l'
  have hkeep : ∀ k ∈ ls, k = l ∨ k ∈ ls.set i l' := by
    intro k hk
    obtain ⟨j, hj⟩ := List.mem_iff_getElem?.mp hk
    by_cases hij : i = j
    · subst hij
      rw [hl] at hj
      exact .inl (Option.some.inj hj).symm
    · exact .inr (List.mem_iff_getElem?.mpr ⟨j, by rw [List.getElem?_set_ne hij, hj]⟩)
  have hids : ∀ p ∈ [l.id], (d.page p).IsTree := by
    intro p hp
    rw [List.mem_singleton.mp hp]
    exact htree
  rcases hu with ⟨k, hk, rfl⟩ | ⟨k, hk, v, hv, pages, payload, hc, hq⟩ | ⟨fl, hfl, hq⟩
  · rcases hkeep k hk with rfl | hk
    · exact .inl ⟨l', hnew, hid.symm⟩
    · exact .inl ⟨k, hk, rfl⟩
  · have hc' := chain_evolves hc hg hev hids
    rcases hkeep k hk with rfl | hk
    · have hne : v.recordPage ≠ nullPage := by
        intro h0
        rw [h0] at hc
        rw [hc.1.nil_of_null] at hq
        cases hq
      exact .inr (.inl ⟨l', hnew, v, hcells v hv hne, pages, payload, hc', hq⟩)
    · exact .inr (.inl ⟨k, hk, v, hv, pages, payload, hc', hq⟩)
  · exact hfree fl hfl hq

/-- A leaf that was worked on takes its old place. -/
theorem Tilled.replant (h : Tilled f ls) (hi : f.cursors[i]? = some cur) (hl : ls[i]? = some l)
    (hev : f.pager.disk.Evolves d' [l.id]) (hst : Standing (n := 0) d' cur' l') (hid : l'.id = l.id)
    (hused : ∀ q, 2 ≤ q → q ≤ d'.total → Used d' (ls.set i l') q) {s : Pager} (hs : s.disk = d') :
    Tilled ⟨s, f.cursors.set i cur'⟩ (ls.set i l') := by
  subst hs
  have hmap : (ls.set i l').map Leaf.id = ls.map Leaf.id := by
    obtain ⟨hlt, rfl⟩ := List.getElem?_eq_some_iff.mp hl
    apply List.ext_getElem?
    intro j
    by_cases hij : i = j
    · subst hij
      simp [hlt, hid]
    · simp [List.getElem?_set_ne hij]
  refine ⟨hev.good, by simpa using h.length_eq, ?_, by rw [hmap]; exact h.ids_nodup, hused⟩
  intro j curj k hcurj hk
  rcases getElem?_set_cases hk with ⟨rfl, rfl⟩ | ⟨hji, hk⟩
  · rcases getElem?_set_cases hcurj with ⟨-, rfl⟩ | ⟨hne, -⟩
    · exact hst
    · exact absurd rfl hne
  · rcases getElem?_set_cases hcurj with ⟨rfl, -⟩ | ⟨-, hcurj⟩
    · exact absurd rfl hji
    · refine standing_frame (h.standing j curj k hcurj hk) hev ?_
      intro hm
      have heq : (ls.map Leaf.id)[j]? = (ls.map Leaf.id)[i]? := by
        simp [hk, hl, List.mem_singleton.mp hm]
      have hlt : j < (ls.map Leaf.id).length := by
        simpa using (List.getElem?_eq_some_iff.mp hk).1
      exact hji ((List.getElem?_inj hlt h.ids_nodup).mp heq)

/-- A call that leaves the file alone. -/
theorem Tilled.moved (h : Tilled f ls) (hi : f.cursors[i]? = some cur) (hl : ls[i]? = some l)
    (hst : Standing (n := 0) f.pager.disk cur' l) {s : Pager} (hs : s.disk = f.pager.disk) :
    Tilled ⟨s, f.cursors.set i cur'⟩ (ls.set i l) := by
  have htree := hst.planted.stored.isTree l.id (List.mem_singleton.mpr rfl)
  refine h.replant hi hl (.refl h.good) hst rfl ?_ hs
  intro q h2 hle
  exact (h.used q h2 hle).set hl h.good htree (.refl h.good) rfl (fun _ hv _ => hv)
    (fun fl hfl hq => .inr (.inr ⟨fl, hfl, hq⟩))

theorem Tilled.insert (h : Tilled f ls) (hi : f.cursors[i]? = some cur) (hl : ls[i]? = some l)
    (hst : Standing (n := 0) f.pager.disk cur l) {k : DefaultPagerKey} {value : List Byte}
    {chunks : List (List Byte)} {fl : List Nat} (hf : f.pager.disk.FreeList fl)
    (hr : RoomTaken (n := 0) f.pager.disk d' cur cur' l k value chunks fl) {s : Pager}
    (hs : s.disk = d') : ∃ l', Tilled ⟨s, f.cursors.set i cur'⟩ (ls.set i l') := by
  obtain ⟨c, p, lo, hi', e, rp, hplug, hw, hd', hins⟩ := hr
  obtain rfl := c.eq_top
  subst hplug
  have hlt : i < ls.length := (List.getElem?_eq_some_iff.mp hl).1
  have htree : (f.pager.disk.page p).IsTree :=
    hst.planted.stored.isTree p (List.mem_singleton.mpr rfl)
  have he : e.page p = f.pager.disk.page p :=
    hw.same p (h.good.ne_one htree) (notMem_takenPages h.good.sound hf htree.inUse.1 htree.inUse.2)
  have hfree : d'.FreeList (fl.drop chunks.length) := by
    rw [hd']
    exact (hf.of_chainWritten h.good.sound hw).set (h.good.ne_one htree)
      (by rw [he]; exact htree.inUse.2)
  have htotal : d'.total = f.pager.disk.total + (chunks.length - fl.length) := by
    rw [hd', Disk.set_total, hw.total]
  refine ⟨⟨p, lo ++ ⟨value.length % 2 ^ 32, k, rp⟩ :: hi'⟩, ?_⟩
  have htaken : ∀ q ∈ takenPages fl f.pager.disk.total chunks.length,
      Used d' (ls.set i ⟨p, lo ++ ⟨value.length % 2 ^ 32, k, rp⟩ :: hi'⟩) q := by
    intro q hq
    exact .inr (.inl ⟨_, List.mem_set hlt _, ⟨value.length % 2 ^ 32, k, rp⟩, by simp, _, _,
      hins.chain, hq⟩)
  refine h.replant hi hl hins.updated.evolves (hins.standing hst) rfl ?_ hs
  intro q h2 hle
  rcases Nat.lt_or_ge f.pager.disk.total q with hgt | hle'
  · refine htaken q (List.mem_append_right _ ?_)
    rw [List.mem_range'_1]
    omega
  · refine (h.used q h2 hle').set hl h.good htree hins.updated.evolves rfl ?_ ?_
    · intro v hv _
      change v ∈ lo ++ hi' at hv
      change v ∈ lo ++ _ :: hi'
      simp only [List.mem_append, List.mem_cons] at hv ⊢
      tauto
    · intro fl' hfl' hq
      obtain rfl : fl' = fl := freeList_unique hfl' hf
      rw [← List.take_append_drop chunks.length fl', List.mem_append] at hq
      rcases hq with hq | hq
      · exact htaken q (List.mem_append_left _ hq)
      · exact .inr (.inr ⟨_, hfree, hq⟩)

/-- A cell without a chain goes: one page is written, and no page loses its use. -/
theorem Tilled.remove (h : Tilled f ls) (hi : f.cursors[i]? = some cur) {p : Nat} {v : LeafCell}
    {lo hi' : List LeafCell} (hl : ls[i]? = some ⟨p, lo ++ v :: hi'⟩)
    (hst : Standing (n := 0) f.pager.disk cur (⟨p, lo ++ v :: hi'⟩ : BTreeLeaf))
    (hv : v.recordPage = nullPage) (hd' : d' = f.pager.disk.set p (.leaf (lo ++ hi') nullPage nullPage))
    (hst' : Standing (n := 0) d' cur' (⟨p, lo ++ hi'⟩ : BTreeLeaf)) {s : Pager} (hs : s.disk = d') :
    Tilled ⟨s, f.cursors.set i cur'⟩ (ls.set i ⟨p, lo ++ hi'⟩) := by
  have htree : (f.pager.disk.page p).IsTree :=
    hst.planted.stored.isTree p (List.mem_singleton.mpr rfl)
  have hev : f.pager.disk.Evolves d' [p] := by
    rw [hd']
    exact .set h.good htree (List.mem_singleton.mpr rfl)
  refine h.replant hi hl hev hst' rfl ?_ hs
  intro q h2 hle
  rw [hd', Disk.set_total] at hle
  refine (h.used q h2 hle).set hl h.good htree hev rfl ?_ ?_
  · intro w hw hne
    change w ∈ lo ++ v :: hi' at hw
    change w ∈ lo ++ hi'
    simp only [List.mem_append, List.mem_cons] at hw ⊢
    rcases hw with hw | rfl | hw
    · exact .inl hw
    · exact absurd hv hne
    · exact .inr hw
  · intro fl hfl hq
    refine .inr (.inr ⟨fl, ?_, hq⟩)
    rw [hd']
    exact hfl.set (h.good.ne_one htree) htree.inUse.2

variable [Build]

/-- The search that the condition makes ends on the leaf that the insertion is about. -/
theorem standing_room {s : Pager} {k : DefaultPagerKey} {value : List Byte}
    (hst : Standing (n := 0) s.disk cur l) (hkeep : (TreeOp.insert k value).KeepsPages ⟨s, cur⟩)
    (hk : ¬ ∃ v ∈ entries (Tree.spine (K := DefaultPagerKey) (n := 0) l), v.key = k) :
    l.cells.length < cur.config.leafMaxCells := by
  obtain ⟨found, t, hrun, hcase⟩ := hkeep
  obtain ⟨found', t', hrun', hd, c, l', j, harr⟩ :=
    moveToKey_runs (k := k) hst.good hst.planted ⟨s, cur⟩ rfl rfl
  rw [hrun] at hrun'
  cases hrun'
  have hfound := harr.found_iff hst.planted
  obtain ⟨hplug, -, -, hcur⟩ := harr
  obtain rfl := c.eq_top
  obtain rfl : l' = l := hplug
  rcases hcase with hf | ⟨p, i, rest, cells, prev, next, htop, hpage, hlt⟩
  · exact absurd (hfound.mp hf) hk
  · rw [hcur] at htop hlt
    cases htop
    rw [hd] at hpage
    obtain ⟨prev', next', hleaf⟩ := hst.planted.stored
    rw [hleaf] at hpage
    cases hpage
    exact hlt

theorem Tilled.on (h : Tilled f ls) {op : TreeOp} (hop : (Op.on i op).KeepsPages f)
    (hi : f.cursors[i]? = some cur) : ∃ l', Tilled (after (Op.on i op).run f) (ls.set i l') := by
  obtain ⟨l, hl, hst⟩ := h.leaf hi
  have hkeep := hop cur hi
  rw [Op.run, after_onCursor hi]
  cases op with
  | insert k value =>
    have hstay : (∃ v ∈ l.cells, v.key = k) ∨ payloadChunks value = none →
        ∃ l', Tilled ⟨(after (TreeOp.insert k value).run ⟨f.pager, cur⟩).pager, f.cursors.set i
          (after (TreeOp.insert k value).run ⟨f.pager, cur⟩).self⟩ (ls.set i l') := by
      intro hcase
      rw [← entries_single] at hcase
      have hfail : Fails (Cpplite.insert k value) _ _ _ := insert_fails hst hcase
      obtain ⟨-, -, hd, hst', -⟩ := (hfail ⟨f.pager, cur⟩ rfl rfl).after
      exact ⟨l, h.moved hi hl hst' hd⟩
    by_cases hk : ∃ v ∈ l.cells, v.key = k
    · exact hstay (.inl hk)
    · cases hch : payloadChunks value with
      | none => exact hstay (.inr hch)
      | some chunks =>
        obtain ⟨fl, hf⟩ := h.good.free
        rw [← entries_single] at hk
        have hk' : ∀ v ∈ entries (Tree.spine (K := DefaultPagerKey) (n := 0) l), v.key ≠ k :=
          fun v hv heq => hk ⟨v, hv, heq⟩
        obtain ⟨-, hcase⟩ :=
          (insert_exact h.good hst.valid hst.planted hf hk' hch ⟨f.pager, cur⟩ rfl rfl).after
        rcases hcase with hroom | ⟨c, l₀, hplug, -, hfull, -⟩
        · exact h.insert hi hl hst hf hroom rfl
        · obtain rfl := c.eq_top
          obtain rfl : l₀ = l := hplug
          exact absurd hfull (standing_room hst hkeep hk).ne
  | moveToKey k =>
    have hrun : Runs (TreeOp.moveToKey k).run f.pager.disk cur
        (fun _ d' cur' => d' = f.pager.disk ∧ Standing (n := 0) d' cur' l) := by
      refine (moveToKey_runs h.good hst.planted).bind ?_
      rintro found d' cur' ⟨rfl, c, l', i', harr⟩
      exact Runs.pure ⟨rfl, harr.standing hst⟩
    obtain ⟨-, hd, hst'⟩ := (hrun ⟨f.pager, cur⟩ rfl rfl).after
    exact ⟨l, h.moved hi hl (hd ▸ hst') hd⟩
  | remove =>
    obtain ⟨p, j, rest, cells, prev, next, v, hcur, hpage, hj, hnull⟩ := hkeep
    have hon : OnCell ⟨f.pager, cur⟩ :=
      ⟨p, j, rest, cells, prev, next, hcur, hpage, (List.getElem?_eq_some_iff.mp hj).1⟩
    obtain ⟨c, p', lo, w, hi', hplug, hcur'⟩ := hst.on_cell (s := ⟨f.pager, cur⟩) hon
    obtain rfl := c.eq_top
    subst hplug
    have hw : w.recordPage = nullPage := by
      have hleaf := hst.planted.leaf_page (c := (.top : BTreeCtx 0 0))
      rw [hcur] at hcur'
      cases hcur'
      rw [hpage] at hleaf
      cases hleaf
      rw [List.getElem?_append_right le_rfl, Nat.sub_self] at hj
      cases hj
      exact hnull
    obtain ⟨-, hd, hst', -⟩ :=
      (remove_root_runs h.good hst.valid hst.planted hcur' ⟨f.pager, cur⟩ rfl rfl).after
    exact ⟨_, h.remove hi hl hst hw hd hst' rfl⟩

theorem Tilled.create (h : Tilled f ls) {config : BTreeConfig} (hv : config.Valid) :
    ∃ root, Tilled (after (Op.createTree config).run f) (ls ++ [⟨root, []⟩]) := by
  obtain ⟨hd, h1⟩ := h.good.sound.first
  obtain ⟨root, t, hrun, rfl, ht⟩ := createLeafPage_yields h.good.sound h1
  have hpage : t.disk.page (f.pager.disk.total + 1) = .leaf [] nullPage nullPage := by
    rw [ht, h.good.sound.create_page_new]
  have hev : f.pager.disk.Evolves t.disk [] := by
    rw [ht]
    exact .create h.good h1
  refine ⟨f.pager.disk.total + 1, ?_⟩
  rw [after_createTree config hrun hpage]
  have hold : ∀ l ∈ ls, l.id ≤ f.pager.disk.total := by
    intro l hl
    obtain ⟨j, hj⟩ := List.mem_iff_getElem?.mp hl
    have hlt : j < f.cursors.length := by
      rw [← h.length_eq]
      exact (List.getElem?_eq_some_iff.mp hj).1
    have hst := h.standing j _ l (List.getElem?_eq_getElem hlt) hj
    exact h.good.le_total (hst.planted.stored.isTree l.id (List.mem_singleton.mpr rfl)).inUse
  refine ⟨hev.good, by simp [h.length_eq], ?_, ?_, ?_⟩
  · intro j curj k hcurj hk
    rcases getElem?_concat_cases hk with hk | ⟨rfl, rfl⟩
    · rcases getElem?_concat_cases hcurj with hcurj | ⟨rfl, rfl⟩
      · exact standing_frame (h.standing j curj k hcurj hk) hev List.not_mem_nil
      · rw [← h.length_eq, List.getElem?_eq_none le_rfl] at hk
        cases hk
    · rcases getElem?_concat_cases hcurj with hcurj | ⟨-, rfl⟩
      · rw [h.length_eq, List.getElem?_eq_none le_rfl] at hcurj
        cases hcurj
      · exact (Cpplite.holds_empty hev.good hv rfl hpage).toStanding
  · rw [List.map_append, List.nodup_append]
    refine ⟨h.ids_nodup, List.nodup_singleton _, ?_⟩
    intro a ha b hb
    obtain ⟨l, hl, rfl⟩ := List.mem_map.mp ha
    have hle := hold l hl
    have hb' : b = f.pager.disk.total + 1 := by simpa using hb
    omega
  · intro q h2 hle
    change q ≤ t.disk.total at hle
    have hsub : ∀ l ∈ ls, l ∈ ls ++ [(⟨f.pager.disk.total + 1, []⟩ : BTreeLeaf)] :=
      fun l hl => List.mem_append_left _ hl
    by_cases hq : q = f.pager.disk.total + 1
    · exact .inl ⟨⟨f.pager.disk.total + 1, []⟩, by simp, hq⟩
    · rw [ht, Disk.create_total] at hle
      rcases h.used q h2 (by omega) with
        ⟨k, hk, rfl⟩ | ⟨k, hk, v, hv, pages, payload, hc, hqp⟩ | ⟨fl, hfl, hqf⟩
      · exact .inl ⟨k, hsub k hk, rfl⟩
      · exact .inr (.inl ⟨k, hsub k hk, v, hv, pages, payload,
          chain_evolves hc h.good hev (by simp), hqp⟩)
      · refine .inr (.inr ⟨fl, ?_, hqf⟩)
        change t.disk.FreeList fl
        rw [ht]
        exact hfl.create h.good.sound h1

omit [Build] in
theorem tilled_fresh : Tilled fresh [] := by
  refine ⟨fresh_good, rfl, ?_, List.nodup_nil, ?_⟩
  · intro i cur l hcur
    cases hcur
  · intro q h2 hle
    change q ≤ 1 at hle
    omega

theorem Tilled.step (h : Tilled f ls) {op : Op} (hop : op.KeepsPages f) :
    ∃ ls', Tilled (after op.run f) ls' := by
  cases op with
  | createTree config =>
    obtain ⟨root, h'⟩ := h.create hop
    exact ⟨_, h'⟩
  | on i op =>
    cases hi : f.cursors[i]? with
    | none =>
      rw [Op.run, after_onCursor_none hi]
      exact ⟨ls, h⟩
    | some cur =>
      obtain ⟨l', h'⟩ := h.on hop hi
      exact ⟨_, h'⟩

end Steps

section Runs

variable [Build]

/-- The forest after a run; a call that throws leaves what it had already done. -/
def runOps (ops : List Op) (f : Forest) : Forest := ops.foldl (fun g op => after op.run g) f

def KeepsPagesAll : Forest → List Op → Prop
  | _, [] => True
  | f, op :: ops => op.KeepsPages f ∧ KeepsPagesAll (after op.run f) ops

theorem Tilled.run {ops : List Op} : ∀ {f : Forest} {ls : List BTreeLeaf}, Tilled f ls →
    KeepsPagesAll f ops → ∀ n, ∃ ls', Tilled (runOps (ops.take n) f) ls' := by
  induction ops with
  | nil =>
    intro f ls h _ n
    exact ⟨ls, by simpa [runOps] using h⟩
  | cons op ops ih =>
    rintro f ls h ⟨hop, hops⟩ n
    cases n with
    | zero => exact ⟨ls, h⟩
    | succ n =>
      obtain ⟨ls', h'⟩ := h.step hop
      exact ih h' hops n

/-- In every state of a run without splits and without removals of values that have pages, every
page is in a tree, in a chain or on the free list. -/
theorem runOps_noLeak (ops : List Op) (hops : KeepsPagesAll fresh ops) (n : Nat) :
    (runOps (ops.take n) fresh).NoLeak := by
  obtain ⟨ls, h⟩ := tilled_fresh.run hops n
  exact h.noLeak

end Runs

theorem runOps_noLeak_insert :
    letI : Build := ⟨true⟩
    (runOps [.createTree {}, .on 0 (.insert 5 [7]), .createTree {}] fresh).NoLeak := by
  let _ : Build := ⟨true⟩
  refine runOps_noLeak [.createTree {}, .on 0 (.insert 5 [7]), .createTree {}]
    ⟨default_valid, ?_, default_valid, trivial⟩ 3
  intro cur hcur
  have hone : (after (Op.createTree {}).run fresh).cursors = [⟨[], 2, {}⟩] := rfl
  rw [hone] at hcur
  cases hcur
  exact ⟨false, _, rfl, .inr ⟨2, 0, [], [], 0, 0, rfl, rfl, by decide⟩⟩

/-- One value stored and removed again leaves an empty root and three pages. -/
theorem runOps_emptied :
    (@runOps ⟨true⟩ [.createTree {}, .on 0 (.insert 5 [7]), .on 0 .remove] fresh).cursors =
      [⟨[], 2, {}⟩] ∧
    (@runOps ⟨true⟩ [.createTree {}, .on 0 (.insert 5 [7]), .on 0 .remove] fresh).pager.disk.page 2 =
      .leaf [] 0 0 ∧
    (@runOps ⟨true⟩ [.createTree {}, .on 0 (.insert 5 [7]), .on 0 .remove] fresh).pager.disk.page 1 =
      .first ⟨2, nullPage, 1⟩ ∧
    (@runOps ⟨true⟩ [.createTree {}, .on 0 (.insert 5 [7]), .on 0 .remove]
      fresh).pager.totalNumPages = 3 := by
  decide +kernel

theorem runOps_stored :
    (@runOps ⟨true⟩ [.createTree {}, .on 0 (.insert 5 [7])] fresh).cursors = [⟨[(2, 0)], 2, {}⟩] ∧
    (@runOps ⟨true⟩ [.createTree {}, .on 0 (.insert 5 [7])] fresh).pager.disk.page 2 =
      .leaf [⟨1, 5, 3⟩] 0 0 := by
  decide +kernel

theorem reached_emptied : @Reached ⟨true⟩
    (@runOps ⟨true⟩ [.createTree {}, .on 0 (.insert 5 [7]), .on 0 .remove] fresh) := by
  have h₁ := @Reached.step ⟨true⟩ _ (.createTree {}) (@Reached.fresh ⟨true⟩) default_valid trivial
  have h₂ := @Reached.step ⟨true⟩ _ (.on 0 (.insert 5 [7])) h₁ (fun _ _ => trivial)
    (show 1 ≤ 2 ^ 32 - 4096 by decide)
  refine @Reached.step ⟨true⟩ _ (.on 0 .remove) h₂ ?_ trivial
  intro cur hcur
  obtain ⟨hone, hpage⟩ := runOps_stored
  have hcur' := hcur
  change (@runOps ⟨true⟩ [.createTree {}, .on 0 (.insert 5 [7])] fresh).cursors[0]? = _ at hcur'
  rw [hone] at hcur'
  cases hcur'
  exact ⟨2, 0, [], [⟨1, 5, 3⟩], 0, 0, rfl, hpage, by decide⟩

/-- The page of a removed value is in no tree, in no chain and not on the free list. -/
theorem reached_noLeak_fails : ¬ ∀ f : Forest, @Reached ⟨true⟩ f → f.NoLeak := by
  intro h
  obtain ⟨hcur, hroot, hfirst, htotal⟩ := runOps_emptied
  have huse := h _ reached_emptied 3 (by decide) htotal.ge
  clear h htotal
  generalize @runOps ⟨true⟩ [.createTree {}, .on 0 (.insert 5 [7]), .on 0 .remove] fresh = f at *
  -- the only tree is the empty leaf on page 2
  have hreaches : ∀ (i q : Nat) (cur : BTreeCursor), f.cursors[i]? = some cur →
      f.pager.disk.Reaches cur.rootPgno q → q = 2 := by
    intro i q cur hi hr
    rw [hcur] at hi
    cases i with
    | zero =>
      cases hi
      rcases Relation.ReflTransGen.cases_head hr with rfl | ⟨r, ⟨cells, right, hp, -⟩, -⟩
      · rfl
      · rw [hroot] at hp
        cases hp
    | succ i => cases hi
  rcases huse with ⟨i, cur, hi, hr⟩ | ⟨i, p, j, v, hv, -⟩ | ⟨fl, ⟨hd, h1, hc⟩, hq⟩
  · cases hreaches i 3 cur hi hr
  · obtain ⟨cur, hi, cells, prev, next, hr, hpage, hj⟩ := hv
    rw [hreaches i p cur hi hr, hroot] at hpage
    cases hpage
    cases hj
  · rw [hfirst] at h1
    cases h1
    rw [hc.nil_of_null] at hq
    cases hq

end Forest

end Cpplite
