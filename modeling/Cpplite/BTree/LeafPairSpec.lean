import Cpplite.BTree.BalanceSpec
import Cpplite.BTree.LinkSpec

/-!
Two neighbouring leaves: a cell moves over and the separator follows the right leaf's
first key, or the left leaf's cells move into the right one and the left page is freed.
-/
namespace Cpplite

open Exec Search Linked HeightTree

/-! ### Pages -/

section Pages

variable {d : Disk} {cur : BTreeCursor} {p pt pu r a b : Nat} {k : DefaultPagerKey}
  {lo hi : List NodeCell} {ts us : List LeafCell} {x y : LeafCell} {isLeft : Bool} [Build]

theorem borrowLeafSiblingCell_null {sep : BTreeCursorNode} :
    Steps (borrowLeafSiblingCell pu nullPage sep isLeft) d cur false d cur := by
  unfold borrowLeafSiblingCell
  exact Runs.ite_pos rfl steps_pure

/-- A sibling with nothing to spare. -/
theorem borrowLeafSiblingCell_min {sep : BTreeCursorNode} (h0 : pt ≠ nullPage)
    (ht : d.page pt = .leaf ts a b) (hmin : ts.length ≤ cur.config.leafMinCells) :
    Steps (borrowLeafSiblingCell pu pt sep isLeft) d cur false d cur := by
  unfold borrowLeafSiblingCell
  refine Runs.ite_neg h0 ?_
  refine (steps_loadLeaf ht).then ?_
  refine (steps_assert (.inr rfl)).then ?_
  refine steps_getSelf.then ?_
  exact Runs.ite_pos hmin steps_pure

/-- The last cell of the left leaf moves over; the separator becomes its key. -/
theorem borrowLeafSiblingCell_left (cur : BTreeCursor) (h0 : pt ≠ nullPage)
    (hp : d.page p = .node (lo ++ ⟨k, pt⟩ :: hi) r)
    (ht : d.page pt = .leaf (ts ++ [x]) a pu) (hu : d.page pu = .leaf us pt b)
    (hpt : p ≠ pt) (hpu : p ≠ pu) (htu : pt ≠ pu) (hlo : ∀ c ∈ lo, c.key < k)
    (hhi : ∀ c ∈ hi, k < c.key) (hts : ∀ c ∈ ts, c.key < x.key) (hus : ∀ c ∈ us, x.key < c.key)
    (hroom : us.length < leafMaxCells) (hmin : cur.config.leafMinCells ≤ ts.length) :
    Steps (borrowLeafSiblingCell pu pt (p, lo.length) true) d cur true
      (((d.set pt (.leaf ts a pu)).set pu (.leaf (x :: us) pt b)).set p
        (.node (lo ++ ⟨x.key, pt⟩ :: hi) r)) cur := by
  have hlen : (leafManager pt (ts ++ [x]) a pu).numCells = ts.length + 1 := by simp [leafManager]
  unfold borrowLeafSiblingCell
  refine Runs.ite_neg h0 ?_
  refine (steps_loadLeaf ht).then ?_
  refine (steps_assert (.inr rfl)).then ?_
  refine steps_getSelf.then ?_
  refine Runs.ite_neg (by rw [hlen]; omega) ?_
  refine (steps_loadLeaf hu).then ?_
  refine (steps_assertPageType (by simp [hp, LogicalPage.type?])).then ?_
  refine (steps_loadNode hp).then ?_
  refine (steps_assert (.inr rfl)).then ?_
  refine (steps_assert (.inr (by simp [nodeManager]))).then ?_
  refine (steps_index (a := ⟨k, pt⟩) (by simp [nodeManager])).then ?_
  refine (steps_assert (.inr (.inl rfl))).then ?_
  refine Runs.ite_pos rfl ?_
  refine (steps_index (a := x) (by simp [leafManager])).then ?_
  refine (steps_deleteCell ht hts (by simp)).then ?_
  rw [List.append_nil]
  refine (steps_assert (.inr hmin)).then ?_
  have hu' : (d.set pt (.leaf ts a pu)).page pu = .leaf ([] ++ us) pt b := by
    rw [Disk.set_page_of_ne (Ne.symm htu), hu]
    rfl
  refine (steps_writeCell hu' (by simp) hus hroom).then ?_
  refine (steps_updateCellKey (d := (d.set pt (.leaf ts a pu)).set pu (.leaf ([] ++ x :: us) pt b))
    (by rw [Disk.set_page_of_ne hpu, Disk.set_page_of_ne hpt, hp]) hlo hhi).then ?_
  exact steps_pure

/-- The first cell of the right leaf moves over; the separator becomes the key after it. -/
theorem borrowLeafSiblingCell_right (cur : BTreeCursor) (h0 : pu ≠ nullPage)
    (hp : d.page p = .node (lo ++ ⟨k, pt⟩ :: hi) r)
    (ht : d.page pt = .leaf ts a pu) (hu : d.page pu = .leaf (x :: y :: us) pt b)
    (hpt : p ≠ pt) (hpu : p ≠ pu) (htu : pt ≠ pu) (hlo : ∀ c ∈ lo, c.key < k)
    (hhi : ∀ c ∈ hi, k < c.key) (hts : ∀ c ∈ ts, c.key < x.key)
    (hus : ∀ c ∈ y :: us, x.key < c.key) (hroom : ts.length < leafMaxCells)
    (hmin : cur.config.leafMinCells ≤ (y :: us).length) :
    Steps (borrowLeafSiblingCell pt pu (p, lo.length) false) d cur true
      (((d.set pu (.leaf (y :: us) pt b)).set pt (.leaf (ts ++ [x]) a pu)).set p
        (.node (lo ++ ⟨y.key, pt⟩ :: hi) r)) cur := by
  have hlen : (leafManager pu (x :: y :: us) pt b).numCells = (y :: us).length + 1 := rfl
  unfold borrowLeafSiblingCell
  refine Runs.ite_neg h0 ?_
  refine (steps_loadLeaf hu).then ?_
  refine (steps_assert (.inr rfl)).then ?_
  refine steps_getSelf.then ?_
  refine Runs.ite_neg (by rw [hlen]; omega) ?_
  refine (steps_loadLeaf ht).then ?_
  refine (steps_assertPageType (by simp [hp, LogicalPage.type?])).then ?_
  refine (steps_loadNode hp).then ?_
  refine (steps_assert (.inr rfl)).then ?_
  refine (steps_assert (.inr (by simp [nodeManager]))).then ?_
  refine (steps_index (a := ⟨k, pt⟩) (by simp [nodeManager])).then ?_
  refine (steps_assert (.inr (.inr rfl))).then ?_
  refine Runs.ite_neg (by decide) ?_
  refine (steps_index (a := x) (by simp [leafManager])).then ?_
  refine (steps_deleteCell (show _ = LogicalPage.leaf ([] ++ _ :: _) _ _ from hu) (by simp) hus).then ?_
  refine (steps_assert (.inr hmin)).then ?_
  have ht' : (d.set pu (.leaf ([] ++ y :: us) pt b)).page pt = .leaf (ts ++ []) a pu := by
    rw [Disk.set_page_of_ne htu, ht, List.append_nil]
  have hins := steps_writeCell (c := cur) ht' hts (by simp) (by simpa using hroom)
  rw [List.append_nil] at hins
  refine hins.then ?_
  refine (steps_index (a := y) (by simp [leafManager])).then ?_
  refine (steps_assert (.inr (hus y (by simp)))).then ?_
  refine (steps_updateCellKey
    (d := (d.set pu (.leaf ([] ++ y :: us) pt b)).set pt (.leaf (ts ++ [x]) a pu))
    (by rw [Disk.set_page_of_ne hpt, Disk.set_page_of_ne hpu, hp]) hlo hhi).then ?_
  exact steps_pure

theorem writeAll_steps : ∀ (rest done : List LeafCell) (d : Disk),
    d.page p = .leaf (done ++ us) a b → KeySorted LeafCell.key (done ++ rest ++ us) →
    (done ++ rest ++ us).length ≤ leafMaxCells →
    Steps (rest.foldlM (fun lpm cell => do
        let (_, lpm) ← lpm.writeCell cell
        pure lpm : LeafPageManager → LeafCell → BTreeM LeafPageManager)
      (leafManager p (done ++ us) a b)) d cur (leafManager p (done ++ rest ++ us) a b)
      (d.set p (.leaf (done ++ rest ++ us) a b)) cur
  | [], done, d, h, _, _ => by
    rw [List.append_nil, Disk.set_self h]
    exact steps_pure
  | c :: rest, done, d, h, hs, hl => by
    have happ : done ++ c :: rest ++ us = (done ++ [c]) ++ rest ++ us := by simp
    have hs' : KeySorted LeafCell.key (done ++ c :: (rest ++ us)) := by simpa using hs
    obtain ⟨hlt, hgt⟩ := hs'.around
    have hroom : (done ++ us).length < leafMaxCells := by
      simp only [List.length_append, List.length_cons] at hl ⊢
      omega
    rw [happ, List.foldlM_cons]
    have hw := steps_writeCell (c := cur) h hlt (fun b hb => hgt b (List.mem_append_right _ hb)) hroom
    have hstep : Steps (do
        let (_, lpm) ← (leafManager p (done ++ us) a b).writeCell c
        pure lpm : BTreeM LeafPageManager) d cur (leafManager p (done ++ c :: us) a b)
        (d.set p (.leaf (done ++ c :: us) a b)) cur := hw.then steps_pure
    refine hstep.then ?_
    have hrest := writeAll_steps rest (done ++ [c]) (d.set p (.leaf (done ++ c :: us) a b))
      (by simp) (by rwa [happ] at hs) (by rwa [happ] at hl)
    rw [Disk.set_set, List.append_cons done c us |>.symm] at hrest
    exact hrest

/-- `merge_with_leaf_sibling` up to the point where the parent is looked at: the right leaf holds
all cells, the left one is linked out and freed. -/
theorem mergeWithLeafSibling_fill {Q : Unit → Disk → BTreeCursor → Prop} {i curr : Nat}
    {hd : PagerFirstPageHeader} {cells : List NodeCell} (hg : d.Good) (h1 : d.page 1 = .first hd)
    (hcells : cells = lo ++ ⟨k, pt⟩ :: hi) (hp : d.page p = .node cells r)
    (ht : d.page pt = .leaf ts a pu) (hu : d.page pu = .leaf us pt b)
    (ha : a = nullPage ∨ ∃ cs a', d.page a = .leaf cs a' pt) (hapu : a ≠ pu)
    (hpt : p ≠ pt) (hpu : p ≠ pu) (htu : pt ≠ pu)
    (hmp : Steps (mergePair (nodeManager p cells r) i curr) d cur (⟨k, pt⟩, pt, pu) d cur)
    (hi' : i ≤ cells.length) (hcurr : curr = pt ∨ curr = pu)
    (hplace : (i = cells.length ∧ r = curr) ∨
      (i < cells.length ∧ cells[i]?.map NodeCell.leftChild = some curr))
    (hlo : ∀ c ∈ lo, c.key < k) (hhi : ∀ c ∈ hi, k < c.key)
    (hs : KeySorted LeafCell.key (ts ++ us))
    (hroom : ts.length + us.length ≤ cur.config.leafMaxCells)
    (hmax : cur.config.leafMaxCells ≤ leafMaxCells)
    (hQ : Runs (if p = cur.rootPgno ∧ (lo ++ hi).length = 0 then do
          insertFreelist cur.rootPgno
          setRootPgno pu
        else if p ≠ cur.rootPgno ∧ (lo ++ hi).length < cur.config.nodeMinCells then
          balanceNode cur.cursor p
        else pure ())
      ((((d.set pu (.leaf (ts ++ us) pt b)).set p (.node (lo ++ hi) r)).unlinkLeft a pu).free pt hd)
      cur Q) :
    Runs (mergeWithLeafSibling (p, i) curr) d cur Q := by
  have hleaf : ∀ x, x = pt ∨ x = pu → (d.page x).type? = some .leafPage := by
    rintro x (rfl | rfl)
    · rw [ht]
      rfl
    · rw [hu]
      rfl
  have hptree : (d.page p).IsTree := by rw [hp]; trivial
  have hputree : (d.page pu).IsTree := by rw [hu]; trivial
  unfold mergeWithLeafSibling
  refine (steps_assert (.inr (hg.ne_zero hptree.inUse.1))).then ?_
  refine (steps_assertPageType (by simp [hp, LogicalPage.type?])).then ?_
  refine (steps_assertPageType (hleaf curr hcurr)).then ?_
  refine (steps_loadNode hp).then ?_
  refine (steps_assert (.inr rfl)).then ?_
  refine (steps_assert (.inr hi')).then ?_
  refine (steps_assert (.inr hplace)).then ?_
  refine hmp.then ?_
  refine (steps_assertPageType (hleaf _ (by split <;> simp))).then ?_
  refine (steps_loadLeaf ht).then ?_
  refine (steps_loadLeaf hu).then ?_
  refine steps_getSelf.then ?_
  refine (steps_assert (.inr hroom)).then ?_
  refine (writeAll_steps ts [] d hu hs (by
    simp only [List.nil_append, List.length_append]
    omega)).then ?_
  rw [List.nil_append]
  have hd1 : ∀ x, x ≠ pu → (d.set pu (.leaf (ts ++ us) pt b)).page x = d.page x :=
    fun x hx => Disk.set_page_of_ne hx
  refine (steps_assertPageType ?_).then ?_
  · by_cases hx : (if i = (nodeManager p cells r).numCells then pt else pu) = pu
    · rw [hx, Disk.set_page_self]
      rfl
    · rw [hd1 _ hx]
      exact hleaf _ (by split <;> simp)
  subst hcells
  refine (steps_deleteNodeCell (by rw [hd1 p hpu, hp]) hlo hhi).then ?_
  have hd2 : ∀ x, x ≠ pu → x ≠ p →
      ((d.set pu (.leaf (ts ++ us) pt b)).set p (.node (lo ++ hi) r)).page x = d.page x :=
    fun x h1 h2 => by rw [Disk.set_page_of_ne h2, hd1 x h1]
  have hu2 : ((d.set pu (.leaf (ts ++ us) pt b)).set p (.node (lo ++ hi) r)).page pu =
      .leaf (ts ++ us) pt b := by
    rw [Disk.set_page_of_ne (Ne.symm hpu), Disk.set_page_self]
  have hg2 : ((d.set pu (.leaf (ts ++ us) pt b)).set p (.node (lo ++ hi) r)).Good := by
    refine (hg.set hputree).set ?_
    rw [hd1 p hpu]
    exact hptree
  have h1' := hd2 1 (Ne.symm (hg.ne_one hputree)) (Ne.symm (hg.ne_one hptree))
  have ht2 := hd2 pt htu (Ne.symm hpt)
  have ha2 : a = nullPage ∨ ∃ cs a',
      ((d.set pu (.leaf (ts ++ us) pt b)).set p (.node (lo ++ hi) r)).page a = .leaf cs a' pt := by
    refine ha.imp_right ?_
    rintro ⟨cs, a', hpa⟩
    refine ⟨cs, a', ?_⟩
    rw [hd2 a hapu ?_, hpa]
    rintro rfl
    rw [hp] at hpa
    cases hpa
  rw [h1] at h1'
  rw [ht] at ht2
  generalize (d.set pu (.leaf (ts ++ us) pt b)).set p (.node (lo ++ hi) r) = e at *
  refine (steps_loadLeaf ht2).then ?_
  refine (steps_loadLeaf hu2).then ?_
  refine (steps_setPrevPage hu2).then ?_
  rw [← Disk.setPrev_eq hu2]
  have hne : ∀ x, x ≠ pu → (e.setPrev pu a).page x = e.page x := fun x => Disk.setPrev_page_of_ne
  refine Runs.bind (relinkNext_runs (d := e.setPrev pu a) (q := a) (x := pu)
    (Q := fun _ d' c' => d' = e.unlinkLeft a pu ∧ c' = cur) hg2.setPrev ?_ ?_ ⟨rfl, rfl⟩) ?_
  · refine ha2.imp_right ?_
    rintro ⟨cs, a', hpa⟩
    exact ⟨cs, a', pt, by rw [hne a hapu, hpa]⟩
  · intro cs a' b' hpa
    have hb : b' = pt := by
      rcases ha2 with rfl | ⟨cs', a'', hpa'⟩
      · rw [hne _ hapu, nullPage, hg2.zero] at hpa
        cases hpa
      · rw [hne _ hapu, hpa'] at hpa
        cases hpa
        rfl
    refine (steps_assertPageType (p := a) (by rw [hpa]; rfl)).then ?_
    refine (steps_loadLeaf hpa).then ?_
    refine (steps_assert (.inr hb)).then ?_
    refine (steps_setNextPage hpa).then ?_
    exact steps_pure
  rintro _ d' cur ⟨rfl, rfl⟩
  have hcore1 : (e.unlinkLeft a pu).page 1 = .first hd :=
    (LogicalPage.eq_of_core Disk.unlinkLeft_core (by simp [h1'])).trans h1'
  have hptn : (e.unlinkLeft a pu).page pt ≠ .none := by
    intro hn
    have hc : ((e.unlinkLeft a pu).page pt).core = (e.page pt).core := Disk.unlinkLeft_core
    rw [hn, ht2] at hc
    cases hc
  refine (steps_insertFreelist hcore1 (hg.ne_one (by rw [ht]; trivial)) hptn).then ?_
  refine steps_getSelf.then ?_
  exact hQ

end Pages

/-! ### Trees -/

section Trees

variable {m : Nat} {d d' : Disk} {cur : BTreeCursor} {up : BTreeCtx m 1} {f f₀ : BTreeFrame 0}
  {p q : Nat} {l₁ l₂ : List LeafCell} {k k' : DefaultPagerKey}

/-- The cells of leaf `l` have stayed together, in a leaf of the spine `s`. Others may have joined
them there, and `behind` says whether some stand behind them. -/
def Kept (c : BTreeCtx m 0) (l : BTreeLeaf) (s : Spine) (behind : Prop) : Prop :=
  ∃ (q : Nat) (pre post : List LeafCell) (s₁ s₂ : Spine),
    s = s₁ ++ .inl ⟨q, pre ++ l.cells ++ post⟩ :: s₂ ∧ (post ≠ [] ↔ behind) ∧
    ∀ cells, Ordered LeafCell.key (c.plug ⟨l.id, cells⟩).spine →
      Ordered LeafCell.key (s₁ ++ .inl ⟨q, pre ++ cells ++ post⟩ :: s₂)

/-- The tree is whole again and has the cells it had. -/
def Mended (d : Disk) (cur : BTreeCursor) (c : BTreeCtx m 0) (l : BTreeLeaf) (behind : Prop)
    (d' : Disk) (cur' : BTreeCursor) : Prop :=
  ∃ (m' : Nat) (t' : BTree m'), Updated d d' cur cur' (c.plug l).ids t' ∧
    entries t'.spine = entries (c.plug l).spine ∧ Kept c l t'.spine behind

theorem spine_pair : (up.plug (f.plug₂ (⟨p, l₁⟩ : BTreeLeaf) k ⟨q, l₂⟩)).spine =
    (Ctx.step f up).spineL ++ .inl ⟨p, l₁⟩ :: .inr k :: .inl ⟨q, l₂⟩ :: (Ctx.step f up).spineR := by
  rw [Ctx.spine_plug, ← spine_step₂]
  change (Ctx.step f up).spineL ++ ([.inl ⟨p, l₁⟩] ++ .inr k :: [.inl ⟨q, l₂⟩]) ++ _ = _
  simp

theorem leafIds_pair : leafIds (up.plug (f.plug₂ (⟨p, l₁⟩ : BTreeLeaf) k ⟨q, l₂⟩)).spine =
    leafIds (Ctx.step f up).spineL ++ p :: q :: leafIds (Ctx.step f up).spineR := by
  rw [spine_pair]
  simp

/-- The pages of two neighbouring leaves. -/
theorem Pair.leaf_pages (h : Pair (n := 0) d cur up f ⟨p, l₁⟩ k ⟨q, l₂⟩)
    (hs : Segment d.links nullPage
      (leafIds (up.plug (f.plug₂ (⟨p, l₁⟩ : BTreeLeaf) k ⟨q, l₂⟩)).spine) nullPage) :
    d.page p = .leaf l₁ ((leafIds (Ctx.step f up).spineL).getLastD nullPage) q ∧
      d.page q = .leaf l₂ p ((leafIds (Ctx.step f up).spineR).headD nullPage) := by
  obtain ⟨-, ⟨a, b, hp⟩, ⟨a', b', hq⟩, -⟩ := stored_frame₂.mp (stored_plug.mp h.stored).2
  replace hp : d.page p = .leaf l₁ a b := hp
  replace hq : d.page q = .leaf l₂ a' b' := hq
  rw [leafIds_pair] at hs
  obtain ⟨-, hlp, hlq, -⟩ := segment_append.mp hs
  rw [Disk.links_eq hp] at hlp
  rw [Disk.links_eq hq] at hlq
  cases hlp
  cases hlq
  exact ⟨hp, hq⟩

/-- The cells of both leaves are one sorted line. -/
theorem Pair.leaf_line (h : Pair (n := 0) d cur up f ⟨p, l₁⟩ k ⟨q, l₂⟩) :
    KeySorted LeafCell.key (l₁ ++ l₂) := by
  have ho := h.ordered
  rw [spine_pair] at ho
  have hs := (ho.join (i := p)).keySorted_entries
  rw [entries_append, entries_leaf] at hs
  exact hs.sublist ((List.sublist_append_left _ _).trans (List.sublist_append_right _ _))

theorem Mended.congr {c : BTreeCtx m 0} {l : BTreeLeaf} {a b : Prop} {cur' : BTreeCursor}
    (h : Mended d cur c l a d' cur') (hab : a ↔ b) : Mended d cur c l b d' cur' := by
  obtain ⟨m', t', hup, hent, q, pre, post, s₁, s₂, hs, hpost, hord⟩ := h
  exact ⟨m', t', hup, hent, q, pre, post, s₁, s₂, hs, hpost.trans hab, hord⟩

section Kept

variable {x y a : LeafCell} {ls us : List LeafCell} {l : BTreeLeaf}

/-- A cell from the left sibling goes in front. -/
theorem kept_borrowLeft (hplug : ∀ w, f₀.plug w = f.plug₂ (⟨p, a :: ls ++ [x]⟩ : BTreeLeaf) k w) :
    Kept (.step f₀ up) l ((Ctx.step f up).spineL ++ .inl ⟨p, a :: ls⟩ :: .inr x.key ::
      .inl ⟨l.id, x :: l.cells⟩ :: (Ctx.step f up).spineR) False := by
  refine ⟨l.id, [x], [], (Ctx.step f up).spineL ++ [.inl ⟨p, a :: ls⟩, .inr x.key],
    (Ctx.step f up).spineR, by simp, by simp, ?_⟩
  intro cells ho
  rw [Ctx.plug, hplug, spine_pair] at ho
  have hj := ho.join (i := p)
  rw [List.append_assoc] at hj
  have hc := hj.cut (q := p) (i := l.id)
  simpa using hc

/-- A cell from the right sibling goes behind. -/
theorem kept_borrowRight (hplug : ∀ w, f₀.plug w = f.plug₂ w k (⟨q, x :: y :: us⟩ : BTreeLeaf)) :
    Kept (.step f₀ up) l ((Ctx.step f up).spineL ++ .inl ⟨l.id, l.cells ++ [x]⟩ :: .inr y.key ::
      .inl ⟨q, y :: us⟩ :: (Ctx.step f up).spineR) True := by
  refine ⟨l.id, [], [x], (Ctx.step f up).spineL,
    .inr y.key :: .inl ⟨q, y :: us⟩ :: (Ctx.step f up).spineR, by simp, by simp, ?_⟩
  intro cells ho
  rw [Ctx.plug, hplug, spine_pair] at ho
  have hj := ho.join (i := q)
  obtain ⟨b, bs, hb⟩ : ∃ b bs, cells ++ [x] = b :: bs := List.exists_cons_of_length_pos (by simp)
  have hsplit : cells ++ x :: y :: us = b :: bs ++ y :: us := by simp [← hb]
  rw [hsplit] at hj
  have hc := hj.cut (q := l.id) (i := q)
  rw [← hb] at hc
  simpa using hc

theorem kept_mergeRight (hplug : ∀ w, f₀.plug w = f.plug₂ w k (⟨q, l₂⟩ : BTreeLeaf)) (h₂ : l₂ ≠ []) :
    Kept (.step f₀ up) l ((Ctx.step f up).spineL ++ .inl ⟨q, l.cells ++ l₂⟩ :: (Ctx.step f up).spineR)
      True := by
  refine ⟨q, [], l₂, _, _, rfl, by simp [h₂], ?_⟩
  intro cells ho
  rw [Ctx.plug, hplug, spine_pair] at ho
  exact ho.join

theorem kept_mergeLeft (hplug : ∀ w, f₀.plug w = f.plug₂ (⟨p, l₁⟩ : BTreeLeaf) k w) :
    Kept (.step f₀ up) l ((Ctx.step f up).spineL ++ .inl ⟨l.id, l₁ ++ l.cells⟩ ::
      (Ctx.step f up).spineR) False := by
  refine ⟨l.id, l₁, [], (Ctx.step f up).spineL, (Ctx.step f up).spineR, by simp, by simp, ?_⟩
  intro cells ho
  rw [Ctx.plug, hplug, spine_pair] at ho
  have hj := ho.join (i := l.id)
  simpa using hj

end Kept

/-- The cells of two leaves dealt out anew under the right one's first key. -/
theorem Pair.recut_leaf {a v : LeafCell} {l : BTreeLeaf} {behind : Prop} (ls rs : List LeafCell)
    (h : Pair (n := 0) d cur up f ⟨p, l₁⟩ k ⟨q, l₂⟩) (heq : l₁ ++ l₂ = a :: ls ++ v :: rs)
    (hplug : (Ctx.step f₀ up).plug l = up.plug (f.plug₂ (⟨p, l₁⟩ : BTreeLeaf) k ⟨q, l₂⟩))
    (hs : Segment d.links nullPage
      (leafIds (up.plug (f.plug₂ (⟨p, l₁⟩ : BTreeLeaf) k ⟨q, l₂⟩)).spine) nullPage)
    (hev : d.Evolves d' (up.plug (f.plug₂ (⟨p, l₁⟩ : BTreeLeaf) k ⟨q, l₂⟩)).ids)
    (hf : d'.page f.id = .node (preCells f ++ ⟨v.key, p⟩ :: (restCells f q).1) (restCells f q).2)
    (hp : d'.page p =
      .leaf (a :: ls) ((leafIds (Ctx.step f up).spineL).getLastD nullPage) q)
    (hq : d'.page q = .leaf (v :: rs) p ((leafIds (Ctx.step f up).spineR).headD nullPage))
    (hsame : ∀ x, x ≠ f.id → x ≠ p → x ≠ q → d'.page x = d.page x)
    (h₁ : cur.config.leafMinCells ≤ (a :: ls).length ∧ (a :: ls).length ≤ cur.config.leafMaxCells)
    (h₂ : cur.config.leafMinCells ≤ (v :: rs).length ∧ (v :: rs).length ≤ cur.config.leafMaxCells)
    (hkept : Kept (.step f₀ up) l ((Ctx.step f up).spineL ++ .inl ⟨p, a :: ls⟩ :: .inr v.key ::
      .inl ⟨q, v :: rs⟩ :: (Ctx.step f up).spineR) behind) :
    Mended d cur (.step f₀ up) l behind d' cur := by
  obtain ⟨hpp, hqq⟩ := h.leaf_pages hs
  have hr := h.rotate (n := 0) (v := (⟨p, a :: ls⟩ : BTreeLeaf))
    (w := (⟨q, v :: rs⟩ : BTreeLeaf)) hev.good hf ⟨_, _, hp⟩ ⟨_, _, hq⟩ (fun x _ h1 h2 h3 => ?_)
    (List.Perm.refl _) h₁ h₂
  · have ho := h.ordered
    rw [spine_pair] at ho
    have ho := (ho.join (i := p))
    rw [heq] at ho
    have ho := ho.cut (q := p) (i := q)
    rw [← spine_pair] at ho
    rw [Mended, hplug]
    refine ⟨m, _, hr.updated rfl h.good hev (fun x hx => .inl hx) ho ?_, ?_, ?_⟩
    · rw [leafIds_pair] at hs ⊢
      refine (segment_congr ?_).mpr hs
      intro x hx
      by_cases hxp : x = p
      · rw [hxp, Disk.links_eq hp, Disk.links_eq hpp]
      by_cases hxq : x = q
      · rw [hxq, Disk.links_eq hq, Disk.links_eq hqq]
      refine Disk.links_congr (hsame x ?_ hxp hxq)
      rintro rfl
      -- the parent's page is no leaf
      obtain ⟨e, he⟩ := hs.of_mem hx
      obtain ⟨cells, hc⟩ := Disk.links_some he
      obtain ⟨hpf, -⟩ := stored_frame₂.mp (stored_plug.mp h.stored).2
      rw [hpf] at hc
      cases hc
    · rw [spine_pair, spine_pair]
      simp only [entries_append, entries_leaf, entries_sep]
      rw [← List.append_assoc (a :: ls), ← heq, List.append_assoc]
    · rw [spine_pair]
      exact hkept
  · rw [hsame x h1]
    · rintro rfl
      exact h2 (Tree.id_mem_ids (n := 0) _)
    · rintro rfl
      exact h3 (Tree.id_mem_ids (n := 0) _)

/-- A leaf one cell short, the chain of leaves in place. -/
structure Lacking (d : Disk) (cur : BTreeCursor) (c : BTreeCtx m 0) (l : BTreeLeaf) : Prop
    extends Hung d cur c l where
  linked : Segment d.links nullPage (leafIds (c.plug l).spine) nullPage
  size_eq : l.cells.length + 1 = cur.config.leafMinCells

/-- How borrowing for a leaf ends: the tree is whole, or the sibling has nothing to spare. -/
def BorrowedLeaf (d : Disk) (cur : BTreeCursor) (c : BTreeCtx m 0) (l : BTreeLeaf)
    (sibling : Option (BTree 0)) (behind : Prop) (b : Bool) (d' : Disk) (cur' : BTreeCursor) : Prop :=
  (b = true ∧ Mended d cur c l behind d' cur' ∧
      ∃ u : BTreeLeaf, sibling = some u ∧ cur.config.leafMinCells < u.cells.length) ∨
    (b = false ∧ d' = d ∧ cur' = cur ∧
      ∀ u : BTreeLeaf, sibling = some u → u.cells.length = cur.config.leafMinCells)

/-- A short leaf below `f` is refilled from its right sibling: it has one, and the left one has no
cell to spare. -/
def FromRight (cfg : BTreeConfig) (f : BTreeFrame 0) : Prop :=
  f.pre.length < f.size ∧ ∀ u : BTreeLeaf, f.left? = some u → u.cells.length = cfg.leafMinCells

section Borrow

variable [Build]

theorem borrowLeafLeft_runs {l : BTreeLeaf} (hv : cur.config.Valid)
    (h : Lacking d cur (.step f₀ up) l) :
    Runs (borrowLeafSiblingCell l.id (idOf f₀.left?) (f₀.id, f₀.pre.length - 1) true) d cur
      (BorrowedLeaf d cur (.step f₀ up) l f₀.left? False) := by
  cases hl : f₀.left? with
  | none =>
    refine Runs.mono borrowLeafSiblingCell_null ?_
    rintro _ _ _ ⟨rfl, rfl, rfl⟩
    exact .inr ⟨rfl, rfl, rfl, by simp⟩
  | some u =>
    obtain ⟨f, k, hplug, hid, hpre, -, hpair, hfu⟩ := h.toHung.left_pair hl
    obtain ⟨hmin, hmax⟩ := hfu
    have hplug' : (Ctx.step f₀ up).plug l = up.plug (f.plug₂ u k l) := by rw [Ctx.plug, hplug]
    have hlinked := h.linked
    rw [hplug'] at hlinked
    have hsz := h.size_eq
    obtain ⟨pu, uc⟩ := u
    obtain ⟨pt, us⟩ := l
    obtain ⟨hpu, hpt⟩ := hpair.leaf_pages hlinked
    have hu0 : pu ≠ nullPage := hpair.good.ne_zero (by rw [hpu]; simp)
    change Runs (borrowLeafSiblingCell pt pu (f₀.id, f₀.pre.length - 1) true) _ _ _
    by_cases heq : uc.length ≤ cur.config.leafMinCells
    · refine Runs.mono (borrowLeafSiblingCell_min hu0 hpu heq) ?_
      rintro _ _ _ ⟨rfl, rfl, rfl⟩
      refine .inr ⟨rfl, rfl, rfl, ?_⟩
      rintro _ ⟨⟩
      exact le_antisymm heq hmin
    obtain ⟨ts, x, rfl⟩ : ∃ ts x, uc = ts ++ [x] := by
      refine (List.eq_nil_or_concat' uc).resolve_left ?_
      rintro rfl
      exact heq (Nat.zero_le _)
    simp only [List.length_append, List.length_singleton] at hmin hmax heq
    simp only [BTreeConfig.bounds] at hmin hmax
    have hmin1 := hv.leaf_min
    have hspl := hv.leaf_split
    have hlmax := hv.leaf_max
    obtain ⟨a, ls, rfl⟩ : ∃ a ls, ts = a :: ls := by
      cases ts with
      | nil =>
        simp only [List.length_nil] at heq
        omega
      | cons a ls => exact ⟨a, ls, rfl⟩
    obtain ⟨hpf, -⟩ := stored_frame₂.mp (stored_plug.mp hpair.stored).2
    replace hpf : d.page f.id =
        .node (preCells f ++ ⟨k, pu⟩ :: (restCells f pt).1) (restCells f pt).2 := hpf
    obtain ⟨hfp, hfq, hpq⟩ : f.id ≠ pu ∧ f.id ≠ pt ∧ pu ≠ pt := hpair.apart
    have hline := hpair.leaf_line
    have hts := (KeySorted.around (hline.sublist (List.sublist_append_left _ _))).1
    have hus : ∀ c ∈ us, x.key < c.key := by
      rw [List.append_assoc] at hline
      exact hline.around.2
    obtain ⟨hlo, hhi⟩ := hpair.around
    change us.length + 1 = _ at hsz
    have hlend : cur.config.leafMinCells < (a :: ls ++ [x]).length := by
      simp only [List.length_append, List.length_cons, List.length_nil] at heq ⊢
      omega
    have hrun := borrowLeafSiblingCell_left cur hu0 hpf hpu hpt hfp hfq hpq hlo hhi hts hus
      (by omega) (by omega)
    rw [length_preCells] at hrun
    rw [show f₀.pre.length - 1 = f.pre.length by omega, ← hid]
    refine Runs.mono hrun ?_
    rintro _ _ _ ⟨rfl, rfl, rfl⟩
    refine .inl ⟨rfl, ?_, _, rfl, hlend⟩
    refine hpair.recut_leaf (a := a) (v := x) ls us (by simp) hplug' hlinked ?_ ?_ ?_ ?_ ?_
      ⟨by omega, by omega⟩ ⟨by rw [List.length_cons]; omega, by rw [List.length_cons]; omega⟩
      (kept_borrowLeft (l := ⟨pt, us⟩) hplug)
    · exact hpair.evolves (show List.Perm ([pu, pt] ++ _) _ from List.perm_append_comm)
    · rw [Disk.set_page_self]
    · rw [Disk.set_page_of_ne (Ne.symm hfp), Disk.set_page_of_ne hpq, Disk.set_page_self]
    · rw [Disk.set_page_of_ne (Ne.symm hfq), Disk.set_page_self]
    · intro y h1 h2 h3
      rw [Disk.set_page_of_ne h1, Disk.set_page_of_ne h3, Disk.set_page_of_ne h2]

theorem borrowLeafRight_runs {l : BTreeLeaf} (hv : cur.config.Valid)
    (h : Lacking d cur (.step f₀ up) l) :
    Runs (borrowLeafSiblingCell l.id (idOf f₀.right?) (f₀.id, f₀.pre.length) false) d cur
      (BorrowedLeaf d cur (.step f₀ up) l f₀.right? True) := by
  cases hl : f₀.right? with
  | none =>
    refine Runs.mono borrowLeafSiblingCell_null ?_
    rintro _ _ _ ⟨rfl, rfl, rfl⟩
    exact .inr ⟨rfl, rfl, rfl, by simp⟩
  | some u =>
    obtain ⟨f, k, hplug, hid, hpre, -, hpair, hfu⟩ := h.toHung.right_pair hl
    obtain ⟨hmin, hmax⟩ := hfu
    have hplug' : (Ctx.step f₀ up).plug l = up.plug (f.plug₂ l k u) := by rw [Ctx.plug, hplug]
    have hlinked := h.linked
    rw [hplug'] at hlinked
    have hsz := h.size_eq
    obtain ⟨pu, uc⟩ := u
    obtain ⟨pt, ts⟩ := l
    obtain ⟨hpt, hpu⟩ := hpair.leaf_pages hlinked
    have hu0 : pu ≠ nullPage := hpair.good.ne_zero (by rw [hpu]; simp)
    change Runs (borrowLeafSiblingCell pt pu (f₀.id, f₀.pre.length) false) _ _ _
    by_cases heq : uc.length ≤ cur.config.leafMinCells
    · refine Runs.mono (borrowLeafSiblingCell_min hu0 hpu heq) ?_
      rintro _ _ _ ⟨rfl, rfl, rfl⟩
      refine .inr ⟨rfl, rfl, rfl, ?_⟩
      rintro _ ⟨⟩
      exact le_antisymm heq hmin
    simp only [BTreeConfig.bounds] at hmin hmax
    have hmin1 := hv.leaf_min
    have hspl := hv.leaf_split
    have hlmax := hv.leaf_max
    obtain ⟨x, y, us, rfl⟩ : ∃ x y us, uc = x :: y :: us := by
      rcases uc with _ | ⟨x, _ | ⟨y, us⟩⟩
      · exact absurd (Nat.zero_le _) heq
      · exact absurd hmin1 heq
      · exact ⟨x, y, us, rfl⟩
    simp only [List.length_cons] at hmin hmax heq
    obtain ⟨hpf, -⟩ := stored_frame₂.mp (stored_plug.mp hpair.stored).2
    replace hpf : d.page f.id =
        .node (preCells f ++ ⟨k, pt⟩ :: (restCells f pu).1) (restCells f pu).2 := hpf
    obtain ⟨hfp, hfq, hpq⟩ : f.id ≠ pt ∧ f.id ≠ pu ∧ pt ≠ pu := hpair.apart
    obtain ⟨hts, hus⟩ := hpair.leaf_line.around
    obtain ⟨hlo, hhi⟩ := hpair.around
    change ts.length + 1 = _ at hsz
    have hrun := borrowLeafSiblingCell_right cur hu0 hpf hpt hpu hfp hfq hpq hlo hhi hts hus
      (by omega) (by rw [List.length_cons]; omega)
    rw [length_preCells] at hrun
    rw [← hpre, ← hid]
    refine Runs.mono hrun ?_
    rintro _ _ _ ⟨rfl, rfl, rfl⟩
    obtain ⟨a, ls, hcons⟩ : ∃ a ls, ts ++ [x] = a :: ls :=
      List.exists_cons_of_length_pos (by simp)
    have hlen := congrArg List.length hcons
    simp only [List.length_append, List.length_cons, List.length_nil] at hlen
    have hkept : Kept (.step f₀ up) ⟨pt, ts⟩ _ True := kept_borrowRight hplug
    rw [hcons] at hkept
    refine .inl ⟨rfl, ?_, _, rfl, not_le.mp heq⟩
    refine hpair.recut_leaf (a := a) (v := y) ls us (by simp [← hcons]) hplug' hlinked ?_ ?_ ?_
      ?_ ?_ ?_ ?_ hkept
    · exact hpair.evolves (List.reverse_perm [f.id, pt, pu])
    · rw [Disk.set_page_self]
    · rw [Disk.set_page_of_ne (Ne.symm hfp), Disk.set_page_self, hcons]
    · rw [Disk.set_page_of_ne (Ne.symm hfq), Disk.set_page_of_ne (Ne.symm hpq), Disk.set_page_self]
    · intro z h1 h2 h3
      rw [Disk.set_page_of_ne h1, Disk.set_page_of_ne h2, Disk.set_page_of_ne h3]
    · rw [List.length_cons]
      omega
    · rw [List.length_cons]
      omega

/-- Borrowing from either side. The assertion on the child index fails for a right child. -/
theorem borrowFromLeafSibling_runs {l : BTreeLeaf} (hv : cur.config.Valid)
    (h : Lacking d cur (.step f₀ up) l) (hb : Build.ndebug = true ∨ f₀.pre.length < f₀.size) :
    Runs (borrowFromLeafSibling (f₀.id, f₀.pre.length) l.id) d cur (fun b d' cur' =>
      (b = true ∧ Mended d cur (.step f₀ up) l (FromRight cur.config f₀) d' cur') ∨
      (b = false ∧ d' = d ∧ cur' = cur ∧ ∀ u : BTreeLeaf, f₀.left? = some u ∨ f₀.right? = some u →
        u.cells.length = cur.config.leafMinCells)) := by
  obtain ⟨hpage, -, -⟩ := stored_frame.mp (stored_plug (c := up).mp h.stored).2
  have hlen : (preCells f₀ ++ (restCells f₀ l.id).1).length = f₀.size := length_cells
  unfold borrowFromLeafSibling
  refine (steps_assertPageType (by simp [hpage, LogicalPage.type?])).then ?_
  refine (steps_loadNode hpage).then ?_
  refine (steps_assert (.inr rfl)).then ?_
  refine (steps_assert (hb.imp_right (fun hlt => hlt.trans_eq hlen.symm))).then ?_
  refine leftSiblingOf_steps.then ?_
  refine rightSiblingOf_steps.then ?_
  refine (borrowLeafLeft_runs hv h).bind ?_
  rintro b d' cur' (⟨rfl, hdone, u, hu, hlt⟩ | ⟨rfl, rfl, rfl, hleft⟩)
  · refine Runs.ite_pos rfl (Runs.pure (.inl ⟨rfl, hdone.congr ?_⟩))
    exact ⟨False.elim, fun hr => hlt.ne' (hr.2 u hu)⟩
  · refine Runs.ite_neg (by decide) ?_
    refine (borrowLeafRight_runs hv h).mono ?_
    rintro b d' cur' (⟨rfl, hdone, u, hu, -⟩ | ⟨rfl, rfl, rfl, hright⟩)
    · exact .inl ⟨rfl, hdone.congr ⟨fun _ => ⟨Frame.pre_lt_size hu, hleft⟩, fun _ => trivial⟩⟩
    · exact .inr ⟨rfl, rfl, rfl, fun u hu => hu.elim (hleft u) (hright u)⟩

theorem borrowFromLeafSibling_aborts {l : BTreeLeaf} (h : Lacking d cur (.step f₀ up) l)
    (hb : Build.ndebug = false) (hlast : f₀.pre.length = f₀.size) :
    Aborts (borrowFromLeafSibling (f₀.id, f₀.pre.length) l.id) d cur := by
  obtain ⟨hpage, -, -⟩ := stored_frame.mp (stored_plug (c := up).mp h.stored).2
  have hlen : (preCells f₀ ++ (restCells f₀ l.id).1).length = f₀.size := length_cells
  unfold borrowFromLeafSibling
  refine (steps_assertPageType (by simp [hpage, LogicalPage.type?])).then_fails ?_
  refine (steps_loadNode hpage).then_fails ?_
  refine (steps_assert (.inr rfl)).then_fails ?_
  refine (aborts_assert hb ?_).bind_left
  intro hlt
  exact absurd (hlt.trans_eq hlen) hlast.not_lt

end Borrow

/-- The file after two leaves were merged: the parent has lost a cell, the chain goes past the left
leaf. -/
theorem Pair.merge_leaf {hd : PagerFirstPageHeader} {prev next : Nat}
    (hv : cur.config.Valid) (h : Pair (n := 0) d cur up f ⟨p, l₁⟩ k ⟨q, l₂⟩)
    (hlinked : Segment d.links nullPage
      (leafIds (up.plug (f.plug₂ (⟨p, l₁⟩ : BTreeLeaf) k ⟨q, l₂⟩)).spine) nullPage)
    (h1 : d.page 1 = .first hd)
    (hprev : prev = (leafIds (Ctx.step f up).spineL).getLastD nullPage)
    (hnext : next = (leafIds (Ctx.step f up).spineR).headD nullPage)
    (hlen : l₁.length + l₂.length + 1 = 2 * cur.config.leafMinCells)
    (hd' : d' = (((d.set q (.leaf (l₁ ++ l₂) p next)).set f.id
      (.node (preCells f ++ (restCells f q).1) (restCells f q).2)).unlinkLeft prev q).free p hd) :
    Sagging d' cur up (f.plug (⟨q, l₁ ++ l₂⟩ : BTreeLeaf)) ∧
    Segment d'.links nullPage (leafIds (up.plug (f.plug (⟨q, l₁ ++ l₂⟩ : BTreeLeaf))).spine) nullPage ∧
    d.Evolves d' (up.plug (f.plug₂ (⟨p, l₁⟩ : BTreeLeaf) k ⟨q, l₂⟩)).ids ∧
    (∀ x ∈ (up.plug (f.plug (⟨q, l₁ ++ l₂⟩ : BTreeLeaf))).ids,
      x ∈ (up.plug (f.plug₂ (⟨p, l₁⟩ : BTreeLeaf) k ⟨q, l₂⟩)).ids) ∧
    entries (up.plug (f.plug (⟨q, l₁ ++ l₂⟩ : BTreeLeaf))).spine =
      entries (up.plug (f.plug₂ (⟨p, l₁⟩ : BTreeLeaf) k ⟨q, l₂⟩)).spine := by
  obtain ⟨hpf, -⟩ := stored_frame₂.mp (stored_plug.mp h.stored).2
  obtain ⟨hpp, hpq⟩ := h.leaf_pages hlinked
  obtain ⟨hfp, hfq, hpq'⟩ : f.id ≠ p ∧ f.id ≠ q ∧ p ≠ q := h.apart
  have hmem := fun x => (ids_pair (c := up) (f := f) (t := (⟨p, l₁⟩ : BTreeLeaf)) (k := k)
    (u := (⟨q, l₂⟩ : BTreeLeaf))).mem_iff (a := x)
  have hpm : p ∈ (up.plug (f.plug₂ (⟨p, l₁⟩ : BTreeLeaf) k ⟨q, l₂⟩)).ids :=
    (hmem p).mpr (List.mem_cons_of_mem _ (List.mem_append_right _ (List.mem_append_left _
      (Tree.id_mem_ids (n := 0) _))))
  have hqm : q ∈ (up.plug (f.plug₂ (⟨p, l₁⟩ : BTreeLeaf) k ⟨q, l₂⟩)).ids :=
    (hmem q).mpr (List.mem_cons_of_mem _ (List.mem_append_right _ (List.mem_append_right _
      (Tree.id_mem_ids (n := 0) _))))
  have hfm : f.id ∈ (up.plug (f.plug₂ (⟨p, l₁⟩ : BTreeLeaf) k ⟨q, l₂⟩)).ids :=
    (hmem f.id).mpr List.mem_cons_self
  have htree := h.stored.isTree
  have hspine : (up.plug (f.plug (⟨q, l₁ ++ l₂⟩ : BTreeLeaf))).spine =
      (Ctx.step f up).spineL ++ .inl ⟨q, l₁ ++ l₂⟩ :: (Ctx.step f up).spineR :=
    Ctx.spine_plug_leaf (.step f up) _
  -- the two pages written first
  have hd2 : ∀ x, x ≠ q → x ≠ f.id → ((d.set q (.leaf (l₁ ++ l₂) p next)).set f.id
      (.node (preCells f ++ (restCells f q).1) (restCells f q).2)).page x = d.page x :=
    fun x h2 h3 => by rw [Disk.set_page_of_ne h3, Disk.set_page_of_ne h2]
  have hq2 : ((d.set q (.leaf (l₁ ++ l₂) p next)).set f.id
      (.node (preCells f ++ (restCells f q).1) (restCells f q).2)).page q =
        .leaf (l₁ ++ l₂) p next := by
    rw [Disk.set_page_of_ne (Ne.symm hfq), Disk.set_page_self]
  have hf2 : ((d.set q (.leaf (l₁ ++ l₂) p next)).set f.id
      (.node (preCells f ++ (restCells f q).1) (restCells f q).2)).page f.id =
        .node (preCells f ++ (restCells f q).1) (restCells f q).2 := Disk.set_page_self
  have he : d.Evolves ((d.set q (.leaf (l₁ ++ l₂) p next)).set f.id
      (.node (preCells f ++ (restCells f q).1) (restCells f q).2))
      (up.plug (f.plug₂ (⟨p, l₁⟩ : BTreeLeaf) k ⟨q, l₂⟩)).ids := by
    refine (Disk.Evolves.set h.good (htree q hqm) hqm).set_more h.good ?_ hfm
    rw [Disk.set_page_of_ne hfq]
    exact htree _ hfm
  generalize (d.set q (.leaf (l₁ ++ l₂) p next)).set f.id
    (.node (preCells f ++ (restCells f q).1) (restCells f q).2) = e at *
  have hcore : ∀ x, ((e.unlinkLeft prev q).page x).core = (e.page x).core :=
    fun x => Disk.unlinkLeft_core
  have hfree : ∀ x, (d.page x).IsTree → x ≠ p → d'.page x = (e.unlinkLeft prev q).page x := by
    intro x hx hxp
    rw [hd', Disk.free_page_of_ne (h.good.ne_one hx) hxp]
  have hnd := h.nodup.sublist (Tree.leafIds_sublist _)
  have hleaftree : ∀ x ∈ leafIds (up.plug (f.plug₂ (⟨p, l₁⟩ : BTreeLeaf) k ⟨q, l₂⟩)).spine,
      (d.page x).IsTree := fun x hx => htree x ((Tree.leafIds_sublist _).subset hx)
  rw [leafIds_pair] at hlinked hnd hleaftree
  have hprevm : prev = nullPage ∨ prev ∈ (up.plug (f.plug₂ (⟨p, l₁⟩ : BTreeLeaf) k ⟨q, l₂⟩)).ids := by
    rw [hprev]
    refine (getLastD_mem_or _ _).imp_right ?_
    intro hm
    refine (Tree.leafIds_sublist _).subset ?_
    rw [leafIds_pair]
    exact List.mem_append_left _ hm
  have hev : d.Evolves d' (up.plug (f.plug₂ (⟨p, l₁⟩ : BTreeLeaf) k ⟨q, l₂⟩)).ids := by
    have hu := Disk.Evolves.unlinkLeft he.good hprevm hqm
    have htrans := he.trans h.good hu (fun _ hx => .inl hx)
    rw [hd']
    refine htrans.trans h.good (.free hu.good ?_ ?_ hpm) (fun _ hx => .inl hx)
    · have h1e : e.page 1 = .first hd := by
        rw [hd2 1 (Ne.symm (h.good.ne_one (htree q hqm))) (Ne.symm (h.good.ne_one (htree _ hfm))), h1]
      rw [LogicalPage.eq_of_core (hcore 1) (by simp [h1e]), h1e]
    · have hc := hcore p
      rw [hd2 p hpq' (Ne.symm hfp), hpp] at hc
      exact Disk.IsLeaf.isTree (l := ⟨p, l₁⟩) (Disk.IsLeaf.frame ⟨_, _, hpp⟩ (hc.trans (by rw [hpp])))
  have hspl := hv.leaf_split
  have hmin := hv.leaf_min
  refine ⟨h.merge (n := 0) hev.good ?_ ?_ ?_ (.refl [p, q]) ?_ ?_, ?_, hev, ?_, ?_⟩
  · rw [hfree _ (htree _ hfm) hfp]
    exact (LogicalPage.eq_of_core (hcore _) (by simp [hf2])).trans hf2
  · refine Disk.IsLeaf.frame (d := e) (l := ⟨q, l₁ ++ l₂⟩) ⟨_, _, hq2⟩ ?_
    change (d'.page q).core = _
    rw [hfree q (htree q hqm) (Ne.symm hpq'), hcore]
  · intro x hx hxf hxp hxq
    have hxp : x ≠ p := by
      rintro rfl
      exact hxp (Tree.id_mem_ids (n := 0) _)
    have hxq : x ≠ q := by
      rintro rfl
      exact hxq (Tree.id_mem_ids (n := 0) _)
    rw [hfree x hx hxp, hcore, hd2 x hxq hxf]
  · change _ ≤ (l₁ ++ l₂).length ∧ (l₁ ++ l₂).length ≤ _
    simp only [BTreeConfig.bounds, List.length_append]
    omega
  · rw [hspine]
    have ho := h.ordered
    rw [spine_pair] at ho
    exact ho.join
  · have hseg := segment_unlinkLeft (e := e) hlinked hnd
      (fun h0 => h.good.ne_zero (hleaftree _ h0).inUse.1 rfl) ?_
    · rw [hspine]
      simp only [leafIds_append, leafIds_leaf]
      rw [← hprev] at hseg
      refine (segment_congr ?_).mpr hseg
      intro x hx
      have hxm : x ∈ leafIds (Ctx.step f up).spineL ++ p :: q :: leafIds (Ctx.step f up).spineR := by
        simp only [List.mem_append, List.mem_cons] at hx ⊢
        tauto
      refine Disk.links_congr (hfree x (hleaftree x hxm) ?_)
      rintro rfl
      simp only [List.nodup_append, List.nodup_cons, List.mem_cons, List.mem_append, not_or] at hnd hx
      obtain ⟨-, ⟨hpR, -⟩, hdis⟩ := hnd
      rcases hx with hx | hx | hx
      · exact hdis x hx x (.inl rfl) rfl
      · exact hpR.1 hx
      · exact hpR.2 hx
    · intro x hx
      by_cases hxq : x = q
      · rw [hxq, Disk.links_eq hq2, Disk.links_eq hpq, hnext]
      · refine Disk.links_congr (hd2 x hxq ?_)
        rintro rfl
        obtain ⟨y, hy⟩ := hlinked.of_mem hx
        obtain ⟨cells, hc⟩ := Disk.links_some hy
        rw [hpf] at hc
        cases hc
  · intro x hx
    exact (ids_merged (n := 0) (t := (⟨p, l₁⟩ : BTreeLeaf)) (u := (⟨q, l₂⟩ : BTreeLeaf))
      (w := (⟨q, l₁ ++ l₂⟩ : BTreeLeaf)) (.refl [p, q])).mem_iff.mp (List.mem_cons_of_mem _ hx)
  · rw [hspine, spine_pair]
    simp

section Merge

variable [Build]

/-- Two leaves merged into the right one; the parent is settled or balanced in turn. -/
theorem Pair.merge_leaf_runs {l : BTreeLeaf} {i curr : Nat} {behind : Prop} (hv : cur.config.Valid)
    (h : Pair (n := 0) d cur up f ⟨p, l₁⟩ k ⟨q, l₂⟩)
    (hplug : (Ctx.step f₀ up).plug l = up.plug (f.plug₂ (⟨p, l₁⟩ : BTreeLeaf) k ⟨q, l₂⟩))
    (hlinked : Segment d.links nullPage
      (leafIds (up.plug (f.plug₂ (⟨p, l₁⟩ : BTreeLeaf) k ⟨q, l₂⟩)).spine) nullPage)
    (hpath : cur.cursor = up.path) (hi : i ≤ f.size + 1) (hcurr : curr = p ∨ curr = q)
    (hmp : Steps (mergePair (pairManager f p k q) i curr) d cur (⟨k, p⟩, p, q) d cur)
    (hplace : (i = f.size + 1 ∧ (restCells f q).2 = curr) ∨ (i < f.size + 1 ∧
      (preCells f ++ ⟨k, p⟩ :: (restCells f q).1)[i]?.map NodeCell.leftChild = some curr))
    (hlen : l₁.length + l₂.length + 1 = 2 * cur.config.leafMinCells)
    (hkept : Kept (.step f₀ up) l ((Ctx.step f up).spineL ++ .inl ⟨q, l₁ ++ l₂⟩ ::
      (Ctx.step f up).spineR) behind) :
    Runs (mergeWithLeafSibling (f.id, i) curr) d cur (fun _ d' cur' =>
      Mended d cur (.step f₀ up) l behind d' cur') := by
  obtain ⟨hd, h1⟩ := h.good.sound.first
  obtain ⟨hpf, -⟩ := stored_frame₂.mp (stored_plug.mp h.stored).2
  replace hpf : d.page f.id = .node (preCells f ++ ⟨k, p⟩ :: (restCells f q).1) (restCells f q).2 :=
    hpf
  obtain ⟨hpp, hpq⟩ := h.leaf_pages hlinked
  obtain ⟨hfp, hfq, hpq'⟩ : f.id ≠ p ∧ f.id ≠ q ∧ p ≠ q := h.apart
  have hsize : (preCells f ++ ⟨k, p⟩ :: (restCells f q).1).length = f.size + 1 := by
    have := length_cells (f := f) (x := q)
    simp only [List.length_append, List.length_cons] at this ⊢
    omega
  have hspl := hv.leaf_split
  have hmin := hv.leaf_min
  obtain ⟨hlo, hhi⟩ := h.around
  have hseg := hlinked
  have hnd := h.nodup.sublist (Tree.leafIds_sublist _)
  rw [leafIds_pair] at hseg hnd
  refine mergeWithLeafSibling_fill h.good h1 rfl hpf hpp hpq ?_ ?_ hfp hfq hpq' hmp (hi.trans hsize.ge)
    hcurr ?_ hlo hhi h.leaf_line (by omega) hv.leaf_max ?_
  · refine ((segment_append.mp hseg).1.last_links (z := nullPage)).imp_right ?_
    rintro ⟨a, ha⟩
    obtain ⟨cells, hc⟩ := Disk.links_some ha
    exact ⟨cells, a, hc⟩
  · rcases getLastD_mem_or (leafIds (Ctx.step f up).spineL) nullPage with h0 | hm
    · rw [h0]
      exact Ne.symm (h.good.ne_zero (by rw [hpq]; simp))
    · intro he
      rw [he] at hm
      exact (List.nodup_append.mp hnd).2.2 q hm q (by simp) rfl
  · rw [hsize]
    exact hplace
  obtain ⟨hsag, hlink, hev, hids, hent⟩ := h.merge_leaf hv hlinked h1 rfl rfl hlen rfl
  have hnum : (preCells f ++ (restCells f q).1).length = f.size := length_cells
  refine (settle_runs hv hsag (by rw [hnum, eq_comm]) (by rw [hnum, ne_comm]) ?_).mono ?_
  · intro hne hsz
    have hid : Tree.id (n := 1) (f.plug (⟨q, l₁ ++ l₂⟩ : BTreeLeaf)) = f.id := Frame.plug_id
    have hrec := balanceNode_runs _ up _ _ _ rfl hne hv hsag (by
      rw [Frame.length_plug_cells]
      exact hsz)
    rw [hid, ← hpath] at hrec
    exact hrec
  · rintro _ d' cur' ⟨m', t', hr⟩
    refine ⟨m', t', ?_, ?_, ?_⟩
    · rw [hplug]
      exact hr.updated rfl h.good hev (fun x hx => .inl (hids x hx)) hsag.ordered hlink
    · rw [hplug, hr.spine_eq, hent]
    · rw [hr.spine_eq]
      change Kept _ _ ((Ctx.step f up).plug (⟨q, l₁ ++ l₂⟩ : BTreeLeaf)).spine _
      rw [Ctx.spine_plug_leaf]
      exact hkept

/-- A right child is merged with its left sibling, any other child with its right one. -/
theorem mergeWithLeafSibling_runs {l : BTreeLeaf} (hv : cur.config.Valid)
    (h : Lacking d cur (.step f₀ up) l) (hpath : cur.cursor = up.path)
    (hsib : ∀ u : BTreeLeaf, f₀.left? = some u ∨ f₀.right? = some u →
      u.cells.length = cur.config.leafMinCells) :
    Runs (mergeWithLeafSibling (f₀.id, f₀.pre.length) l.id) d cur (fun _ d' cur' =>
      Mended d cur (.step f₀ up) l (FromRight cur.config f₀) d' cur') := by
  have hmin := hv.node_min
  have hsz := h.size_eq
  by_cases hlast : f₀.pre.length < f₀.size
  · obtain ⟨u, hu⟩ := Option.ne_none_iff_exists'.mp (Frame.right_ne_none hlast)
    obtain ⟨f, k, hplug, hid, hpre, hsize, hpair, -⟩ := h.toHung.right_pair hu
    have hplug' : (Ctx.step f₀ up).plug l = up.plug (f.plug₂ l k u) := by rw [Ctx.plug, hplug]
    have hlinked := h.linked
    rw [hplug'] at hlinked
    have hlen := hsib u (.inr hu)
    obtain ⟨pt, l₁⟩ := l
    obtain ⟨pu, l₂⟩ := u
    rw [← hid, ← hpre]
    refine hpair.merge_leaf_runs hv hplug' hlinked hpath ?_ (.inl rfl) mergePair_first
      (.inr ⟨?_, ?_⟩) ?_ ?_
    · exact Frame.pre_length_le.trans (Nat.le_succ _)
    · exact Nat.lt_succ_of_le Frame.pre_length_le
    · rw [← length_preCells, List.getElem?_append_right le_rfl]
      simp
    · change l₁.length + 1 = _ at hsz
      change l₂.length = _ at hlen
      omega
    · have hne : l₂ ≠ [] := by
        rintro rfl
        have hmin' := hv.leaf_min
        rw [← hlen] at hmin'
        exact Nat.not_succ_le_zero 0 hmin'
      have hk : Kept (.step f₀ up) ⟨pt, l₁⟩ _ True := kept_mergeRight hplug hne
      have hiff : True ↔ FromRight cur.config f₀ :=
        ⟨fun _ => ⟨hlast, fun w hw => hsib w (.inl hw)⟩, fun _ => trivial⟩
      exact propext hiff ▸ hk
  · have hpos : 0 < f₀.pre.length := by
      have hl := h.ctx_filled.1
      have := f₀.pre_length_le
      cases up <;> simp only [Ctx.lower, BTreeConfig.bounds] at hl <;> omega
    obtain ⟨u, hu⟩ := Option.ne_none_iff_exists'.mp (Frame.left_ne_none hpos)
    obtain ⟨f, k, hplug, hid, hpre, hsize, hpair, -⟩ := h.toHung.left_pair hu
    have hplug' : (Ctx.step f₀ up).plug l = up.plug (f.plug₂ u k l) := by rw [Ctx.plug, hplug]
    have hlinked := h.linked
    rw [hplug'] at hlinked
    have hlen := hsib u (.inl hu)
    obtain ⟨pt, l₂⟩ := l
    obtain ⟨pu, l₁⟩ := u
    rw [← hid, ← hpre]
    -- the pair is the last one of its node
    obtain ⟨p, as, rfl⟩ : ∃ p as, f = .last p as := by
      cases f with
      | last p as => exact ⟨p, as, rfl⟩
      | mid p as k' bs r' =>
        change as.length + 1 = _ at hpre
        change as.length + 1 + bs.length + 1 = _ at hsize
        omega
    refine hpair.merge_leaf_runs hv hplug' hlinked hpath le_rfl (.inr rfl) mergePair_last
      (.inl ⟨rfl, rfl⟩) ?_ ?_
    · change l₂.length + 1 = _ at hsz
      change l₁.length = _ at hlen
      omega
    · have hk : Kept (.step f₀ up) ⟨pt, l₂⟩ _ False := kept_mergeLeft hplug
      have hiff : False ↔ FromRight cur.config f₀ := ⟨False.elim, fun hr => hlast hr.1⟩
      exact propext hiff ▸ hk

end Merge

end Trees

end Cpplite
