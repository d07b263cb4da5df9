import Cpplite.BTree.Rep

/-!
`move_to_key`: the descent ends in the one leaf that may hold the key, and the cursor
records the way down to it.
-/
namespace Cpplite

open Exec Search Linked HeightTree

section

variable {m n : Nat} {d : Disk} {cur : BTreeCursor} {k : DefaultPagerKey}

/-- The hole of the context is where `k` belongs. -/
structure Locates (c : BTreeCtx m n) (k : DefaultPagerKey) : Prop where
  left : ∀ x ∈ items LeafCell.key c.spineL, x < cellAt k
  right : ∀ x ∈ items LeafCell.key c.spineR, cellAt k < x

theorem locates_top : Locates (.top : BTreeCtx m m) k :=
  ⟨by simp [Ctx.spineL, Ctx.foldL], by simp [Ctx.spineR, Ctx.foldR]⟩

theorem Locates.step {c : BTreeCtx m (n + 1)} {f : BTreeFrame n} (h : Locates c k)
    (hl : ∀ x ∈ items LeafCell.key f.spineL, x < cellAt k)
    (hr : ∀ x ∈ items LeafCell.key f.spineR, cellAt k < x) : Locates (.step f c) k := by
  constructor
  · intro x hx
    rw [Ctx.spineL_step, items_append, List.mem_append] at hx
    exact hx.elim (h.left x) (hl x)
  · intro x hx
    rw [Ctx.spineR_step, items_append, List.mem_append] at hx
    exact hx.elim (hr x) (h.right x)

theorem Locates.up {f : BTreeFrame n} {c : BTreeCtx m (n + 1)} (h : Locates (.step f c) k) :
    Locates c k := by
  constructor
  · intro x hx
    exact h.left x (by rw [Ctx.spineL_step, items_append]; exact List.mem_append_left _ hx)
  · intro x hx
    exact h.right x (by rw [Ctx.spineR_step, items_append]; exact List.mem_append_right _ hx)

/-- The separators of the lowest frame say where in it `k` belongs. -/
theorem Locates.upperBound {f : BTreeFrame n} {c : BTreeCtx m (n + 1)} {t : BTree n}
    (h : Locates (.step f c) k) :
    Search.upperBound id k ((f.plug t).cells.map Prod.fst) = f.pre.length := by
  rw [Frame.plug_eq, List.map_append, upperBound_eq, List.length_map]
  · intro x hx
    obtain ⟨a, ha, rfl⟩ := List.mem_map.mp hx
    refine sepAt_lt_cellAt.mp (h.left _ (sepAt_mem_items ?_))
    rw [Ctx.spineL_step]
    exact List.mem_append_right _ (Frame.sep_mem_spineL ha)
  · intro x hx
    obtain ⟨b, hb, rfl⟩ := List.mem_map.mp hx
    refine cellAt_lt_sepAt.mp (h.right _ (sepAt_mem_items ?_))
    rw [Ctx.spineR_step]
    exact List.mem_append_left _ (Frame.sep_mem_spineR hb)

/-- A key belongs to one place of a tree. -/
theorem Locates.unique {c c' : BTreeCtx m n} {t t' : BTree n} (h : Locates c k) (h' : Locates c' k)
    (heq : c.plug t = c'.plug t') : c = c' ∧ t = t' := by
  induction c with
  | top =>
    rw [Ctx.eq_top c'] at heq ⊢
    exact ⟨rfl, heq⟩
  | step f up ih =>
    cases c' with
    | top => exact absurd up.height_le (Nat.not_succ_le_self _)
    | step f' up' =>
      obtain ⟨rfl, hplug⟩ := ih h.up h'.up heq
      have hlen : f.pre.length = f'.pre.length := by
        rw [← h.upperBound (t := t), ← h'.upperBound (t := t'), hplug]
      obtain ⟨rfl, rfl⟩ := Frame.plug_inj hplug hlen
      exact ⟨rfl, rfl⟩

/-- The manager `seek_page` makes of a tree page. -/
def managerOf (d : Disk) (p : Nat) : PageManager :=
  match d.page p with
  | .node cells r => .node (nodeManager p cells r)
  | .leaf cells prev next => .leaf (leafManager p cells prev next)
  | _ => .node (nodeManager p [] nullPage)

def typeOf (d : Disk) (p : Nat) : PagerPageType :=
  (d.page p).type?.getD .nodePage

variable [Build]

theorem steps_seekPage {p : Nat} (hg : d.Good) (h : (d.page p).IsTree) :
    Steps (liftM (seekPage p)) d cur (managerOf d p) d cur := by
  refine steps_read ?_
  rintro s rfl
  have h1 := hg.ne_one h
  cases hp : s.disk.page p with
  | node cells r => simpa [managerOf, hp] using seekPage_node hp h1
  | leaf cells prev next => simpa [managerOf, hp] using seekPage_leaf hp h1
  | _ => rw [hp] at h; exact h.elim

theorem steps_typeOf {p : Nat} (h : (d.page p).IsTree) :
    Steps (liftM (getPageType p)) d cur (typeOf d p) d cur := by
  refine steps_getPageType ?_
  cases hp : d.page p with
  | node cells r => simp [typeOf, hp, LogicalPage.type?]
  | leaf cells prev next => simp [typeOf, hp, LogicalPage.type?]
  | _ => rw [hp] at h; exact h.elim

omit [Build] in
theorem steps_childAt {f : BTreeFrame n} {x : Nat} :
    Steps ((frameManager f x).childAt f.pre.length) d cur x d cur := by
  unfold NodePageManager.childAt frameManager
  cases f with
  | last p as =>
    simp only [nodeManager, restCells, List.append_nil, length_preCells, if_true]
    exact steps_pure
  | mid p as k' bs r =>
    have hne : ¬ (Frame.mid p as k' bs r).pre.length =
        (preCells (.mid p as k' bs r) ++
          (⟨k', x⟩ : NodeCell) :: bs.map (fun c => ⟨c.1, c.2.id⟩)).length := by
      simp
    simp only [nodeManager, restCells, hne, if_false]
    refine (steps_index (a := ⟨k', x⟩) ?_).then ?_
    · rw [List.getElem?_append_right (by simp)]
      simp
    · exact steps_pure

theorem moveToKeyLoop_runs (cur : BTreeCursor) (hg : d.Good) : ∀ {n : Nat} (c : BTreeCtx m n) (t : BTree n)
    (fuel : Nat), n < fuel → Stored d (c.plug t) → Ordered LeafCell.key (c.plug t).spine →
    Locates c k →
    Runs (moveToKeyLoop k fuel (typeOf d t.id) t.id (managerOf d t.id) c.path) d cur
      (fun found d' cur' => d' = d ∧ ∃ (c' : BTreeCtx m 0) (l : BTreeLeaf) (i : Nat),
        c'.plug l = c.plug t ∧ Locates c' k ∧ findKey LeafCell.key k l.cells = (found, i) ∧
        cur' = { cur with cursor := (l.id, i) :: c'.path }) := by
  intro n
  induction n with
  | zero =>
    intro c l fuel hf hs ho hk
    obtain ⟨fuel, rfl⟩ : ∃ fuel', fuel = fuel' + 1 := ⟨fuel - 1, by omega⟩
    obtain ⟨prev, next, hp⟩ : d.IsLeaf l := (stored_plug.mp hs).2
    have hp : d.page (Tree.id (n := 0) l) = .leaf (Leaf.cells l) prev next := hp
    have hm : managerOf d (Tree.id (n := 0) l) =
        .leaf (leafManager (Tree.id (n := 0) l) (Leaf.cells l) prev next) := by
      simp only [managerOf, hp]
    have hty : typeOf d (Tree.id (n := 0) l) = .leafPage := by
      simp [typeOf, hp, LogicalPage.type?]
    rw [hm, hty, moveToKeyLoop, if_neg (by decide)]
    refine steps_pure.then ?_
    refine steps_setCursor.then ?_
    exact Runs.pure ⟨rfl, c, l, _, rfl, hk, rfl, rfl⟩
  | succ n ih =>
    intro c t fuel hf hs ho hk
    obtain ⟨fuel, rfl⟩ : ∃ fuel', fuel = fuel' + 1 := ⟨fuel - 1, by omega⟩
    have hspine := Ctx.spine_plug c t
    have ho' : Ordered LeafCell.key t.spine := by
      rw [hspine] at ho
      exact (ho.sublist (List.sublist_append_left _ _)).sublist (List.sublist_append_right _ _)
    obtain ⟨f, u, rfl, hpre, hpost, hl, hr⟩ := Node.descend ho' k
    have hsf : Stored d (Ctx.plug (.step f c) u) := hs
    have hp := (stored_frame.mp (stored_plug.mp hs).2).1
    have hid : Tree.id (n := n + 1) (f.plug u) = f.id := Frame.plug_id
    have hm : managerOf d f.id = .node (frameManager f u.id) := by
      simp only [managerOf, hp, frameManager]
    have hty : typeOf d f.id = .nodePage := by simp [typeOf, hp, LogicalPage.type?]
    have hidx : findChildToTraverse k (frameManager f u.id).cells = f.pre.length := by
      rw [findChildToTraverse, frameManager, nodeManager, upperBound_eq, length_preCells]
      · intro a ha
        obtain ⟨b, hb, rfl⟩ := List.mem_map.mp ha
        exact hpre b hb
      · exact lt_restCells hpost
    have hu : (d.page u.id).IsTree := (stored_plug.mp hsf).2.isTree _ u.id_mem_ids
    rw [hid, hm, hty, moveToKeyLoop, if_pos rfl]
    refine steps_pure.then ?_
    refine (steps_assert (.inr (by simp [frameManager, nodeManager]))).then ?_
    rw [hidx]
    refine steps_childAt.then ?_
    refine (steps_seekPage hg hu).then ?_
    refine (steps_typeOf hu).then ?_
    exact ih (.step f c) u fuel (by omega) hsf ho (hk.step hl hr)

omit [Build] in
theorem Stored.length_ids_le {t : BTree n} (hg : d.Good) (hs : Stored d t) (hnd : t.ids.Nodup) :
    t.ids.length ≤ d.total := by
  have hsub : t.ids ⊆ List.range' 1 d.total := by
    intro p hp
    have ht := hs.isTree p hp
    have h0 := hg.ne_zero ht.inUse.1
    have hle := hg.le_total ht.inUse
    rw [List.mem_range'_1]
    omega
  simpa using hnd.length_le_of_subset hsub

/-- Where `move_to_key` leaves the cursor. -/
structure Arrives (t : BTree n) (k : DefaultPagerKey) (cur cur' : BTreeCursor) (found : Bool)
    (c : BTreeCtx n 0) (l : BTreeLeaf) (i : Nat) : Prop where
  plug_eq : c.plug l = t
  locates : Locates c k
  find : findKey LeafCell.key k l.cells = (found, i)
  cursor : cur' = { cur with cursor := (l.id, i) :: c.path }

/-- The cursor is nowhere, or its stack is the way to a place in a leaf. -/
def Placed (cur : BTreeCursor) (t : BTree n) : Prop :=
  cur.cursor = [] ∨ ∃ (c : BTreeCtx n 0) (l : BTreeLeaf) (i : Nat), c.plug l = t ∧
    cur.cursor = (l.id, i) :: c.path

omit [Build] in
theorem Arrives.placed {t : BTree n} {cur' : BTreeCursor} {found : Bool} {c : BTreeCtx n 0}
    {l : BTreeLeaf} {i : Nat} (h : Arrives t k cur cur' found c l i) : Placed cur' t :=
  .inr ⟨c, l, i, h.plug_eq, by rw [h.cursor]⟩

/-- A cursor over a B+tree, nowhere or at a place in it: what holds between any two calls. -/
structure Standing (d : Disk) (cur : BTreeCursor) (t : BTree n) : Prop where
  good : d.Good
  valid : cur.config.Valid
  planted : Planted d cur t
  placed : Placed cur t

omit [Build] in
/-- A walk down a tree is shorter than the file. -/
theorem Planted.height_lt {t : BTree n} (hg : d.Good) (ht : Planted d cur t) : n < d.size + 1 := by
  have h1 := t.height_lt_length_ids
  have h2 := ht.stored.length_ids_le hg ht.nodup
  have h3 := hg.sound.size_eq
  omega

theorem moveToKey_runs {t : BTree n} (hg : d.Good) (ht : Planted d cur t) :
    Runs (moveToKey k) d cur (fun found d' cur' => d' = d ∧
      ∃ c l i, Arrives t k cur cur' found c l i) := by
  have hroot : (d.page cur.rootPgno).IsTree := by
    rw [← ht.root_eq]
    exact ht.stored.isTree _ t.id_mem_ids
  unfold moveToKey
  refine steps_getSelf.then ?_
  refine (steps_seekPage hg hroot).then ?_
  refine (steps_typeOf hroot).then ?_
  refine steps_walkFuel.then ?_
  have hloop := moveToKeyLoop_runs (k := k) cur hg (.top : BTreeCtx n n) t (d.size + 1)
    (ht.height_lt hg) ht.stored ht.ordered locates_top
  rw [ht.root_eq] at hloop
  refine hloop.mono ?_
  rintro found d' cur' ⟨rfl, c, l, i, hc, hk, hf, hcur⟩
  exact ⟨rfl, c, l, i, hc, hk, hf, hcur⟩

omit [Build] in
theorem Arrives.again {t : BTree n} {cur' : BTreeCursor} {found : Bool} {c : BTreeCtx n 0}
    {l : BTreeLeaf} {i : Nat} (h : Arrives t k cur cur' found c l i) :
    Arrives t k cur' cur' found c l i :=
  ⟨h.plug_eq, h.locates, h.find, by rw [h.cursor]⟩

/-- A search that has ended where it would end again leaves the cursor alone. -/
theorem moveToKey_stays {t : BTree n} {found : Bool} {c : BTreeCtx n 0} {l : BTreeLeaf} {i : Nat}
    (hg : d.Good) (ht : Planted d cur t) (h : Arrives t k cur cur found c l i) :
    Steps (moveToKey k) d cur found d cur := by
  refine (moveToKey_runs (k := k) hg ht).mono ?_
  rintro found' d' cur' ⟨rfl, c', l', i', h'⟩
  obtain ⟨rfl, rfl⟩ := h.locates.unique h'.locates (h.plug_eq.trans h'.plug_eq.symm)
  have hfind := h.find.symm.trans h'.find
  cases hfind
  exact ⟨rfl, rfl, h'.cursor.trans h.cursor.symm⟩

omit [Build] in
theorem Arrives.standing {t : BTree n} {cur' : BTreeCursor} {found : Bool} {c : BTreeCtx n 0}
    {l : BTreeLeaf} {i : Nat} (hs : Standing d cur t) (h : Arrives t k cur cur' found c l i) :
    Standing d cur' t := by
  have hpl := hs.planted.setCursor ((l.id, i) :: c.path)
  rw [← h.cursor] at hpl
  exact ⟨hs.good, by rw [h.cursor]; exact hs.valid, hpl, h.placed⟩

omit [Build] in
theorem Locates.entries_iff {c : BTreeCtx n 0} {l : BTreeLeaf} (h : Locates c k) :
    (∃ v ∈ entries (c.plug l).spine, v.key = k) ↔ ∃ v ∈ l.cells, v.key = k := by
  have hitem : ∀ (s : Spine) (v : LeafCell), v ∈ entries s → cellAt v.key ∈ items LeafCell.key s :=
    fun s v hv => entries_sublist_items.subset (List.mem_map_of_mem hv)
  rw [Ctx.spine_plug_leaf]
  simp only [entries_append, entries_leaf, List.mem_append]
  constructor
  · rintro ⟨v, hv | hv | hv, rfl⟩
    · exact absurd (h.left _ (hitem _ v hv)) (lt_irrefl _)
    · exact ⟨v, hv, rfl⟩
    · exact absurd (h.right _ (hitem _ v hv)) (lt_irrefl _)
  · rintro ⟨v, hv, rfl⟩
    exact ⟨v, .inr (.inl hv), rfl⟩

omit [Build] in
/-- The context of a stored cell is where its key belongs. -/
theorem Planted.locates {c : BTreeCtx n 0} {p : Nat} {lo hi : List LeafCell} {v : LeafCell}
    (h : Planted d cur (c.plug ⟨p, lo ++ v :: hi⟩)) : Locates c v.key := by
  have ho := h.ordered
  rw [Ctx.spine_plug_leaf] at ho
  obtain ⟨hl, -, -, hr⟩ := ho.cell
  exact ⟨hl, hr⟩

omit [Build] in
theorem Planted.keySorted_leaf {c : BTreeCtx n 0} {l : BTreeLeaf} (h : Planted d cur (c.plug l)) :
    KeySorted LeafCell.key l.cells := by
  have ho := h.ordered.keySorted_entries
  rw [Ctx.spine_plug_leaf, entries_append, entries_leaf] at ho
  exact ho.sublist ((List.sublist_append_left _ _).trans (List.sublist_append_right _ _))

omit [Build] in
/-- The search answers whether the tree has the key. -/
theorem Arrives.found_iff {t : BTree n} {cur₁ cur' : BTreeCursor} {found : Bool} {c : BTreeCtx n 0}
    {l : BTreeLeaf} {i : Nat} (hT : Planted d cur t) (h : Arrives t k cur₁ cur' found c l i) :
    found = true ↔ ∃ v ∈ entries t.spine, v.key = k := by
  obtain ⟨rfl, hloc, hfind, -⟩ := h
  rw [hloc.entries_iff]
  rcases findKey_cases hT.keySorted_leaf k with
    ⟨lo, w, hi, hl, hwk, -, -, hfk⟩ | ⟨lo, hi, hl, hlo, hhi, hfk⟩
  · rw [hfind] at hfk
    cases hfk
    exact ⟨fun _ => ⟨w, by simp [hl], hwk⟩, fun _ => rfl⟩
  · rw [hfind] at hfk
    cases hfk
    refine ⟨fun h => (by cases h), ?_⟩
    rintro ⟨v, hv, rfl⟩
    rw [hl] at hv
    rcases List.mem_append.mp hv with hv | hv
    · exact absurd (hlo v hv) (lt_irrefl _)
    · exact absurd (hhi v hv) (lt_irrefl _)

end

end Cpplite
