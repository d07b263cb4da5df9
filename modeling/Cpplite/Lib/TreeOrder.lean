import Cpplite.Lib.HeightTree
import Cpplite.Lib.Search
import Mathlib.Data.Prod.Lex

/-!
Search order on a height-indexed tree, as one sorted line.

A tree is ordered when its cells and separators, read from left to right, strictly
increase. Sortedness inside each page, the key range of each child and the strict order
of all separators over the tree are consequences, and an update is checked by looking at
the one place of the line it edits.
-/
namespace HeightTree

open Search

variable {K P V : Type}

/-- Separators and cells as points of one line: the separator `k` comes just before the cell
with key `k`. -/
def sepAt (k : K) : K ×ₗ Bool := toLex (k, false)

def cellAt (k : K) : K ×ₗ Bool := toLex (k, true)

def Leaf.items (key : V → K) (l : Leaf P V) : List (K ×ₗ Bool) :=
  l.cells.map (fun v => cellAt (key v))

/-- The points a spine puts on the line. -/
def items (key : V → K) (l : List (Leaf P V ⊕ K)) : List (K ×ₗ Bool) :=
  l.flatMap (Sum.elim (Leaf.items key) (fun k => [sepAt k]))

section Items

variable {key : V → K} {l l' : List (Leaf P V ⊕ K)} {k : K} {x : Leaf P V}

@[simp] theorem items_nil : items key ([] : List (Leaf P V ⊕ K)) = [] := rfl

@[simp] theorem items_append : items key (l ++ l') = items key l ++ items key l' := by
  simp [items]

@[simp] theorem items_sep : items key (.inr k :: l) = sepAt k :: items key l := rfl

@[simp] theorem items_leaf : items key (.inl x :: l) = x.items key ++ items key l := rfl

theorem sepAt_mem_items (h : .inr k ∈ l) : sepAt k ∈ items key l :=
  List.mem_flatMap.mpr ⟨_, h, by simp⟩

theorem items_sublist (h : l.Sublist l') : (items key l).Sublist (items key l') := by
  induction h with
  | slnil => exact .refl _
  | cons a _ ih => exact ih.trans (List.sublist_append_right _ _)
  | cons_cons a _ ih => exact (List.Sublist.refl _).append ih

theorem entries_sublist_items : ((entries l).map (fun v => cellAt (key v))).Sublist (items key l) := by
  induction l with
  | nil => exact .refl _
  | cons a l ih =>
    cases a with
    | inl x => simpa [entries, Leaf.items] using ih
    | inr k => exact ih.trans (List.sublist_cons_self _ _)

theorem seps_sublist_items : ((seps l).map sepAt).Sublist (items key l) := by
  induction l with
  | nil => exact .refl _
  | cons a l ih =>
    cases a with
    | inl x => exact ih.trans (List.sublist_append_right _ _)
    | inr k => simpa [seps] using ih

theorem mem_items {l : List (Leaf P V ⊕ K)} {x : K ×ₗ Bool} :
    x ∈ items key l ↔ (∃ v ∈ entries l, x = cellAt (key v)) ∨ ∃ k ∈ seps l, x = sepAt k := by
  constructor
  · intro hx
    obtain ⟨e, he, hx⟩ := List.mem_flatMap.mp hx
    cases e with
    | inl l' =>
      obtain ⟨v, hv, rfl⟩ := List.mem_map.mp hx
      exact .inl ⟨v, List.mem_flatMap.mpr ⟨_, he, hv⟩, rfl⟩
    | inr k => exact .inr ⟨k, List.mem_flatMap.mpr ⟨_, he, by simp⟩, List.mem_singleton.mp hx⟩
  · rintro (⟨v, hv, rfl⟩ | ⟨k, hk, rfl⟩)
    · exact entries_sublist_items.subset (List.mem_map_of_mem hv)
    · exact seps_sublist_items.subset (List.mem_map_of_mem hk)

/-- The spine of a node's cells, each child before its separator. -/
def spineOf {n : Nat} (cells : List (K × Tree K P V n)) : List (Leaf P V ⊕ K) :=
  cells.flatMap (fun c => c.2.spine ++ [.inr c.1])

theorem Tree.spine_node {n : Nat} (t : Node K P (Tree K P V n)) :
    Tree.spine (n := n + 1) t = spineOf t.cells ++ t.right.spine := rfl

/-- Around a separator: the child it follows, and everything after it. -/
theorem spineOf_cut {n : Nat} {A B : List (K × Tree K P V n)} {c : K × Tree K P V n}
    {r : Tree K P V n} : spineOf (A ++ c :: B) ++ r.spine =
      spineOf A ++ (c.2.spine ++ .inr c.1 :: (spineOf B ++ r.spine)) := by
  simp [spineOf]

/-- The children right of a separator, each with the separator just before it. -/
theorem entries_spineOf {n : Nat} {B : List (K × Tree K P V n)} {c : K × Tree K P V n}
    {r : Tree K P V n} {v : V} (hv : v ∈ entries (spineOf B ++ r.spine)) :
    ∃ (j : Nat) (a : K × Tree K P V n) (u : Tree K P V n), (c :: B)[j]? = some a ∧ (B.map (·.2) ++ [r])[j]? = some u ∧ v ∈ entries u.spine := by
  induction B generalizing c with
  | nil => exact ⟨0, c, r, rfl, rfl, hv⟩
  | cons b B ih =>
    have happ : spineOf (b :: B) ++ r.spine = b.2.spine ++ .inr b.1 :: (spineOf B ++ r.spine) :=
      spineOf_cut (A := [])
    rw [happ, entries_append, entries_sep, List.mem_append] at hv
    rcases hv with hv | hv
    · exact ⟨0, c, b.2, rfl, rfl, hv⟩
    · obtain ⟨j, a, u, ha, hu, hv⟩ := ih (c := b) hv
      exact ⟨j + 1, a, u, ha, hu, hv⟩

theorem mem_spineOf {n : Nat} {cells : List (K × Tree K P V n)} {c : K × Tree K P V n}
    (h : c ∈ cells) : .inr c.1 ∈ spineOf cells :=
  List.mem_flatMap.mpr ⟨c, h, by simp⟩

/-- Around child `i`: the separators before it, and the one after it if there is one. -/
theorem Node.spine_kid {n : Nat} {t : Node K P (Tree K P V n)} {i : Nat} {u : Tree K P V n}
    (h : t.kids[i]? = some u) : ∃ rest, Tree.spine (n := n + 1) t =
      spineOf (t.cells.take i) ++ (u.spine ++ rest) ∧
      ∀ b, t.cells[i]? = some b → .inr b.1 ∈ rest := by
  have hi : i < t.cells.length + 1 := by
    simpa [Node.kids] using (List.getElem?_eq_some_iff.mp h).1
  rcases Nat.lt_succ_iff_lt_or_eq.mp hi with hlt | rfl
  · have hu : t.cells[i].2 = u := by
      simpa [Node.kids, List.getElem?_append_left, hlt] using h
    refine ⟨.inr t.cells[i].1 :: (spineOf (t.cells.drop (i + 1)) ++ t.right.spine), ?_, ?_⟩
    · rw [Tree.spine_node, ← hu, ← spineOf_cut]
      simp
    · intro b hb
      rw [List.getElem?_eq_getElem hlt] at hb
      cases hb
      exact List.mem_cons_self
  · have hu : t.right = u := by simpa [Node.kids] using h
    refine ⟨[], ?_, by simp⟩
    rw [Tree.spine_node, hu]
    simp

theorem Node.spine_kid_sublist {n : Nat} {t : Node K P (Tree K P V n)} {u : Tree K P V n}
    (h : u ∈ t.kids) : u.spine.Sublist (Tree.spine (n := n + 1) t) := by
  obtain ⟨i, hi⟩ := List.getElem?_of_mem h
  obtain ⟨rest, hs, -⟩ := Node.spine_kid hi
  rw [hs]
  exact (List.sublist_append_left _ _).trans (List.sublist_append_right _ _)

/-- A leaf of a node's spine is in the spine of a child. -/
theorem Node.exists_kid_spine {n : Nat} {t : Node K P (Tree K P V n)} {l : Leaf P V}
    (h : .inl l ∈ Tree.spine (n := n + 1) t) : ∃ u ∈ t.kids, .inl l ∈ u.spine := by
  rw [Tree.spine_node, List.mem_append, spineOf, List.mem_flatMap] at h
  rcases h with ⟨c, hc, h⟩ | h
  · have hkid : c.2 ∈ t.kids := List.mem_append_left _ (List.mem_map_of_mem hc)
    exact ⟨c.2, hkid, by simpa using h⟩
  · exact ⟨t.right, by simp [Node.kids], h⟩

theorem Tree.All.leaf_of_spine {pl : Leaf P V → Prop} {pn : Node K P P → Prop} {l : Leaf P V} :
    ∀ {n : Nat} {t : Tree K P V n}, t.All pl pn → .inl l ∈ t.spine → pl l
  | 0, t, ht, hm => by
    have heq : Sum.inl l = (Sum.inl t : Leaf P V ⊕ K) := List.mem_singleton.mp hm
    cases heq
    exact ht
  | n + 1, t, ht, hm => by
    obtain ⟨u, hu, hm⟩ := Node.exists_kid_spine hm
    exact Tree.All.leaf_of_spine (ht.2 u hu) hm

/-- A leaf on the spine of a node is on the spine of the child it is below. -/
theorem Node.spine_split {n : Nat} {p : P} {r : Tree K P V n} {l : Leaf P V}
    (cells : List (K × Tree K P V n)) {S₁ S₂ : List (Leaf P V ⊕ K)}
    (h : spineOf cells ++ r.spine = S₁ ++ .inl l :: S₂) :
    ∃ (f : Frame K P (Tree K P V n)) (u : Tree K P V n) (T₁ T₂ : List (Leaf P V ⊕ K)),
      f.plug u = ⟨p, cells, r⟩ ∧ u.spine = T₁ ++ .inl l :: T₂ ∧ S₁ = f.spineL ++ T₁ ∧
      S₂ = T₂ ++ f.spineR := by
  induction cells generalizing S₁ with
  | nil => exact ⟨.last p [], r, S₁, S₂, rfl, h, rfl, by simp [Frame.spineR, Frame.foldR]⟩
  | cons b cells ih =>
    have hcut : spineOf (b :: cells) ++ r.spine =
        b.2.spine ++ .inr b.1 :: (spineOf cells ++ r.spine) := spineOf_cut (A := [])
    rw [hcut] at h
    rcases List.append_eq_append_iff.mp h with ⟨T, rfl, hT⟩ | ⟨T, hb, hT⟩
    · -- the leaf is right of the first child
      cases T with
      | nil => cases hT
      | cons e T =>
        obtain ⟨rfl, hrest⟩ := List.cons.inj hT
        obtain ⟨f, u, T₁, T₂, hf, hu, rfl, rfl⟩ := ih hrest
        cases f with
        | last q as =>
          cases hf
          refine ⟨.last p (b :: cells), r, T₁, T₂, rfl, hu, ?_, rfl⟩
          simp [Frame.spineL, Frame.foldL, Frame.pre]
        | mid q as k bs r' =>
          cases hf
          refine ⟨.mid p (b :: as) k bs r, u, T₁, T₂, rfl, hu, ?_, rfl⟩
          simp [Frame.spineL, Frame.foldL, Frame.pre]
    · cases T with
      | nil => cases hT
      | cons e T =>
        obtain ⟨rfl, rfl⟩ := List.cons.inj hT
        exact ⟨.mid p [] b.1 cells r, b.2, S₁, T, rfl, hb, rfl, by simp [Frame.spineR, Frame.foldR, spineOf]⟩

/-- A leaf on the spine is the hole of a context that has the rest of the spine around it. -/
theorem Ctx.exists_leaf {m : Nat} {l : Leaf P V} : ∀ {n : Nat} (c : Ctx K P V m n) (t : Tree K P V n)
    {S₁ S₂ : List (Leaf P V ⊕ K)}, t.spine = S₁ ++ .inl l :: S₂ →
    ∃ c' : Ctx K P V m 0, c'.plug l = c.plug t ∧ c'.spineL = c.spineL ++ S₁ ∧
      c'.spineR = S₂ ++ c.spineR
  | 0, c, t, S₁, S₂, h => by
    have h' : [.inl t] = S₁ ++ .inl l :: S₂ := h
    obtain ⟨rfl, rfl, rfl⟩ : S₁ = [] ∧ l = t ∧ S₂ = [] := by
      simpa [List.singleton_eq_append_iff] using h'
    exact ⟨c, rfl, by simp, rfl⟩
  | n + 1, c, ⟨p, cells, r⟩, S₁, S₂, h => by
    obtain ⟨f, u, T₁, T₂, hf, hu, rfl, rfl⟩ := Node.spine_split (p := p) cells h
    obtain ⟨c', hplug, hl, hr⟩ := Ctx.exists_leaf (.step f c) u hu
    refine ⟨c', ?_, ?_, ?_⟩
    · rw [hplug, Ctx.plug, hf]
    · rw [hl, Ctx.spineL_step, List.append_assoc]
    · rw [hr, Ctx.spineR_step, List.append_assoc]

theorem seps_sublist {l l' : List (Leaf P V ⊕ K)} (h : l.Sublist l') : (seps l).Sublist (seps l') := by
  induction h with
  | slnil => exact .refl _
  | cons a _ ih => exact ih.trans (List.sublist_append_right _ _)
  | cons_cons a _ ih => exact (List.Sublist.refl _).append ih

end Items

/-! ### The line -/

variable [LinearOrder K]

section Line

variable {a b : K}

@[simp] theorem sepAt_lt_sepAt : sepAt a < sepAt b ↔ a < b := by
  simp [sepAt, Prod.Lex.lt_iff]

@[simp] theorem cellAt_lt_cellAt : cellAt a < cellAt b ↔ a < b := by
  simp [cellAt, Prod.Lex.lt_iff]

@[simp] theorem cellAt_lt_sepAt : cellAt a < sepAt b ↔ a < b := by
  simp [cellAt, sepAt, Prod.Lex.lt_iff]

@[simp] theorem sepAt_lt_cellAt : sepAt a < cellAt b ↔ a ≤ b := by
  simp [cellAt, sepAt, Prod.Lex.lt_iff, le_iff_lt_or_eq]

theorem pairwise_insert {x : K ×ₗ Bool} {A B : List (K ×ₗ Bool)} (h : (A ++ B).Pairwise (· < ·))
    (hA : ∀ y ∈ A, y < x) (hB : ∀ y ∈ B, x < y) : (A ++ x :: B).Pairwise (· < ·) := by
  obtain ⟨h1, h2, -⟩ := List.pairwise_append.mp h
  exact KeySorted.append_cons h1 h2 hA hB

end Line

/-- A spine whose line increases strictly. -/
def Ordered (key : V → K) (l : List (Leaf P V ⊕ K)) : Prop := (items key l).Pairwise (· < ·)

section Ordered

variable {key : V → K} {l l' : List (Leaf P V ⊕ K)} {k : K}

theorem Ordered.sublist (h : Ordered key l') (hs : l.Sublist l') : Ordered key l :=
  List.Pairwise.sublist (items_sublist hs) h

theorem Ordered.sep (h : Ordered key (l ++ .inr k :: l')) :
    (∀ x ∈ items key l, x < sepAt k) ∧ (∀ x ∈ items key l', sepAt k < x) := by
  rw [Ordered, items_append, items_sep] at h
  obtain ⟨-, h2, h3⟩ := List.pairwise_append.mp h
  exact ⟨fun x hx => h3 x hx _ (by simp), (List.pairwise_cons.mp h2).1⟩

theorem Ordered.keySorted_entries (h : Ordered key l) : KeySorted key (entries l) := by
  have := List.Pairwise.sublist entries_sublist_items h
  simpa [KeySorted, List.pairwise_map] using this

theorem Ordered.pairwise_seps (h : Ordered key l) : (seps l).Pairwise (· < ·) := by
  have := List.Pairwise.sublist seps_sublist_items h
  simpa [List.pairwise_map] using this

/-- Everything left of a cell is smaller, everything right of it greater. -/
theorem Ordered.cell {lo hi : List V} {v : V} {p : P}
    (h : Ordered key (l ++ .inl ⟨p, lo ++ v :: hi⟩ :: l')) :
    (∀ x ∈ items key l, x < cellAt (key v)) ∧ (∀ a ∈ lo, key a < key v) ∧
      (∀ b ∈ hi, key v < key b) ∧ ∀ x ∈ items key l', cellAt (key v) < x := by
  simp only [Ordered, items_append, items_leaf, Leaf.items, List.map_append, List.map_cons,
    List.append_assoc, List.cons_append] at h
  rw [← List.append_assoc] at h
  obtain ⟨-, hr, hl⟩ := List.pairwise_append.mp h
  have hr := (List.pairwise_cons.mp hr).1
  refine ⟨?_, ?_, ?_, ?_⟩
  · exact fun x hx => hl x (List.mem_append_left _ hx) _ List.mem_cons_self
  · intro a ha
    have ha' : cellAt (key a) ∈ lo.map (fun v => cellAt (key v)) := List.mem_map_of_mem ha
    exact cellAt_lt_cellAt.mp (hl _ (List.mem_append_right _ ha') _ List.mem_cons_self)
  · intro b hb
    have hb' : cellAt (key b) ∈ hi.map (fun v => cellAt (key v)) := List.mem_map_of_mem hb
    exact cellAt_lt_cellAt.mp (hr _ (List.mem_append_left _ hb'))
  · exact fun x hx => hr x (List.mem_append_right _ hx)

/-- A leaf cut in two nonempty parts, under the first key of the right one. -/
theorem Ordered.cut {ls rs : List V} {a v : V} {p q i : P}
    (h : Ordered key (l ++ .inl ⟨p, a :: ls ++ v :: rs⟩ :: l')) :
    Ordered key (l ++ .inl ⟨q, a :: ls⟩ :: .inr (key v) :: .inl ⟨i, v :: rs⟩ :: l') := by
  simp only [Ordered, items_append, items_leaf, items_sep, Leaf.items] at h ⊢
  rw [List.map_append, List.append_assoc, ← List.append_assoc] at h
  rw [← List.append_assoc]
  obtain ⟨hX, hY, hXY⟩ := List.pairwise_append.mp h
  have hv : ∀ x ∈ items key l ++ (a :: ls).map (fun v => cellAt (key v)), x < cellAt (key v) :=
    fun x hx => hXY x hx _ (by simp)
  refine pairwise_insert h ?_ ?_
  · intro x hx
    rcases List.mem_append.mp hx with hxA | hxa
    · have hxa : x < cellAt (key a) := (List.pairwise_append.mp hX).2.2 x hxA _ (by simp)
      have hav := cellAt_lt_cellAt.mp (hv (cellAt (key a)) (by simp))
      exact hxa.trans (cellAt_lt_sepAt.mpr hav)
    · obtain ⟨w, -, rfl⟩ := List.mem_map.mp hxa
      exact cellAt_lt_sepAt.mpr (cellAt_lt_cellAt.mp (hv _ hx))
  · intro y hy
    have hsv : sepAt (key v) < cellAt (key v) := sepAt_lt_cellAt.mpr le_rfl
    rw [List.map_cons, List.cons_append] at hy hY
    rcases List.mem_cons.mp hy with rfl | hy
    · exact hsv
    · exact hsv.trans ((List.pairwise_cons.mp hY).1 y hy)

/-- Two adjacent leaves joined, their separator gone. -/
theorem Ordered.join {ls rs : List V} {p q i : P}
    (h : Ordered key (l ++ .inl ⟨p, ls⟩ :: .inr k :: .inl ⟨q, rs⟩ :: l')) :
    Ordered key (l ++ .inl ⟨i, ls ++ rs⟩ :: l') := by
  refine List.Pairwise.sublist ?_ h
  simp only [items_append, items_leaf, items_sep, Leaf.items, List.map_append, List.append_assoc]
  refine (List.Sublist.refl _).append ((List.Sublist.refl _).append ?_)
  exact List.sublist_cons_self _ _

/-- A new cell where the search for its key ends. -/
theorem Ordered.insert {lo hi : List V} {v : V} {p q : P}
    (h : Ordered key (l ++ .inl ⟨p, lo ++ hi⟩ :: l'))
    (hl : ∀ x ∈ items key l, x < cellAt (key v)) (hr : ∀ x ∈ items key l', cellAt (key v) < x)
    (hlo : ∀ a ∈ lo, key a < key v) (hhi : ∀ b ∈ hi, key v < key b) :
    Ordered key (l ++ .inl ⟨q, lo ++ v :: hi⟩ :: l') := by
  simp only [Ordered, items_append, items_leaf, Leaf.items, List.map_append, List.map_cons,
    List.append_assoc, List.cons_append] at h ⊢
  rw [← List.append_assoc] at h ⊢
  refine pairwise_insert h ?_ ?_
  · intro y hy
    rcases List.mem_append.mp hy with hy | hy
    · exact hl y hy
    · obtain ⟨a, ha, rfl⟩ := List.mem_map.mp hy
      exact cellAt_lt_cellAt.mpr (hlo a ha)
  · intro y hy
    rcases List.mem_append.mp hy with hy | hy
    · obtain ⟨a, ha, rfl⟩ := List.mem_map.mp hy
      exact cellAt_lt_cellAt.mpr (hhi a ha)
    · exact hr y hy

/-- One cell fewer. -/
theorem Ordered.erase {lo hi : List V} {v : V} {p q : P}
    (h : Ordered key (l ++ .inl ⟨p, lo ++ v :: hi⟩ :: l')) :
    Ordered key (l ++ .inl ⟨q, lo ++ hi⟩ :: l') := by
  refine List.Pairwise.sublist ?_ h
  simp only [items_append, items_leaf, Leaf.items, List.map_append, List.map_cons,
    List.append_assoc, List.cons_append]
  refine (List.Sublist.refl _).append ((List.Sublist.refl _).append ?_)
  exact List.sublist_cons_self _ _

end Ordered

/-! ### Nodes -/

section Frames

variable {n : Nat} {key : V → K} {f : Frame K P (Tree K P V n)} {k : K} {t : Tree K P V n}

omit [LinearOrder K] in
theorem Frame.sep_mem_spineL {a : K × Tree K P V n} (ha : a ∈ f.pre) : .inr a.1 ∈ f.spineL :=
  List.mem_append_right _ (List.mem_flatMap.mpr ⟨a, ha, by simp⟩)

omit [LinearOrder K] in
theorem Frame.sep_mem_spineR {b : K × Tree K P V n} (hb : b ∈ (f.rest t).1) : .inr b.1 ∈ f.spineR := by
  cases f with
  | last p as => cases hb
  | mid p as k' bs r =>
    refine List.mem_append_left _ ?_
    rcases List.mem_cons.mp hb with rfl | hb
    · exact List.mem_append_left _ (by simp)
    · exact List.mem_append_right _ (List.mem_flatMap.mpr ⟨b, hb, by simp⟩)

theorem Frame.pre_lt (h : ∀ x ∈ items key f.spineL, x < sepAt k) : ∀ a ∈ f.pre, a.1 < k := by
  intro a ha
  exact sepAt_lt_sepAt.mp (h (sepAt a.1) (sepAt_mem_items (Frame.sep_mem_spineL ha)))

theorem Frame.lt_rest (h : ∀ x ∈ items key f.spineR, sepAt k < x) :
    ∀ b ∈ (f.rest t).1, k < b.1 := by
  intro b hb
  exact sepAt_lt_sepAt.mp (h (sepAt b.1) (sepAt_mem_items (Frame.sep_mem_spineR hb)))

theorem Node.keySorted_of_ordered {s : Node K P (Tree K P V n)}
    (h : Ordered key (Tree.spine (n := n + 1) s)) : KeySorted Prod.fst s.cells := by
  have hsub : (s.cells.map (fun c => (.inr c.1 : Leaf P V ⊕ K))).Sublist
      (Tree.spine (n := n + 1) s) := by
    refine List.Sublist.trans ?_ (List.sublist_append_left _ _)
    rw [List.nil_append]
    induction s.cells with
    | nil => exact .refl _
    | cons c cs ih =>
      rw [List.map_cons, List.flatMap_cons, ← List.singleton_append]
      exact (List.sublist_append_right c.2.spine [.inr c.1]).append ih
  have hs := (h.sublist hsub).pairwise_seps
  simpa [seps, List.flatMap_map, KeySorted, List.pairwise_map, ← List.map_eq_flatMap] using hs

/-- The child a key belongs to: everything left of it comes before the cell with that key, and
everything right of it after. -/
theorem Node.descend {s : Node K P (Tree K P V n)}
    (h : Ordered key (Tree.spine (n := n + 1) s)) (k : K) :
    ∃ (f : Frame K P (Tree K P V n)) (t : Tree K P V n), s = f.plug t ∧
      (∀ a ∈ f.pre, a.1 ≤ k) ∧ (∀ b ∈ (f.rest t).1, k < b.1) ∧
      (∀ x ∈ items key f.spineL, x < cellAt k) ∧ (∀ x ∈ items key f.spineR, cellAt k < x) := by
  obtain ⟨p, cells, r⟩ := s
  obtain ⟨lo, hi, rfl, hlo, hhi⟩ := exists_cut_le (Node.keySorted_of_ordered h) k
  -- a child's own items lie below the separator that follows it
  have hleft : ∀ x ∈ items key (Frame.spineL (.last p lo : Frame K P (Tree K P V n))),
      x < cellAt k := by
    intro x hx
    obtain ⟨e, he, hx⟩ := List.mem_flatMap.mp hx
    obtain ⟨c, hc, he⟩ := List.mem_flatMap.mp he
    have hck : sepAt c.1 < cellAt k := sepAt_lt_cellAt.mpr (hlo c hc)
    have hsub : (c.2.spine ++ Sum.inr c.1 :: []).Sublist (Tree.spine (n := n + 1) ⟨p, lo ++ hi, r⟩) := by
      refine List.Sublist.trans ?_ (List.sublist_append_left _ _)
      exact List.sublist_flatten_of_mem (List.mem_map_of_mem (List.mem_append_left _ hc))
    rcases List.mem_append.mp he with he | he
    · exact ((h.sublist hsub).sep.1 x (List.mem_flatMap.mpr ⟨e, he, hx⟩)).trans hck
    · rw [List.mem_singleton.mp he] at hx
      rw [List.mem_singleton.mp hx]
      exact hck
  cases hi with
  | nil =>
    rw [List.append_nil]
    exact ⟨.last p lo, r, rfl, hlo, by simp [Frame.rest], hleft, by simp [Frame.spineR, Frame.foldR]⟩
  | cons b bs =>
    obtain ⟨k', t⟩ := b
    have hk : cellAt k < sepAt k' := cellAt_lt_sepAt.mpr (hhi (k', t) (by simp))
    refine ⟨.mid p lo k' bs r, t, rfl, hlo, hhi, hleft, ?_⟩
    have hplug := Frame.spine_plug (f := .mid p lo k' bs r) (t := t)
    rw [Frame.plug] at hplug
    rw [hplug] at h
    have hright := h.sublist (List.sublist_append_right _ _)
    rw [Frame.spineR, Frame.foldR, List.append_assoc, List.singleton_append] at hright ⊢
    intro x hx
    rw [items_sep] at hx
    rcases List.mem_cons.mp hx with rfl | hx
    · exact hk
    · exact hk.trans ((Ordered.sep (l := []) hright).2 x hx)

end Frames

/-! ### Search trees as usually stated -/

section Usual

variable {key : V → K}

/-- The cells of every page in order. -/
def Tree.Sorted {n : Nat} (key : V → K) (t : Tree K P V n) : Prop :=
  t.All (fun l => KeySorted key l.cells) (fun s => KeySorted Prod.fst s.cells)

/-- Below child `i` of every node the keys lie between separators `i - 1` and `i`. -/
def Tree.Ranged (key : V → K) : {n : Nat} → Tree K P V n → Prop
  | 0, _ => True
  | n + 1, t => (∀ i (u : Tree K P V n), (Node.kids t)[i]? = some u → ∀ v ∈ entries u.spine,
      (∀ a, 0 < i → (Node.cells t)[i - 1]? = some a → a.1 ≤ key v) ∧
      (∀ b, (Node.cells t)[i]? = some b → key v < b.1)) ∧ ∀ u ∈ Node.kids t, u.Ranged key

/-- A node is ordered when its children are and each separator parts the line. -/
theorem ordered_spineOf {n : Nat} {r : Tree K P V n} (hr : Ordered key r.spine) :
    ∀ cells : List (K × Tree K P V n), (∀ c ∈ cells, Ordered key c.2.spine) →
    (∀ A c B, cells = A ++ c :: B → (∀ x ∈ items key c.2.spine, x < sepAt c.1) ∧
      ∀ x ∈ items key (spineOf B ++ r.spine), sepAt c.1 < x) →
    Ordered key (spineOf cells ++ r.spine)
  | [], _, _ => hr
  | c :: cells, hc, hsep => by
    have ih := ordered_spineOf hr cells (fun b hb => hc b (by simp [hb]))
      (fun A b B h => hsep (c :: A) b B (by simp [h]))
    obtain ⟨hlt, hgt⟩ := hsep [] c cells rfl
    have happ : spineOf (c :: cells) ++ r.spine =
        c.2.spine ++ .inr c.1 :: (spineOf cells ++ r.spine) := spineOf_cut (A := [])
    rw [happ, Ordered, items_append, items_sep]
    exact KeySorted.append_cons (hc c (by simp)) ih hlt hgt

theorem Ordered.ranged : ∀ {n : Nat} {t : Tree K P V n}, Ordered key t.spine → t.Ranged key
  | 0, _, _ => trivial
  | n + 1, t, h => by
    refine ⟨?_, fun u hu => (h.sublist (Node.spine_kid_sublist hu)).ranged⟩
    intro i u hu v hv
    obtain ⟨rest, hs, hb⟩ := Node.spine_kid hu
    have hv : cellAt (key v) ∈ items key u.spine := mem_items.mpr (.inl ⟨v, hv, rfl⟩)
    rw [hs, Ordered, items_append, items_append] at h
    obtain ⟨-, h2, h3⟩ := List.pairwise_append.mp h
    constructor
    · intro a hi ha
      have hmem : a ∈ (Node.cells t).take i := by
        rw [List.mem_take_iff_getElem]
        obtain ⟨hlt, rfl⟩ := List.getElem?_eq_some_iff.mp ha
        exact ⟨i - 1, by omega, rfl⟩
      exact sepAt_lt_cellAt.mp (h3 _ (sepAt_mem_items (mem_spineOf hmem)) _
        (List.mem_append_left _ hv))
    · intro b hb'
      exact cellAt_lt_sepAt.mp ((List.pairwise_append.mp h2).2.2 _ hv _ (sepAt_mem_items (hb b hb')))

theorem Tree.sorted_node {n : Nat} {t : Node K P (Tree K P V n)} :
    Tree.Sorted (n := n + 1) key t ↔ KeySorted Prod.fst t.cells ∧ ∀ u ∈ t.kids, u.Sorted key := by
  have h : Tree.Sorted (n := n + 1) key t ↔
      KeySorted Prod.fst (t.map Tree.id).cells ∧ ∀ u ∈ t.kids, u.Sorted key := Iff.rfl
  rw [h]
  simp [Node.map, KeySorted, List.pairwise_map]

theorem Ordered.sorted : ∀ {n : Nat} {t : Tree K P V n}, Ordered key t.spine → t.Sorted key
  | 0, t, h => by
    have hs := h.keySorted_entries
    change KeySorted key (Leaf.cells t ++ []) at hs
    rwa [List.append_nil] at hs
  | n + 1, t, h => by
    refine Tree.sorted_node.mpr ⟨Node.keySorted_of_ordered h, fun u hu => ?_⟩
    exact (h.sublist (Node.spine_kid_sublist hu)).sorted

/-- The line increases exactly when every page is sorted, every child keeps to its key range and
the separators increase over the whole tree. -/
theorem ordered_iff : ∀ {n : Nat} {t : Tree K P V n}, Ordered key t.spine ↔
    t.Sorted key ∧ t.Ranged key ∧ (seps t.spine).Pairwise (· < ·) := by
  intro n t
  refine ⟨fun h => ⟨h.sorted, h.ranged, h.pairwise_seps⟩, ?_⟩
  induction n with
  | zero =>
    rintro ⟨hs, -, -⟩
    change (Leaf.items key t ++ []).Pairwise _
    rw [List.append_nil, Leaf.items, List.pairwise_map]
    exact List.Pairwise.imp (fun h => cellAt_lt_cellAt.mpr h) hs
  | succ n ih =>
    rintro ⟨hs, ⟨hr, hrk⟩, hsep⟩
    obtain ⟨hsorted, hsk⟩ := Tree.sorted_node.mp hs
    have hkid : ∀ u ∈ Node.kids t, Ordered key u.spine := fun u hu =>
      ih ⟨hsk u hu, hrk u hu, hsep.sublist (seps_sublist (Node.spine_kid_sublist hu))⟩
    rw [Tree.spine_node] at hsep ⊢
    refine ordered_spineOf (hkid _ (by simp [Node.kids])) _ ?_ ?_
    · intro c hc
      exact hkid c.2 (List.mem_append_left _ (List.mem_map_of_mem hc))
    · intro A c B hcut
      rw [hcut, spineOf_cut] at hsep
      rw [hcut] at hsorted
      obtain ⟨hlt, hgt⟩ : (∀ k ∈ seps c.2.spine, k < c.1) ∧
          ∀ k ∈ seps (spineOf B ++ (Node.right t).spine), c.1 < k := by
        have h := hsep.sublist (seps_sublist (List.sublist_append_right _ _))
        rw [seps, List.flatMap_append, List.flatMap_cons] at h
        exact KeySorted.around h
      constructor
      · intro x hx
        rcases mem_items.mp hx with ⟨v, hv, rfl⟩ | ⟨k, hk, rfl⟩
        · refine cellAt_lt_sepAt.mpr ((hr A.length c.2 ?_ v hv).2 c (by simp [hcut]))
          simp [Node.kids, hcut]
        · exact sepAt_lt_sepAt.mpr (hlt k hk)
      · intro x hx
        rcases mem_items.mp hx with ⟨v, hv, rfl⟩ | ⟨k, hk, rfl⟩
        · obtain ⟨j, a, u, ha, hu, hv⟩ := entries_spineOf (c := c) hv
          have hca : c.1 ≤ a.1 := by
            rcases List.mem_cons.mp (List.mem_of_getElem? ha) with rfl | hm
            · exact le_rfl
            · exact (hsorted.around.2 a hm).le
          have hav : a.1 ≤ key v := by
            refine (hr (A.length + j + 1) u ?_ v hv).1 a (Nat.succ_pos _) ?_
            · simp only [Node.kids, hcut, List.map_append, List.map_cons, List.append_assoc,
                List.cons_append]
              rw [List.getElem?_append_right (by simp; omega)]
              simpa [Nat.add_assoc, Nat.add_sub_cancel_left] using hu
            · rw [hcut, Nat.add_sub_cancel, List.getElem?_append_right (Nat.le_add_right _ _),
                Nat.add_sub_cancel_left]
              exact ha
          exact sepAt_lt_cellAt.mpr (hca.trans hav)
        · exact sepAt_lt_sepAt.mpr (hgt k hk)

end Usual

end HeightTree
