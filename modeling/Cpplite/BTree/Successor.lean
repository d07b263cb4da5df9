import Cpplite.BTree.Traverse

/-!
Where `remove` leaves the cursor. The search that ends it stops in the leaf where the removed
key would stand and never goes on to the next one, so the next key is under the cursor only
when that leaf has it.
-/
namespace Cpplite

open Exec Search Linked HeightTree

section Stops

variable {n : Nat} {d : Disk} {cur : BTreeCursor} {t : BTree n} {k : DefaultPagerKey} {ahead : Prop}

theorem mem_storedKeys {x : DefaultPagerKey} :
    x ∈ storedKeys t ↔ ∃ v ∈ entries t.spine, v.key = x := by
  rw [storedKeys, List.mem_map]

/-- The first cell behind the place of `k` in its leaf has the next key. -/
theorem Planted.isLeast {c : BTreeCtx n 0} {q : Nat} {lo hi : List LeafCell} {b : LeafCell}
    (hT : Planted d cur (c.plug ⟨q, lo ++ b :: hi⟩)) (hloc : Locates c k)
    (hlo : ∀ a ∈ lo, a.key < k) (hb : k < b.key) :
    IsLeast { x | x ∈ storedKeys (c.plug ⟨q, lo ++ b :: hi⟩) ∧ k < x } b.key := by
  have hent : entries (c.plug (⟨q, lo ++ b :: hi⟩ : BTreeLeaf)).spine =
      (entries c.spineL ++ lo) ++ b :: (hi ++ entries c.spineR) := by
    simp [Ctx.spine_plug_leaf]
  have hs := hT.ordered.keySorted_entries
  rw [hent] at hs
  constructor
  · exact ⟨mem_storedKeys.mpr ⟨b, by simp [hent], rfl⟩, hb⟩
  · rintro x ⟨hx, hkx⟩
    obtain ⟨e, he, rfl⟩ := mem_storedKeys.mp hx
    rw [hent, List.mem_append, List.mem_append, List.mem_cons] at he
    rcases he with (he | he) | rfl | he
    · have hitem : cellAt e.key ∈ items LeafCell.key c.spineL :=
        entries_sublist_items.subset (List.mem_map_of_mem he)
      exact absurd (cellAt_lt_cellAt.mp (hloc.left _ hitem)) (not_lt_of_gt hkx)
    · exact absurd (hlo e he) (not_lt_of_gt hkx)
    · exact le_rfl
    · exact (hs.around.2 e he).le

variable [Build]

/-- A cursor with a cell ahead reads the next key. -/
theorem StopsAt.currentKey (hT : Planted d cur t) (h : StopsAt cur t k ahead) (ha : ahead) :
    ∃ k', IsLeast { x | x ∈ storedKeys t ∧ k < x } k' ∧ Steps currentKey d cur k' d cur := by
  obtain ⟨c, q, lo, hi, rfl, hcur, hloc, hlo, hhi, hahead⟩ := h
  obtain ⟨b, hi, rfl⟩ := List.exists_cons_of_ne_nil (hahead.mpr ha)
  refine ⟨b.key, hT.isLeast hloc hlo (hhi b List.mem_cons_self), ?_⟩
  exact hT.currentKey ⟨c, q, lo, b, hi, rfl, hcur, rfl⟩

/-- A cursor past the last cell of its leaf reads nothing, whatever the next leaf holds. -/
theorem StopsAt.currentKey_fails (hT : Planted d cur t) (h : StopsAt cur t k ahead) (ha : ¬ ahead) :
    Fails Cpplite.currentKey d cur (fun e _ _ =>
      e = .runtimeError "[btree:current_key]: Cell index out of range") := by
  obtain ⟨c, q, lo, hi, rfl, hcur, -, -, -, hahead⟩ := h
  obtain rfl : hi = [] := by
    by_contra hne
    exact ha (hahead.mp hne)
  have hpage := hT.leaf_page
  unfold Cpplite.currentKey
  refine steps_getSelf.then_fails ?_
  rw [hcur]
  refine (steps_assert (.inr (by simp))).then_fails ?_
  refine steps_topOf.then_fails ?_
  refine (steps_getPageType (by rw [hpage]; rfl)).then_fails ?_
  refine (steps_assert (.inr rfl)).then_fails ?_
  refine (steps_loadLeaf hpage).then_fails ?_
  have hcell : (leafManager q (lo ++ []) ((leafIds c.spineL).getLastD nullPage)
      ((leafIds c.spineR).headD nullPage)).cells[lo.length]? = none := by simp [leafManager]
  simp only [hcell]
  exact fails_throw rfl

end Stops

/-- No stored key is above `k`, or the leaf that has `k` has a greater cell too, or it is refilled
from its right sibling. -/
def NextAtHand {n : Nat} (cfg : BTreeConfig) (t : BTree n) (k : DefaultPagerKey) : Prop :=
  (∀ x ∈ storedKeys t, x ≤ k) ∨
    ∃ (c : BTreeCtx n 0) (l : BTreeLeaf), c.plug l = t ∧ (∃ v ∈ l.cells, v.key = k) ∧
      ((∃ w ∈ l.cells, k < w.key) ∨ DrawsRight cfg l.cells.length c)

section Advance

variable [Build]

/-- `move_to_key(k)` and `remove()` take `k` out of a tree with the keys `ks`, and `current_key()`
then gives the least of the keys above `k`, if one is left. -/
def Advances (s : BTreeState) (ks : List DefaultPagerKey) (k : DefaultPagerKey) : Prop :=
  Returns (moveToKey k) s (fun found u => found = true ∧ Returns remove u (fun _ w =>
    ∃ (m : Nat) (t' : BTree m), WellFormed w.pager.disk w.self t' ∧ storedKeys t' = ks.erase k ∧
      ∀ k', IsLeast { x | x ∈ storedKeys t' ∧ k < x } k' →
        Returns currentKey w (fun key _ => key = k')))

variable {n : Nat} {s : BTreeState} {t : BTree n} {k : DefaultPagerKey}

omit [Build] in
/-- Whether the next key is at hand, seen from the cell that holds `k`. -/
theorem Planted.nextAtHand_iff {d : Disk} {cur : BTreeCursor} {cfg : BTreeConfig} {c : BTreeCtx n 0}
    {p : Nat} {lo hi : List LeafCell} {v : LeafCell} (hT : Planted d cur (c.plug ⟨p, lo ++ v :: hi⟩)) :
    NextAtHand cfg (c.plug ⟨p, lo ++ v :: hi⟩) v.key ↔
      (∀ x ∈ storedKeys (c.plug (⟨p, lo ++ v :: hi⟩ : BTreeLeaf)), x ≤ v.key) ∨
        (hi ≠ [] ∨ DrawsRight cfg (lo ++ v :: hi).length c) := by
  obtain ⟨hlo, hhi⟩ := hT.keys_around
  have hgt : (∃ w ∈ lo ++ v :: hi, v.key < w.key) ↔ hi ≠ [] := by
    constructor
    · rintro ⟨w, hw, hlt⟩ rfl
      rw [List.mem_append, List.mem_singleton] at hw
      rcases hw with hw | rfl
      · exact absurd (hlo w hw) (not_lt_of_gt hlt)
      · exact absurd hlt (lt_irrefl _)
    · intro hne
      obtain ⟨b, hi', rfl⟩ := List.exists_cons_of_ne_nil hne
      exact ⟨b, by simp, hhi b List.mem_cons_self⟩
  refine or_congr_right ⟨?_, ?_⟩
  · rintro ⟨c', ⟨p', cells⟩, hplug, ⟨w, hw, hwk⟩, hcase⟩
    obtain ⟨lo', hi', rfl⟩ := List.append_of_mem hw
    have hT' := hT
    rw [← hplug] at hT'
    have hloc := hT'.locates
    rw [hwk] at hloc
    obtain ⟨rfl, hleaf⟩ := hloc.unique hT.locates hplug
    obtain ⟨rfl, hcells⟩ := Leaf.mk.inj hleaf
    rw [← hgt]
    simpa only [hcells] using hcase
  · intro h
    exact ⟨c, _, rfl, ⟨v, by simp, rfl⟩, h.imp_left hgt.mpr⟩

omit [Build] in
theorem Planted.storedKeys_erase {d : Disk} {cur : BTreeCursor} {c : BTreeCtx n 0} {p m : Nat}
    {lo hi : List LeafCell} {v : LeafCell} {t' : BTree m}
    (hT : Planted d cur (c.plug ⟨p, lo ++ v :: hi⟩))
    (hent : entries t'.spine = entries c.spineL ++ (lo ++ hi) ++ entries c.spineR) :
    storedKeys t' = (storedKeys (c.plug (⟨p, lo ++ v :: hi⟩ : BTreeLeaf))).erase v.key := by
  have hold : entries (c.plug (⟨p, lo ++ v :: hi⟩ : BTreeLeaf)).spine =
      (entries c.spineL ++ lo) ++ v :: (hi ++ entries c.spineR) := by
    simp [Ctx.spine_plug_leaf]
  have hs := hT.ordered.keySorted_entries
  rw [hold] at hs
  have hnot : v.key ∉ (entries c.spineL ++ lo).map LeafCell.key := by
    intro hm
    obtain ⟨a, ha, hak⟩ := List.mem_map.mp hm
    exact (hs.around.1 a ha).ne hak
  rw [storedKeys, storedKeys, hold, List.map_append, List.map_cons, List.erase_append_right _ hnot,
    List.erase_cons_head, ← List.map_append, hent]
  simp

/-- The cursor is left on the next key exactly when that key was at hand. -/
theorem remove_advances_iff (hb : Build.ndebug = true) (hg : s.pager.disk.Good)
    (hv : s.self.config.Valid) (hw : WellFormed s.pager.disk s.self t) (hk : k ∈ storedKeys t) :
    Advances s (storedKeys t) k ↔ NextAtHand s.self.config t k := by
  obtain ⟨found, u, hrun, rfl, hd, hcfg, hT, c, p, lo, v, hi, rfl, hcur, rfl, hloc⟩ :=
    moveToKey_found hg (wellFormed_iff.mp hw) (mem_storedKeys.mp hk)
  obtain ⟨_, w, hrem, m, t', hup, hent, hstop⟩ :=
    remove_stops (hd ▸ hg) (hcfg ▸ hv) hT hcur (.inl hb) u rfl rfl
  have hkeys := hT.storedKeys_erase hent
  have hmem : ∀ x, v.key < x →
      (x ∈ storedKeys (c.plug (⟨p, lo ++ v :: hi⟩ : BTreeLeaf)) ↔ x ∈ storedKeys t') := by
    intro x hx
    rw [hkeys, List.mem_erase_of_ne hx.ne']
  rw [Advances, returns_of_eq hrun, returns_of_eq hrem, hT.nextAtHand_iff, ← hcfg]
  constructor
  · rintro ⟨-, m₁, t₁, -, hkeys₁, hread⟩
    rw [← hkeys] at hkeys₁
    rw [hkeys₁] at hread
    by_contra hnot
    push Not at hnot
    obtain ⟨⟨x, hx, hlt⟩, hahead⟩ := hnot
    obtain ⟨k', hk', hleast⟩ := Set.exists_min_image { x | x ∈ storedKeys t' ∧ v.key < x } id
      (Set.toFinite _) ⟨x, (hmem x hlt).mp hx, hlt⟩
    rcases hstop with ⟨hnil, -⟩ | hstop
    · have hempty : storedKeys t' = [] := by rw [storedKeys, hnil, List.map_nil]
      rw [hempty] at hk'
      exact absurd hk'.1 List.not_mem_nil
    · have hfail := hstop.currentKey_fails hup.planted (by tauto)
      exact not_returns_of_raises (hfail w rfl rfl) (hread k' ⟨hk', hleast⟩)
  · intro hat
    refine ⟨rfl, m, t', wellFormed_iff.mpr hup.planted, hkeys, ?_⟩
    intro k' hk'
    have hgt : v.key < k' := hk'.1.2
    rcases hat with hmax | hahead
    · exact absurd (hmax k' ((hmem k' hgt).mpr hk'.1.1)) (not_le_of_gt hgt)
    rcases hstop with ⟨hnil, -⟩ | hstop
    · have hempty : storedKeys t' = [] := by rw [storedKeys, hnil, List.map_nil]
      rw [hempty] at hk'
      exact absurd hk'.1.1 List.not_mem_nil
    · obtain ⟨k₀, hk₀, hread⟩ := hstop.currentKey hup.planted hahead
      refine (hread w rfl rfl).mono ?_
      rintro key _ ⟨rfl, -⟩
      exact hk₀.unique hk'

/-- A search, a removal and a look at the key. -/
def removeAndLook (k : DefaultPagerKey) : BTreeM DefaultPagerKey := do
  let _ ← moveToKey k
  remove
  currentKey

theorem Advances.look {ks : List DefaultPagerKey} {k' : DefaultPagerKey} (h : Advances s ks k)
    (hk' : IsLeast { x | x ∈ ks.erase k ∧ k < x } k') :
    value? (removeAndLook k) s = some k' := by
  obtain ⟨found, u, hfind, -, _, w, hrem, m, t', -, hkeys, hread⟩ := h
  rw [← hkeys] at hk'
  obtain ⟨key, x, hkey, rfl⟩ := hread k' hk'
  have hrun : removeAndLook k s = .ok key x := by
    rw [removeAndLook, bind_ok hfind, bind_ok hrem, hkey]
  rw [value?, hrun]

end Advance

theorem remove_advances_narrow :
    letI : Build := ⟨true⟩
    Advances narrowState [1, 2] 1 := by
  let _ : Build := ⟨true⟩
  refine (remove_advances_iff rfl narrow_good narrow_valid narrow_wellFormed (by decide)).mpr ?_
  -- the leaf of the key 1 is its node's first child
  refine .inr ⟨.step (.mid 5 [] 2 [] ⟨4, [⟨0, 2, nullPage⟩]⟩) .top, ⟨3, [⟨0, 1, nullPage⟩]⟩, rfl,
    ⟨_, List.mem_singleton_self _, rfl⟩, .inr ?_⟩
  refine drawsRight_step.mpr ⟨rfl, by decide, ?_⟩
  rintro u ⟨⟩

/-- Leaves of one or two cells, and nodes of one or two. -/
def wideConfig : BTreeConfig := ⟨2, 1, 2, 1⟩

/-- What `insert(1, {})`, `insert(2, {})` and `insert(3, {})` make of an empty leaf on page 2 under
`wideConfig`. -/
def widePager : Pager where
  file := {
    page := fun
      | 1 => .first ⟨5, nullPage, 1⟩
      | 2 => .leaf ⟨2, leafFree 2, nullPage, nullPage⟩ [⟨0, 1, nullPage⟩, ⟨0, 2, nullPage⟩]
      | 3 => .leaf ⟨2, leafFree 2, 4, nullPage⟩ [⟨0, 1, nullPage⟩, ⟨0, 2, nullPage⟩]
      | 4 => .leaf ⟨1, leafFree 1, nullPage, 3⟩ [⟨0, 3, nullPage⟩]
      | 5 => .node ⟨1, nodeFree 1, 4⟩ [⟨3, 3⟩]
      | _ => .blank
    numPages := 5 }
  totalNumPages := 5

def wideState : BTreeState := ⟨widePager, [], 5, wideConfig⟩

def wideTree : BTree 1 :=
  ⟨5, [(3, ⟨3, [⟨0, 1, nullPage⟩, ⟨0, 2, nullPage⟩]⟩)], ⟨4, [⟨0, 3, nullPage⟩]⟩⟩

theorem wide_good : widePager.disk.Good := by
  refine ⟨⟨rfl, ⟨_, rfl⟩, ?_⟩, rfl, [], _, rfl, rfl⟩
  intro p hp
  by_contra hlt
  refine hp ?_
  have hne : ¬ p ≤ 5 := hlt
  simp [Pager.disk, widePager, OsFile.read, hne, Page.logical]

theorem wide_valid : wideConfig.Valid := by
  constructor <;> decide

theorem wide_wellFormed : WellFormed wideState.pager.disk wideState.self wideTree := by
  have hkids : Node.kids wideTree =
      [⟨3, [⟨0, 1, nullPage⟩, ⟨0, 2, nullPage⟩]⟩, ⟨4, [⟨0, 3, nullPage⟩]⟩] := rfl
  refine wellFormed_iff.mpr ⟨rfl, ⟨rfl, ?_⟩, by decide, ⟨rfl, rfl, trivial⟩, ?_,
    ⟨by decide, by decide, ?_⟩⟩
  · rw [hkids]
    simp only [List.forall_mem_cons]
    exact ⟨⟨_, _, rfl⟩, ⟨_, _, rfl⟩, by simp⟩
  · change List.Pairwise _ [cellAt 1, cellAt 2, sepAt 3, cellAt 3]
    have h1 : cellAt (1 : DefaultPagerKey) < cellAt 2 := cellAt_lt_cellAt.mpr (by decide)
    have h2 : cellAt (2 : DefaultPagerKey) < sepAt 3 := cellAt_lt_sepAt.mpr (by decide)
    have h3 : sepAt (3 : DefaultPagerKey) < cellAt 3 := sepAt_lt_cellAt.mpr le_rfl
    simp [h1, h2, h3, h1.trans h2, h2.trans h3, (h1.trans h2).trans h3]
  · rw [hkids]
    simp only [List.forall_mem_cons]
    exact ⟨⟨by decide, by decide⟩, ⟨by decide, by decide⟩, by simp⟩

/-- After the removal of 2 the cursor is past the last cell of the leaf with 1. -/
theorem wide_look : value? (@removeAndLook ⟨true⟩ 2) wideState = none := by
  decide +kernel

theorem remove_advances_fails :
    letI : Build := ⟨true⟩
    ¬ ∀ (n : Nat) (t : BTree n) (s : BTreeState) (k : DefaultPagerKey), s.pager.disk.Good →
      s.self.config.Valid → WellFormed s.pager.disk s.self t → k ∈ storedKeys t →
      Advances s (storedKeys t) k := by
  let _ : Build := ⟨true⟩
  intro h
  have hadv := h 1 wideTree wideState 2 wide_good wide_valid wide_wellFormed (by decide)
  have hleast : IsLeast { x | x ∈ (storedKeys wideTree).erase 2 ∧ 2 < x } 3 := by
    refine ⟨⟨by decide, by decide⟩, ?_⟩
    rintro x ⟨-, hx⟩
    exact hx
  have hlook := hadv.look hleast
  rw [wide_look] at hlook
  cases hlook

end Cpplite
