import Cpplite.BTree.LeafPairSpec
import Cpplite.BTree.InsertSpec

/-!
`remove`: the cell under the cursor goes; a leaf that is left short is refilled or merged.
The assertion in `borrow_from_leaf_sibling` is the one check that a sound tree can fail.
-/
namespace Cpplite

open Exec Search Linked HeightTree

section Remove

variable {m : Nat} {d : Disk} {cur : BTreeCursor} {c : BTreeCtx m 0} {p : Nat}
  {lo hi : List LeafCell} {v : LeafCell} [Build]

/-- A leaf that cannot spare a cell, as the right child of its parent. -/
def AtFault (cfg : BTreeConfig) (size : Nat) : BTreeCtx m 0 → Prop
  | .top => False
  | .step f _ => size = cfg.leafMinCells ∧ f.pre.length = f.size

/-- A leaf of this size that loses a cell is refilled from the right. -/
def DrawsRight (cfg : BTreeConfig) (size : Nat) (c : BTreeCtx m 0) : Prop :=
  ∃ (f : BTreeFrame 0) (up : BTreeCtx m 1), c = .step f up ∧ size = cfg.leafMinCells ∧
    FromRight cfg f

omit [Build] in
theorem drawsRight_step {cfg : BTreeConfig} {size : Nat} {f : BTreeFrame 0} {up : BTreeCtx m 1} :
    DrawsRight cfg size (.step f up) ↔ size = cfg.leafMinCells ∧ FromRight cfg f := by
  constructor
  · rintro ⟨f', up', heq, h⟩
    cases heq
    exact h
  · exact fun h => ⟨f, up, rfl, h⟩

/-- What a successful `remove` leaves: the tree with these cells. -/
def Removed (d : Disk) (cur : BTreeCursor) (ids : List Nat) (cells : List LeafCell) (d' : Disk)
    (cur' : BTreeCursor) : Prop :=
  ∃ (m' : Nat) (t' : BTree m'), Updated d d' cur cur' ids t' ∧ Placed cur' t' ∧
    entries t'.spine = cells

/-- The cursor is where `k` would stand in its leaf; `ahead` says whether a cell is there. -/
def StopsAt {n : Nat} (cur : BTreeCursor) (t : BTree n) (k : DefaultPagerKey) (ahead : Prop) : Prop :=
  ∃ (c : BTreeCtx n 0) (q : Nat) (lo hi : List LeafCell), c.plug ⟨q, lo ++ hi⟩ = t ∧
    cur.cursor = (q, lo.length) :: c.path ∧ Locates c k ∧ (∀ a ∈ lo, a.key < k) ∧
    (∀ b ∈ hi, k < b.key) ∧ (hi ≠ [] ↔ ahead)

omit [Build] in
theorem StopsAt.placed {n : Nat} {t : BTree n} {k : DefaultPagerKey} {ahead : Prop}
    (h : StopsAt cur t k ahead) : Placed cur t := by
  obtain ⟨c, q, lo, hi, hplug, hcur, -⟩ := h
  exact .inr ⟨c, _, _, hplug, hcur⟩

/-- The search that ends a removal stops where the removed cell would stand now. -/
theorem moveAway_runs {n : Nat} {t : BTree n} {e : Disk} {cur₁ : BTreeCursor} {ids : List Nat}
    {q : Nat} {s₁ s₂ : Spine} {ahead : Prop} (h : Updated d e cur cur₁ ids t)
    (hs : t.spine = s₁ ++ .inl ⟨q, lo ++ hi⟩ :: s₂)
    (ho : Ordered LeafCell.key (s₁ ++ .inl ⟨q, lo ++ v :: hi⟩ :: s₂)) (hahead : hi ≠ [] ↔ ahead) :
    Runs (do let found ← moveToKey v.key; assert (found = false)) e cur₁
      (fun _ d' cur' => Updated d d' cur cur' ids t ∧ StopsAt cur' t v.key ahead) := by
  obtain ⟨hl, hlo, hhi, hr⟩ := ho.cell
  obtain ⟨c, hplug, hcl, hcr⟩ := Ctx.exists_leaf .top t hs
  have hloc : Locates c v.key := by
    constructor
    · intro x hx
      rw [hcl] at hx
      exact hl x hx
    · intro x hx
      rw [hcr, Ctx.spineR, Ctx.foldR, List.append_nil] at hx
      exact hr x hx
  refine (moveToKey_runs (k := v.key) h.evolves.good h.planted).bind ?_
  rintro found e' cur' ⟨rfl, c', l', i', harr⟩
  obtain ⟨rfl, rfl⟩ := hloc.unique harr.locates (hplug.trans harr.plug_eq.symm)
  have hfind := harr.find.symm.trans (findKey_missing hlo hhi)
  cases hfind
  refine (steps_assert (.inr rfl)).mono ?_
  rintro _ d' cur' ⟨-, rfl, rfl⟩
  have hup := h.setCursor ((q, lo.length) :: c.path)
  rw [harr.cursor]
  exact ⟨hup, c, q, lo, hi, harr.plug_eq, rfl, hloc, hlo, hhi, hahead⟩

omit [Build] in
/-- Without the removed cell its key is gone. -/
theorem Planted.key_gone (h : Planted d cur (c.plug ⟨p, lo ++ v :: hi⟩)) :
    ∀ w ∈ entries c.spineL ++ (lo ++ hi) ++ entries c.spineR, w.key ≠ v.key := by
  have hs := h.ordered.keySorted_entries
  rw [Ctx.spine_plug_leaf, entries_append, entries_leaf] at hs
  have hs' : KeySorted LeafCell.key ((entries c.spineL ++ lo) ++ v :: (hi ++ entries c.spineR)) := by
    simpa using hs
  obtain ⟨hl, hr⟩ := hs'.around
  intro w hw
  simp only [List.mem_append] at hl hr hw
  rcases hw with (hw | hw | hw) | hw
  · exact (hl w (.inl hw)).ne
  · exact (hl w (.inr hw)).ne
  · exact (hr w (.inl hw)).ne'
  · exact (hr w (.inr hw)).ne'

omit [Build] in
theorem Planted.keys_around (h : Planted d cur (c.plug ⟨p, lo ++ v :: hi⟩)) :
    (∀ a ∈ lo, a.key < v.key) ∧ (∀ b ∈ hi, v.key < b.key) := by
  have hs : KeySorted LeafCell.key (lo ++ v :: hi) := h.keySorted_leaf
  exact hs.around

theorem deleteUnderCursor_steps (hcur : cur.cursor = (p, lo.length) :: c.path)
    (hT : Planted d cur (c.plug ⟨p, lo ++ v :: hi⟩)) :
    Steps deleteUnderCursor d cur ((p, lo.length), v.key,
        leafManager p (lo ++ hi) ((leafIds c.spineL).getLastD nullPage)
          ((leafIds c.spineR).headD nullPage))
      (d.set p (.leaf (lo ++ hi) ((leafIds c.spineL).getLastD nullPage)
        ((leafIds c.spineR).headD nullPage))) { cur with cursor := c.path } := by
  have hpage := hT.leaf_page
  obtain ⟨hlo, hhi⟩ := hT.keys_around
  unfold deleteUnderCursor
  refine steps_getSelf.then ?_
  rw [hcur]
  refine (steps_assert (.inr (by simp))).then ?_
  refine steps_topOf.then ?_
  refine steps_setCursor.then ?_
  refine (steps_assertPageType (by simp [hpage, LogicalPage.type?])).then ?_
  refine (steps_loadLeaf hpage).then ?_
  refine (steps_assert (.inr rfl)).then ?_
  refine (steps_assert (.inr (by simp [leafManager]))).then ?_
  refine (steps_index (a := v) (by simp [leafManager])).then ?_
  refine (steps_deleteCell hpage hlo hhi).then ?_
  exact steps_pure

omit [Build] in
/-- One cell fewer in a leaf that had its minimum. -/
theorem Planted.lacking {f : BTreeFrame 0} {up : BTreeCtx m 1} (hg : d.Good)
    (hT : Planted d cur ((Ctx.step f up).plug ⟨p, lo ++ v :: hi⟩))
    (hlt : (lo ++ hi).length < cur.config.leafMinCells) (st : BTreeCursorStack) :
    Lacking (d.set p (.leaf (lo ++ hi) ((leafIds (Ctx.step f up).spineL).getLastD nullPage)
      ((leafIds (Ctx.step f up).spineR).headD nullPage))) { cur with cursor := st } (.step f up)
      ⟨p, lo ++ hi⟩ := by
  have ho := hT.ordered
  rw [Ctx.spine_plug_leaf] at ho
  refine ⟨(hT.hung hg ho.erase).setCursor st, hT.linked_set, ?_⟩
  have hf := ((Ctx.rootFilled_plug _ _).mp hT.filled).2
  change _ ≤ (lo ++ v :: hi).length ∧ _ at hf
  simp only [BTreeConfig.bounds, List.length_append, List.length_cons] at hf hlt ⊢
  omega

/-- `remove` by what becomes of the leaf: it stays, or its remaining cells are refilled from a side. -/
theorem remove_stops (hg : d.Good) (hv : cur.config.Valid)
    (hT : Planted d cur (c.plug ⟨p, lo ++ v :: hi⟩)) (hcur : cur.cursor = (p, lo.length) :: c.path)
    (hb : Build.ndebug = true ∨ ¬ AtFault cur.config (lo ++ v :: hi).length c) :
    Runs remove d cur (fun _ d' cur' => ∃ (m' : Nat) (t' : BTree m'),
      Updated d d' cur cur' (c.plug ⟨p, lo ++ v :: hi⟩).ids t' ∧
      entries t'.spine = entries c.spineL ++ (lo ++ hi) ++ entries c.spineR ∧
      ((entries t'.spine = [] ∧ cur'.cursor = []) ∨
        StopsAt cur' t' v.key (hi ≠ [] ∨ DrawsRight cur.config (lo ++ v :: hi).length c))) := by
  have hpage := hT.leaf_page
  have hmem : p ∈ (c.plug (⟨p, lo ++ v :: hi⟩ : BTreeLeaf)).ids :=
    (Ctx.ids_plug c _).mem_iff.mpr (List.mem_append_right _ (Tree.id_mem_ids (n := 0) _))
  have ho := hT.ordered
  rw [Ctx.spine_plug_leaf] at ho
  have hhung := hT.hung hg ho.erase
  have hlink := hT.linked_set (l := lo ++ hi)
  have hev : d.Evolves (d.set p (.leaf (lo ++ hi) ((leafIds c.spineL).getLastD nullPage)
      ((leafIds c.spineR).headD nullPage))) (c.plug ⟨p, lo ++ v :: hi⟩).ids :=
    .set hg (by rw [hpage]; trivial) hmem
  have hids : ∀ q, q ∈ (c.plug (⟨p, lo ++ hi⟩ : BTreeLeaf)).ids →
      q ∈ (c.plug (⟨p, lo ++ v :: hi⟩ : BTreeLeaf)).ids := by
    intro q hq
    rw [(Ctx.ids_plug c _).mem_iff] at hq ⊢
    exact hq
  have hent : entries (c.plug (⟨p, lo ++ hi⟩ : BTreeLeaf)).spine =
      entries c.spineL ++ (lo ++ hi) ++ entries c.spineR := by
    rw [Ctx.spine_plug_leaf]
    simp
  -- a leaf that may stay as it is
  have hstay : ∀ st, c.HoleFilled cur.config.bounds (⟨p, lo ++ hi⟩ : BTreeLeaf) →
      Updated d (d.set p (.leaf (lo ++ hi) ((leafIds c.spineL).getLastD nullPage)
        ((leafIds c.spineR).headD nullPage))) cur { cur with cursor := st }
        (c.plug ⟨p, lo ++ v :: hi⟩).ids (c.plug (⟨p, lo ++ hi⟩ : BTreeLeaf)) :=
    fun st hf => ⟨(hhung.planted hlink hf).setCursor st, rfl, fun q hq => .inl (hids q hq), hev⟩
  have hle : (lo ++ hi).length ≤ cur.config.leafMaxCells := by
    have hold := (Ctx.holeFilled_leaf.mp ((Ctx.rootFilled_plug c _).mp hT.filled).2).2
    simp only [BTreeConfig.bounds, List.length_append, List.length_cons] at hold ⊢
    omega
  unfold remove
  refine (deleteUnderCursor_steps hcur hT).then ?_
  refine steps_getSelf.then ?_
  by_cases hge : (lo ++ hi).length ≥ cur.config.leafMinCells
  · refine Runs.ite_pos hge ?_
    have hf := hstay c.path (Ctx.holeFilled_leaf.mpr ⟨fun _ => hge, hle⟩)
    have hahead : hi ≠ [] ↔ hi ≠ [] ∨ DrawsRight cur.config (lo ++ v :: hi).length c := by
      refine ⟨.inl, fun h => h.resolve_right (fun hdr => ?_)⟩
      obtain ⟨-, -, -, hsz, -⟩ := hdr
      simp only [List.length_append, List.length_cons] at hge hsz
      omega
    refine (moveAway_runs hf (Ctx.spine_plug_leaf c _) ho hahead).mono ?_
    exact fun _ d' cur' hup => ⟨m, _, hup.1, hent, .inr hup.2⟩
  refine Runs.ite_neg hge ?_
  have hroot := hhung.root_iff
  cases c with
  | top =>
    refine Runs.ite_pos (hroot.mpr rfl) ?_
    refine (steps_assert (.inr rfl)).then ?_
    refine (steps_assertPageType ?_).then ?_
    · rw [← hroot.mpr rfl]
      change ((d.set p _).page p).type? = _
      rw [Disk.set_page_self]
      rfl
    have hf := hstay [] (Ctx.holeFilled_leaf.mpr ⟨fun hne => absurd rfl hne, hle⟩)
    by_cases h0 : (lo ++ hi).length = 0
    · refine Runs.ite_pos h0 (Runs.pure ⟨_, _, hf, hent, .inl ⟨?_, rfl⟩⟩)
      rw [hent, List.length_eq_zero_iff.mp h0]
      rfl
    · refine Runs.ite_neg h0 ?_
      have hahead : hi ≠ [] ↔ hi ≠ [] ∨ DrawsRight cur.config (lo ++ v :: hi).length .top := by
        refine ⟨.inl, fun h => h.resolve_right ?_⟩
        rintro ⟨f, up, heq, -⟩
        cases heq
      refine (moveAway_runs hf (Ctx.spine_plug_leaf .top _) ho hahead).mono ?_
      exact fun _ d' cur' hup => ⟨_, _, hup.1, hent, .inr hup.2⟩
  | step f up =>
    have hlt := not_le.mp hge
    refine Runs.ite_neg (fun he => by cases hroot.mp he) ?_
    refine (steps_assert (.inr (by simp [Ctx.path]))).then ?_
    refine steps_topOf.then ?_
    refine steps_setCursor.then ?_
    refine (steps_assert (.inr hlt)).then ?_
    have hlack := hT.lacking hg hlt up.path
    have hv' : ({ cur with cursor := up.path } : BTreeCursor).config.Valid := hv
    have hfull : (lo ++ v :: hi).length = cur.config.leafMinCells := by
      have hsz := hlack.size_eq
      simp only [List.length_append, List.length_cons] at hsz ⊢
      omega
    refine (borrowFromLeafSibling_runs hv' hlack ?_).bind ?_
    · refine hb.imp_right (fun hfault => lt_of_le_of_ne Frame.pre_length_le ?_)
      exact fun heq => hfault ⟨hfull, heq⟩
    -- borrowed or merged, the tree is whole before the last search
    have hfinish : ∀ e' cur₁, Mended (d.set p (.leaf (lo ++ hi)
        ((leafIds (Ctx.step f up).spineL).getLastD nullPage)
        ((leafIds (Ctx.step f up).spineR).headD nullPage))) { cur with cursor := up.path }
        (.step f up) ⟨p, lo ++ hi⟩ (FromRight cur.config f) e' cur₁ →
        Runs (do let found ← moveToKey v.key; assert (found = false)) e' cur₁
          (fun _ d' cur' => ∃ (m' : Nat) (t' : BTree m'),
            Updated d d' cur cur' ((Ctx.step f up).plug ⟨p, lo ++ v :: hi⟩).ids t' ∧
            entries t'.spine = entries (Ctx.step f up).spineL ++ (lo ++ hi) ++
              entries (Ctx.step f up).spineR ∧
            ((entries t'.spine = [] ∧ cur'.cursor = []) ∨ StopsAt cur' t' v.key
              (hi ≠ [] ∨ DrawsRight cur.config (lo ++ v :: hi).length (.step f up)))) := by
      rintro e' cur₁ ⟨m', t', hup, hcells, q, pre, post, s₁, s₂, hs, hpost, hord⟩
      rw [hent] at hcells
      have hup' : Updated d e' cur cur₁ ((Ctx.step f up).plug (⟨p, lo ++ v :: hi⟩ : BTreeLeaf)).ids t' :=
        ⟨hup.planted, hup.config_eq, fun q hq => (hup.ids_mem q hq).imp_left (hids q),
          hev.trans hg hup.evolves (fun q hq => .inl (hids q hq))⟩
      have hs' : t'.spine = s₁ ++ .inl ⟨q, (pre ++ lo) ++ (hi ++ post)⟩ :: s₂ := by simpa using hs
      have ho' := hord (lo ++ v :: hi) hT.ordered
      have hregroup : pre ++ (lo ++ v :: hi) ++ post = (pre ++ lo) ++ v :: (hi ++ post) := by simp
      rw [hregroup] at ho'
      have hahead : hi ++ post ≠ [] ↔
          hi ≠ [] ∨ DrawsRight cur.config (lo ++ v :: hi).length (.step f up) := by
        rw [drawsRight_step, and_iff_right hfull, ← hpost, ne_eq, List.append_eq_nil_iff, not_and_or]
      refine (moveAway_runs hup' hs' ho' hahead).mono ?_
      exact fun _ d' cur' hup => ⟨m', t', hup.1, hcells, .inr hup.2⟩
    rintro b e' cur₁ (⟨rfl, hm⟩ | ⟨rfl, rfl, rfl, hsib⟩)
    · refine Runs.bind (P := fun _ d' c' => d' = e' ∧ c' = cur₁) (Runs.when ?_ ?_) ?_
      · intro h
        cases h
      · exact fun _ => ⟨rfl, rfl⟩
      · rintro _ _ _ ⟨rfl, rfl⟩
        exact hfinish _ _ hm
    · have hmerge := mergeWithLeafSibling_runs hv' hlack rfl hsib
      refine Runs.bind (Runs.when (fun _ => hmerge) (fun h => absurd rfl h)) ?_
      exact fun _ e' cur₁ hm => hfinish e' cur₁ hm

theorem remove_runs (hg : d.Good) (hv : cur.config.Valid)
    (hT : Planted d cur (c.plug ⟨p, lo ++ v :: hi⟩)) (hcur : cur.cursor = (p, lo.length) :: c.path)
    (hb : Build.ndebug = true ∨ ¬ AtFault cur.config (lo ++ v :: hi).length c) :
    Runs remove d cur (fun _ d' cur' => Removed d cur (c.plug ⟨p, lo ++ v :: hi⟩).ids
      (entries c.spineL ++ (lo ++ hi) ++ entries c.spineR) d' cur') := by
  refine (remove_stops hg hv hT hcur hb).mono ?_
  rintro _ d' cur' ⟨m', t', hup, hent, ⟨-, hnil⟩ | hstop⟩
  · exact ⟨m', t', hup, .inl hnil, hent⟩
  · exact ⟨m', t', hup, hstop.placed, hent⟩

/-- A root that is a leaf never asks its neighbours: one page is written. -/
theorem remove_root_runs (hg : d.Good) (hv : cur.config.Valid)
    (hT : Planted (n := 0) d cur (⟨p, lo ++ v :: hi⟩ : BTreeLeaf))
    (hcur : cur.cursor = [(p, lo.length)]) :
    Runs remove d cur (fun _ d' cur' => d' = d.set p (.leaf (lo ++ hi) nullPage nullPage) ∧
      Standing (n := 0) d' cur' (⟨p, lo ++ hi⟩ : BTreeLeaf) ∧ cur'.config = cur.config) := by
  have hpage : d.page p = .leaf (lo ++ v :: hi) nullPage nullPage :=
    hT.leaf_page (c := (.top : BTreeCtx 0 0))
  have hgood : (d.set p (.leaf (lo ++ hi) nullPage nullPage)).Good := hg.set (by rw [hpage]; trivial)
  have ho : Ordered LeafCell.key (([] : Spine) ++ .inl ⟨p, lo ++ v :: hi⟩ :: []) := hT.ordered
  have hle : (lo ++ hi).length ≤ cur.config.leafMaxCells := by
    have hold : (lo ++ v :: hi).length ≤ cur.config.leafMaxCells := hT.filled
    simp only [List.length_append, List.length_cons] at hold ⊢
    omega
  have hpl : Planted (n := 0) (d.set p (.leaf (lo ++ hi) nullPage nullPage)) cur
      (⟨p, lo ++ hi⟩ : BTreeLeaf) :=
    (hT.hung (c := (.top : BTreeCtx 0 0)) hg ho.erase).planted
      (hT.linked_set (c := (.top : BTreeCtx 0 0))) hle
  have hgone := hT.key_gone (c := (.top : BTreeCtx 0 0))
  -- the search that follows only moves the cursor
  have hsearch : Runs (do let found ← moveToKey v.key; assert (found = false))
      (d.set p (.leaf (lo ++ hi) nullPage nullPage)) { cur with cursor := [] } (fun _ d' cur' =>
        d' = d.set p (.leaf (lo ++ hi) nullPage nullPage) ∧
        Standing (n := 0) d' cur' (⟨p, lo ++ hi⟩ : BTreeLeaf) ∧ cur'.config = cur.config) := by
    refine (moveToKey_runs (k := v.key) hgood (hpl.setCursor [])).bind ?_
    rintro found d' cur' ⟨rfl, c', l', i', harr⟩
    have hfound : found = false := by
      rw [← Bool.not_eq_true, harr.found_iff (hpl.setCursor [])]
      rintro ⟨w, hw, hwk⟩
      refine hgone w ?_ hwk
      have hw' : w ∈ lo ++ hi := by simpa [Tree.spine, Tree.fold] using hw
      exact List.mem_append_left _ (List.mem_append_right _ hw')
    refine (steps_assert (.inr hfound)).mono ?_
    rintro _ d' cur' ⟨-, rfl, rfl⟩
    have hst : Standing (n := 0) (d.set p (.leaf (lo ++ hi) nullPage nullPage))
        { cur with cursor := [] } (⟨p, lo ++ hi⟩ : BTreeLeaf) :=
      ⟨hgood, hv, hpl.setCursor [], .inl rfl⟩
    exact ⟨rfl, harr.standing hst, by rw [harr.cursor]⟩
  unfold remove
  refine (deleteUnderCursor_steps (c := (.top : BTreeCtx 0 0)) hcur hT).then ?_
  refine steps_getSelf.then ?_
  by_cases hge : (lo ++ hi).length ≥ cur.config.leafMinCells
  · exact Runs.ite_pos hge hsearch
  · refine Runs.ite_neg hge (Runs.ite_pos hT.root_eq ?_)
    refine (steps_assert (.inr rfl)).then ?_
    refine (steps_assertPageType ?_).then ?_
    · rw [← show p = cur.rootPgno from hT.root_eq]
      rw [Disk.set_page_self]
      rfl
    · by_cases h0 : (lo ++ hi).length = 0
      · exact Runs.ite_pos h0 (Runs.pure ⟨rfl, ⟨hgood, hv, hpl.setCursor [], .inl rfl⟩, rfl⟩)
      · exact Runs.ite_neg h0 hsearch

/-- With assertions on, a leaf at fault ends the program. -/
theorem remove_aborts (hg : d.Good) (hT : Planted d cur (c.plug ⟨p, lo ++ v :: hi⟩))
    (hcur : cur.cursor = (p, lo.length) :: c.path) (hb : Build.ndebug = false)
    (hfault : AtFault cur.config (lo ++ v :: hi).length c) : Aborts remove d cur := by
  cases c with
  | top => exact hfault.elim
  | step f up =>
    obtain ⟨hsz, hlast⟩ := hfault
    have hlt : (lo ++ hi).length < cur.config.leafMinCells := by
      simp only [List.length_append, List.length_cons] at hsz ⊢
      omega
    have ho := hT.ordered
    rw [Ctx.spine_plug_leaf] at ho
    have hroot := (hT.hung hg ho.erase).root_iff
    unfold remove
    refine (deleteUnderCursor_steps hcur hT).then_fails ?_
    refine steps_getSelf.then_fails ?_
    refine Fails.ite_neg (not_le.mpr hlt) ?_
    refine Fails.ite_neg (fun he => by cases hroot.mp he) ?_
    refine (steps_assert (.inr (by simp [Ctx.path]))).then_fails ?_
    refine steps_topOf.then_fails ?_
    refine steps_setCursor.then_fails ?_
    refine (steps_assert (.inr hlt)).then_fails ?_
    exact (borrowFromLeafSibling_aborts (hT.lacking hg hlt up.path) hb hlast).bind_left

end Remove

end Cpplite
