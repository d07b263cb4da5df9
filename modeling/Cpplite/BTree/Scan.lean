import Cpplite.BTree.CursorRuns

/-!
Scans from any key. `move_to_key` leaves the cursor at the first key of its leaf that is not
below the target, found or not; where the leaf has none the cursor stands one past the leaf's
last cell, which `current_key` refuses and the assertions of `next` and `prev` do too.
-/
namespace Cpplite

open Exec Search Linked HeightTree

/-- The keys of the tree from `k` on. -/
def keysFrom {n : Nat} (t : BTree n) (k : DefaultPagerKey) : List DefaultPagerKey :=
  (storedKeys t).filter (k ≤ ·)

/-- The keys of the tree before `k`. -/
def keysBelow {n : Nat} (t : BTree n) (k : DefaultPagerKey) : List DefaultPagerKey :=
  (storedKeys t).filter (· < k)

section Cut

variable {n : Nat} {d : Disk} {cur cur₁ cur' : BTreeCursor} {t : BTree n} {k : DefaultPagerKey}
  {found : Bool} {c : BTreeCtx n 0} {l : BTreeLeaf} {i : Nat}

theorem mem_entries_item {s : Spine} {v : LeafCell} (h : v ∈ entries s) :
    cellAt v.key ∈ items LeafCell.key s :=
  entries_sublist_items.subset (List.mem_map_of_mem h)

/-- The search cuts its leaf at the key, found or not. -/
theorem Arrives.cut (hT : Planted d cur t) (h : Arrives t k cur₁ cur' found c l i) :
    ∃ lo hi, l.cells = lo ++ hi ∧ i = lo.length ∧ (∀ a ∈ lo, a.key < k) ∧ ∀ b ∈ hi, k ≤ b.key := by
  obtain ⟨rfl, -, hfind, -⟩ := h
  rcases findKey_cases hT.keySorted_leaf k with
    ⟨lo, w, hi, hl, hwk, hlo, hhi, hfk⟩ | ⟨lo, hi, hl, hlo, hhi, hfk⟩
  · rw [hfind] at hfk
    cases hfk
    refine ⟨lo, w :: hi, hl, rfl, hlo, ?_⟩
    intro b hb
    rcases List.mem_cons.mp hb with rfl | hb
    · exact hwk.ge
    · exact (hhi b hb).le
  · rw [hfind] at hfk
    cases hfk
    exact ⟨lo, hi, hl, rfl, hlo, fun b hb => (hhi b hb).le⟩

/-- What stands left of the cut is below the key, what stands right of it is not. -/
theorem Locates.keys {p : Nat} {lo hi : List LeafCell} (h : Locates c k) (hlo : ∀ a ∈ lo, a.key < k)
    (hhi : ∀ b ∈ hi, k ≤ b.key) :
    keysBelow (c.plug ⟨p, lo ++ hi⟩) k = (entries c.spineL ++ lo).map LeafCell.key ∧
      keysFrom (c.plug ⟨p, lo ++ hi⟩) k = (hi ++ entries c.spineR).map LeafCell.key := by
  have hkeys : storedKeys (c.plug ⟨p, lo ++ hi⟩) =
      (entries c.spineL ++ lo).map LeafCell.key ++ (hi ++ entries c.spineR).map LeafCell.key := by
    rw [storedKeys, Ctx.spine_plug_leaf]
    simp
  have hbelow : ∀ x ∈ (entries c.spineL ++ lo).map LeafCell.key, x < k := by
    intro x hx
    obtain ⟨v, hv, rfl⟩ := List.mem_map.mp hx
    rcases List.mem_append.mp hv with hv | hv
    · exact cellAt_lt_cellAt.mp (h.left _ (mem_entries_item hv))
    · exact hlo v hv
  have hfrom : ∀ x ∈ (hi ++ entries c.spineR).map LeafCell.key, k ≤ x := by
    intro x hx
    obtain ⟨v, hv, rfl⟩ := List.mem_map.mp hx
    rcases List.mem_append.mp hv with hv | hv
    · exact hhi v hv
    · exact (cellAt_lt_cellAt.mp (h.right _ (mem_entries_item hv))).le
  rw [keysBelow, keysFrom, hkeys]
  exact filter_cut hbelow hfrom

end Cut

/-! ### One past the end of a leaf -/

section Behind

variable [Build] {n : Nat} {d : Disk} {cur : BTreeCursor} {c : BTreeCtx n 0} {l : BTreeLeaf}
  {i j : Nat}

/-- `current_key` checks the index itself. -/
theorem currentKey_refuses (hT : Planted d cur (c.plug l)) (hcur : cur.cursor = (l.id, i) :: c.path)
    (hi : l.cells.length ≤ i) : Fails currentKey d cur (fun e _ _ =>
      e = .runtimeError "[btree:current_key]: Cell index out of range") := by
  have hpage : d.page l.id = .leaf l.cells _ _ := hT.leaf_page
  unfold currentKey
  refine steps_getSelf.then_fails ?_
  rw [hcur]
  refine (steps_assert (.inr (by simp))).then_fails ?_
  refine steps_topOf.then_fails ?_
  refine (steps_getPageType hT.leaf_type).then_fails ?_
  refine (steps_assert (.inr rfl)).then_fails ?_
  refine (steps_loadLeaf hpage).then_fails ?_
  have hnone : (leafManager l.id l.cells ((leafIds c.spineL).getLastD nullPage)
      ((leafIds c.spineR).headD nullPage)).cells[i]? = none := List.getElem?_eq_none hi
  simp only [hnone]
  exact fails_throw rfl

/-- Without assertions `next` does from every place past the last cell what it does from there. -/
theorem next_behind {Q : Bool → Disk → BTreeCursor → Prop} (hnd : Build.ndebug = true)
    (hT : Planted d cur (c.plug l)) (hi : ¬ i < pred64 l.cells.length)
    (hj : ¬ j < pred64 l.cells.length)
    (h : Runs next d { cur with cursor := (l.id, j) :: c.path } Q) :
    Runs next d { cur with cursor := (l.id, i) :: c.path } Q := by
  have hpage : d.page l.id = .leaf l.cells _ _ := hT.leaf_page
  rintro ⟨pager, self⟩ hd rfl
  change pager.disk = d at hd
  subst hd
  -- the index is read, compared and then popped
  obtain ⟨x, hx⟩ : ∃ x, ∀ i, ¬ i < pred64 l.cells.length →
      next ⟨pager, { cur with cursor := (l.id, i) :: c.path }⟩ = x := by
    apply Exists.intro
    intro i hi
    let s : BTreeState := ⟨pager, { cur with cursor := (l.id, i) :: c.path }⟩
    have htype : onPager (assertPageType l.id .leafPage) s = .ok () s :=
      zoom_ok (assertPageType_ok hT.leaf_type)
    have hload : onPager (LeafPageManager.load l.id) s = .ok (leafManager l.id l.cells _ _) s :=
      zoom_ok (LeafPageManager.load_ok hpage)
    have hpop : setCursor c.path s = .ok () ⟨pager, { cur with cursor := c.path }⟩ := rfl
    apply (bind_ok (show getSelf s = .ok s.self s from rfl)).trans
    apply (bind_ok (assert_ok (.inl hnd))).trans
    apply (bind_ok (show topOf s.self.cursor s = .ok (l.id, i) s from rfl)).trans
    apply (bind_ok htype).trans
    apply (bind_ok hload).trans
    apply (bind_ok (assert_ok (.inl hnd))).trans
    apply (bind_ok (assert_ok (.inl hnd))).trans
    apply (congrFun (if_neg hi) s).trans
    apply (bind_ok hpop).trans
    rw [bind_ok (assert_ok (.inl hnd)), show s.self.cursor.tail = c.path from rfl]
  have hrun := h ⟨pager, { cur with cursor := (l.id, j) :: c.path }⟩ rfl rfl
  unfold Returns at hrun ⊢
  rwa [hx j hj, ← hx i hi] at hrun

/-- Without assertions `prev` does not care how far past a cell the cursor stands. -/
theorem prev_behind (hnd : Build.ndebug = true) (hT : Planted d cur (c.plug l)) :
    Steps prev d { cur with cursor := (l.id, i + 1) :: c.path } true d
      { cur with cursor := (l.id, i) :: c.path } := by
  have hpage : d.page l.id = .leaf l.cells _ _ := hT.leaf_page
  unfold prev
  refine steps_getSelf.then ?_
  refine (steps_assert (.inl hnd)).then ?_
  refine steps_topOf.then ?_
  refine (steps_getPageType hT.leaf_type).then ?_
  refine (steps_assert (.inl hnd)).then ?_
  refine (steps_loadLeaf hpage).then ?_
  refine (steps_assert (.inl hnd)).then ?_
  refine (steps_assert (.inl hnd)).then ?_
  refine Runs.ite_pos (Nat.succ_pos i) ?_
  refine steps_setCursor.then ?_
  exact Runs.pure ⟨rfl, rfl, rfl⟩

end Behind

/-! ### The scans -/

section Scan

variable [Build] {n : Nat} {s : BTreeState} {t : BTree n} {A B : List LeafCell} {v : LeafCell}
  {k : DefaultPagerKey}

/-- The step leads to the first of these keys, from where it visits them all; to nowhere if there
is none. -/
def Scans (step : BTreeM Bool) (s : BTreeState) (ks : List DefaultPagerKey) : Prop :=
  Returns step s (fun ok u => (ok = true ↔ ks ≠ []) ∧ (ok = true → Visits step u ks))

/-- What `next` and `prev` answer and where they leave the cursor, as scans. -/
theorem Scans.of_next (hg : s.pager.disk.Good) (hv : s.self.config.Valid)
    (hT : Planted s.pager.disk s.self t)
    (h : Returns next s (fun ok u => u.pager.disk = s.pager.disk ∧
      ∃ st, u.self = { s.self with cursor := st } ∧ ((ok = false ∧ st = [] ∧ B = []) ∨
        ∃ w B', ok = true ∧ B = w :: B' ∧ Between u.self t A w B'))) :
    Scans next s (B.map LeafCell.key) := by
  refine h.mono ?_
  rintro ok u ⟨hd, st, hu, ⟨rfl, -, rfl⟩ | ⟨w, B', rfl, rfl, hw⟩⟩
  · simp
  · have hT' : Planted u.pager.disk u.self t := by
      rw [hd, hu]
      exact hT.setCursor st
    exact ⟨by simp, fun _ => hw.visits_next (hd ▸ hg) (by rw [hu]; exact hv) hT'⟩

theorem Between.scans_prev (hg : s.pager.disk.Good) (hv : s.self.config.Valid)
    (hT : Planted s.pager.disk s.self t) (h : Between s.self t A v B) :
    Scans prev s (A.map LeafCell.key).reverse := by
  refine (prev_runs hg hv hT h s rfl rfl).mono ?_
  rintro ok u ⟨hd, st, hu, ⟨rfl, -, rfl⟩ | ⟨A', w, rfl, rfl, hw⟩⟩
  · simp
  · have hT' : Planted u.pager.disk u.self t := by
      rw [hd, hu]
      exact hT.setCursor st
    exact ⟨by simp, fun _ => hw.visits_prev (hd ▸ hg) (by rw [hu]; exact hv) hT'⟩

variable {c : BTreeCtx n 0} {l : BTreeLeaf} {lo : List LeafCell}

/-- Past the last cell of its leaf a cursor scans on without assertions, as from between the last
cell and what comes after it. -/
theorem scans_behind (hnd : Build.ndebug = true) (hg : s.pager.disk.Good) (hv : s.self.config.Valid)
    (hT : Planted s.pager.disk s.self (c.plug l)) (hne : l.cells ≠ [])
    (hcur : s.self.cursor = (l.id, l.cells.length) :: c.path) :
    Scans next s ((entries c.spineR).map LeafCell.key) ∧
      Scans prev s ((entries c.spineL ++ l.cells).map LeafCell.key).reverse := by
  obtain ⟨lo, v, hl⟩ := (List.eq_nil_or_concat' l.cells).resolve_left hne
  have hlast : pred64 l.cells.length = lo.length := by
    rw [pred64_eq (List.length_pos_iff.mpr hne) (hT.leaf_length_le hv), hl]
    simp
  -- the cursor one cell back
  let cur : BTreeCursor := { s.self with cursor := (l.id, lo.length) :: c.path }
  have hback : Between cur (c.plug l) (entries c.spineL ++ lo) v (entries c.spineR) :=
    ⟨c, l.id, lo, [], by rw [← hl], rfl, rfl, rfl⟩
  have hself : s.self = { cur with cursor := (l.id, l.cells.length) :: c.path } := by
    rw [← hcur]
  have hTcur := hT.setCursor ((l.id, lo.length) :: c.path)
  constructor
  · refine Scans.of_next hg hv hT (A := entries c.spineL ++ lo ++ [v]) ?_
    exact next_behind hnd hTcur (by rw [hlast, hl]; simp) (by rw [hlast]; exact lt_irrefl _)
      (next_runs hg hv hTcur hback) s rfl hself
  · have hlen : l.cells.length = lo.length + 1 := by
      rw [hl]
      simp
    rw [hlen] at hself
    obtain ⟨_, u, hrun, rfl, hd, hu⟩ := prev_behind hnd hTcur s rfl hself
    refine ⟨true, u, hrun, by simp [hl], fun _ => ?_⟩
    have hback' : Between u.self (c.plug l) (entries c.spineL ++ lo) v (entries c.spineR) := by
      rw [hu]
      exact hback
    rw [hl, ← List.append_assoc]
    refine hback'.visits_prev (hd ▸ hg) (by rw [hu]; exact hv) ?_
    rw [hd, hu]
    exact hTcur

/-- There it is refused wherever something is checked. -/
theorem refuses_behind (hg : s.pager.disk.Good) (hT : Planted s.pager.disk s.self (c.plug l))
    (hcur : s.self.cursor = (l.id, l.cells.length) :: c.path) (hoff : ¬ OnCell s) :
    Raises currentKey s (fun e _ =>
      e = .runtimeError "[btree:current_key]: Cell index out of range") ∧
      (Build.ndebug = false → Raises next s (fun e _ => e = .assertion) ∧
        Raises prev s (fun e _ => e = .assertion)) := by
  have hplaced : Placed s.self (c.plug l) := .inr ⟨c, l, _, rfl, hcur⟩
  refine ⟨currentKey_refuses hT hcur le_rfl s rfl rfl, fun hb => ?_⟩
  have hnext := @Move.run_aborts _ _ s _ .next hb hg hT (.inr hplaced) hoff s rfl rfl
  have hprev := @Move.run_aborts _ _ s _ .prev hb hg hT (.inr hplaced) hoff s rfl rfl
  exact ⟨hnext, hprev⟩

/-- After `move_to_key`, found or not, `next` reads the keys from the target on in order and `prev`
those before it in reverse, from wherever the cursor is on a cell. Where the search ran off its leaf
`current_key` throws, assertions stop either scan, and without them both go on as if it had not. -/
theorem moveToKey_scans (hg : s.pager.disk.Good) (hv : s.self.config.Valid)
    (hw : WellFormed s.pager.disk s.self t) (hne : storedKeys t ≠ []) :
    Returns (moveToKey k) s (fun found u => (found = true ↔ k ∈ storedKeys t) ∧
      (found = true → OnCell u) ∧
      (OnCell u → Visits next u (keysFrom t k) ∧ Scans prev u (keysBelow t k).reverse) ∧
      (¬ OnCell u →
        Raises currentKey u (fun e _ =>
          e = .runtimeError "[btree:current_key]: Cell index out of range") ∧
        (Build.ndebug = false → Raises next u (fun e _ => e = .assertion) ∧
          Raises prev u (fun e _ => e = .assertion)) ∧
        (Build.ndebug = true →
          Scans next u (keysFrom t k) ∧ Scans prev u (keysBelow t k).reverse))) := by
  have hT := wellFormed_iff.mp hw
  refine (moveToKey_runs (k := k) hg hT s rfl rfl).mono ?_
  rintro found u ⟨hd, c, l, i, harr⟩
  have hfound := harr.found_iff hT
  obtain ⟨lo, hi, hl, rfl, hlo, hhi⟩ := harr.cut hT
  have hon : found = true → StandsOn u.self t k := by
    rintro rfl
    exact harr.standsOn hT
  obtain ⟨rfl, hloc, -, hcur⟩ := harr
  obtain ⟨p, cells⟩ := l
  change cells = lo ++ hi at hl
  subst hl
  obtain ⟨hbelow, hfrom⟩ := hloc.keys (p := p) hlo hhi
  have hgu : u.pager.disk.Good := hd ▸ hg
  have hvu : u.self.config.Valid := by
    rw [hcur]
    exact hv
  have hTu : Planted u.pager.disk u.self (c.plug ⟨p, lo ++ hi⟩) := by
    rw [hd, hcur]
    exact hT.setCursor _
  rw [hbelow, hfrom]
  refine ⟨by rw [hfound, storedKeys, List.mem_map], fun hf => ?_, ?_, ?_⟩
  · obtain ⟨A, v, B, -, hbet⟩ := (hon hf).between
    exact hbet.onCell hTu
  · rintro ⟨q, j, rest, cells, a, b, hstack, hpage, hj⟩
    rw [hcur] at hstack
    cases hstack
    have hleaf := hTu.leaf_page
    rw [hpage] at hleaf
    cases hleaf
    cases hi with
    | nil => simp at hj
    | cons v hi =>
      have hbet : Between u.self (c.plug ⟨p, lo ++ v :: hi⟩) (entries c.spineL ++ lo) v
          (hi ++ entries c.spineR) := ⟨c, p, lo, hi, rfl, by rw [hcur], rfl, rfl⟩
      exact ⟨hbet.visits_next hgu hvu hTu, hbet.scans_prev hgu hvu hTu⟩
  · intro hoff
    have hnil : hi = [] := by
      rcases hi with _ | ⟨v, hi⟩
      · rfl
      · exact absurd ⟨p, lo.length, c.path, _, _, _, by rw [hcur], hTu.leaf_page, by simp⟩ hoff
    subst hnil
    have hcells : lo ++ [] ≠ [] := hTu.leaf_nonempty hvu (by
      intro h
      exact hne (by rw [storedKeys, h]; rfl))
    have hend : u.self.cursor = (p, (lo ++ []).length) :: c.path := by
      rw [hcur]
      simp
    obtain ⟨hkey, haborts⟩ := refuses_behind hgu hTu hend hoff
    refine ⟨hkey, haborts, fun hnd => ?_⟩
    simpa using scans_behind hnd hgu hvu hTu hcells hend

end Scan

theorem moveToKey_scans_narrow :
    letI : Build := ⟨false⟩
    Returns (moveToKey 2) narrowState (fun found u => found = true ∧ Visits next u [2] ∧
      Scans prev u [1]) := by
  let _ : Build := ⟨false⟩
  refine (moveToKey_scans (k := 2) narrow_good narrow_valid narrow_wellFormed (by decide)).mono ?_
  rintro found u ⟨hfound, hon, hscan, -⟩
  have hf : found = true := hfound.mpr (by decide)
  exact ⟨hf, hscan (hon hf)⟩

end Cpplite
