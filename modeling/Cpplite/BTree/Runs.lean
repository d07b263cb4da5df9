import Cpplite.BTree.Update
import Cpplite.Pager.OverflowSpec

/-!
Running a cursor's methods on the logical file.

A method is judged from the file and the cursor it starts with, by the value it returns
and the file and cursor it leaves; the rules below execute it one statement at a time.
-/
namespace Cpplite

open Exec Search

section

variable {α β : Type}

/-- From every state with this file and cursor the program returns, and `Q` holds at the end. -/
def Runs (x : BTreeM α) (d : Disk) (c : BTreeCursor) (Q : α → Disk → BTreeCursor → Prop) : Prop :=
  ∀ s : BTreeState, s.pager.disk = d → s.self = c →
    Returns x s (fun a t => Q a t.pager.disk t.self)

/-- From every state with this file and cursor the program raises, and `R` holds at that point. -/
def Fails (x : BTreeM α) (d : Disk) (c : BTreeCursor) (R : Error → Disk → BTreeCursor → Prop) :
    Prop :=
  ∀ s : BTreeState, s.pager.disk = d → s.self = c →
    Raises x s (fun e t => R e t.pager.disk t.self)

/-- The program fails an assertion. -/
abbrev Aborts (x : BTreeM α) (d : Disk) (c : BTreeCursor) : Prop :=
  Fails x d c (fun e _ _ => e = .assertion)

variable {x : BTreeM α} {f : α → BTreeM β} {y : PagerM α} {a : α} {d d' : Disk} {c c' : BTreeCursor}
  {P P' : α → Disk → BTreeCursor → Prop} {Q : β → Disk → BTreeCursor → Prop}
  {R : Error → Disk → BTreeCursor → Prop} {e : Error}

theorem Runs.mono (h : Runs x d c P) (hi : ∀ a d' c', P a d' c' → P' a d' c') : Runs x d c P' :=
  fun s hd hc => (h s hd hc).mono (fun a _ => hi a _ _)

theorem Runs.pure (h : P a d c) : Runs (Pure.pure a) d c P := by
  intro s hd hc
  subst hd hc
  exact returns_pure.mpr h

theorem Runs.bind (hx : Runs x d c P) (hf : ∀ a d' c', P a d' c' → Runs (f a) d' c' Q) :
    Runs (x >>= f) d c Q :=
  fun s hd hc => (hx s hd hc).bind (fun a t ha => hf a _ _ ha t rfl rfl)

theorem Fails.bind (hx : Runs x d c P) (hf : ∀ a d' c', P a d' c' → Fails (f a) d' c' R) :
    Fails (x >>= f) d c R :=
  fun s hd hc => Raises.bind (hx s hd hc) (fun a t ha => hf a _ _ ha t rfl rfl)

theorem Fails.bind_left (hx : Fails x d c R) : Fails (x >>= f) d c R :=
  fun s hd hc => (hx s hd hc).bind_left

theorem fails_throw (h : R e d c) : Fails (throw e : BTreeM α) d c R := by
  intro s hd hc
  subst hd hc
  exact raises_throw.mpr h

/-- The program returns `a` and leaves this file and cursor. -/
def Steps (x : BTreeM α) (d : Disk) (c : BTreeCursor) (a : α) (d' : Disk) (c' : BTreeCursor) :
    Prop :=
  Runs x d c (fun b e k => b = a ∧ e = d' ∧ k = c')

theorem Steps.then (hx : Steps x d c a d' c') (hf : Runs (f a) d' c' Q) :
    Runs (x >>= f) d c Q :=
  Runs.bind hx (by rintro b e k ⟨rfl, rfl, rfl⟩; exact hf)

theorem Steps.then_fails (hx : Steps x d c a d' c') (hf : Fails (f a) d' c' R) :
    Fails (x >>= f) d c R :=
  Fails.bind hx (by rintro b e k ⟨rfl, rfl, rfl⟩; exact hf)

theorem Steps.of_eq (h : ∀ s : BTreeState, s.pager.disk = d → s.self = c → x s = .ok a s) :
    Steps x d c a d c := by
  intro s hd hc
  exact (returns_of_eq (h s hd hc)).mpr ⟨rfl, hd, hc⟩

theorem steps_pure : Steps (Pure.pure a) d c a d c := Runs.pure ⟨rfl, rfl, rfl⟩

theorem liftM_ok {s : BTreeState} {t : Pager} (h : y s.pager = .ok a t) :
    (liftM y : BTreeM α) s = .ok a { s with pager := t } := by
  change onPager y s = _
  exact zoom_ok h

theorem steps_lift (h : ∀ s : Pager, s.disk = d → Yields y s a d') :
    Steps (liftM y) d c a d' c := by
  intro s hd hc
  obtain ⟨b, t, hy, rfl, ht⟩ := h s.pager hd
  exact ⟨b, { s with pager := t }, liftM_ok hy, rfl, ht, hc⟩

theorem steps_read (h : ∀ s : Pager, s.disk = d → y s = .ok a s) :
    Steps (liftM y) d c a d c :=
  steps_lift (fun s hs => (returns_of_eq (h s hs)).mpr ⟨rfl, hs⟩)

theorem runs_lift {R : α → Disk → Prop}
    (h : ∀ s : Pager, s.disk = d → Returns y s (fun a t => R a t.disk)) :
    Runs (liftM y) d c (fun a d' c' => R a d' ∧ c' = c) := by
  intro s hd hc
  obtain ⟨b, t, hy, ht⟩ := h s.pager hd
  exact ⟨b, { s with pager := t }, liftM_ok hy, ht, hc⟩

theorem fails_lift (h : ∀ s : Pager, s.disk = d → Raises y s (fun b t => b = e ∧ t = s))
    (hr : R e d c) : Fails (liftM y) d c R := by
  intro s hd hc
  subst hd hc
  obtain ⟨_, _, hy, rfl, rfl⟩ := h s.pager rfl
  refine ⟨_, s, ?_, hr⟩
  change onPager y s = _
  exact zoom_error hy

theorem steps_getSelf : Steps getSelf d c c d c :=
  Steps.of_eq (by rintro s - rfl; rfl)

theorem steps_setCursor {st : BTreeCursorStack} :
    Steps (setCursor st) d c () d { c with cursor := st } := by
  intro s hd hc
  subst hd hc
  exact ⟨_, _, rfl, rfl, rfl, rfl⟩

theorem steps_setRootPgno {p : Nat} :
    Steps (setRootPgno p) d c () d { c with rootPgno := p } := by
  intro s hd hc
  subst hd hc
  exact ⟨_, _, rfl, rfl, rfl, rfl⟩

theorem steps_index {v : List α} {i : Nat} (h : v[i]? = some a) : Steps (index v i) d c a d c :=
  Steps.of_eq (fun _ _ _ => index_ok h)

theorem steps_topOf {n : BTreeCursorNode} {rest : BTreeCursorStack} :
    Steps (topOf (n :: rest)) d c n d c :=
  steps_pure

theorem steps_walkFuel : Steps walkFuel d c (d.size + 1) d c :=
  Steps.of_eq (by rintro s rfl -; rfl)

theorem Runs.ite_pos {p : Prop} [Decidable p] {y : BTreeM α} (h : p) (hx : Runs x d c P) :
    Runs (if p then x else y) d c P := by
  rw [if_pos h]
  exact hx

theorem Runs.ite_neg {p : Prop} [Decidable p] {y : BTreeM α} (h : ¬ p) (hx : Runs x d c P) :
    Runs (if p then y else x) d c P := by
  rw [if_neg h]
  exact hx

theorem Fails.ite_pos {p : Prop} [Decidable p] {y : BTreeM α} (h : p) (hx : Fails x d c R) :
    Fails (if p then x else y) d c R := by
  rw [if_pos h]
  exact hx

theorem Fails.ite_neg {p : Prop} [Decidable p] {y : BTreeM α} (h : ¬ p) (hx : Fails x d c R) :
    Fails (if p then y else x) d c R := by
  rw [if_neg h]
  exact hx

theorem Runs.when {p : Prop} [Decidable p] {z : BTreeM Unit}
    {R : Unit → Disk → BTreeCursor → Prop} (ht : p → Runs z d c R) (hf : ¬ p → R () d c) :
    Runs (when p z) d c R := by
  unfold Cpplite.when
  split
  · exact ht ‹_›
  · exact Runs.pure (hf ‹_›)

variable [Build]

theorem steps_assert {p : Prop} [Decidable p] (h : Build.ndebug = true ∨ p) :
    Steps (assert p) d c () d c :=
  Steps.of_eq (fun _ _ _ => assert_ok h)

theorem aborts_assert {p : Prop} [Decidable p] (hb : Build.ndebug = false) (h : ¬ p) :
    Aborts (assert p) d c :=
  fun s _ _ => ⟨_, s, assert_fails hb h, rfl⟩

end

section Pages

variable {d : Disk} {c : BTreeCursor} {p prev next : Nat} {cells : List NodeCell} {r : Nat}
  {leafCells : List LeafCell} [Build]

theorem steps_loadNode (h : d.page p = .node cells r) :
    Steps (liftM (NodePageManager.load p)) d c (nodeManager p cells r) d c :=
  steps_read (by rintro s rfl; exact NodePageManager.load_ok h)

theorem steps_loadLeaf (h : d.page p = .leaf leafCells prev next) :
    Steps (liftM (LeafPageManager.load p)) d c (leafManager p leafCells prev next) d c :=
  steps_read (by rintro s rfl; exact LeafPageManager.load_ok h)

theorem steps_getPageType {ty : PagerPageType} (h : (d.page p).type? = some ty) :
    Steps (liftM (getPageType p)) d c ty d c :=
  steps_read (by rintro s rfl; exact getPageType_ok h)

theorem steps_assertPageType {ty : PagerPageType} (h : (d.page p).type? = some ty) :
    Steps (liftM (assertPageType p ty)) d c () d c :=
  steps_read (by rintro s rfl; exact assertPageType_ok h)

variable {lo hi : List NodeCell} {k k' : DefaultPagerKey} {x x' : Nat}

theorem steps_insertNodeCell (h : d.page p = .node (lo ++ hi) r) (hlo : ∀ a ∈ lo, a.key < k)
    (hhi : ∀ b ∈ hi, k < b.key) (hm : (lo ++ hi).length < nodeMaxCells) :
    Steps (liftM ((nodeManager p (lo ++ hi) r).insertNodeCell k)) d c
      (true, nodeManager p (lo ++ ⟨k, nullPage⟩ :: hi) r)
      (d.set p (.node (lo ++ ⟨k, nullPage⟩ :: hi) r)) c :=
  steps_lift (by rintro s rfl; exact insertNodeCell_yields h hlo hhi hm)

theorem steps_setCellLeftChild {y : Nat} (h : d.page p = .node (lo ++ ⟨k, x⟩ :: hi) r)
    (hlo : ∀ a ∈ lo, a.key < k) (hhi : ∀ b ∈ hi, k < b.key) :
    Steps (liftM ((nodeManager p (lo ++ ⟨k, x⟩ :: hi) r).setCellLeftChild k y)) d c
      (nodeManager p (lo ++ ⟨k, y⟩ :: hi) r) (d.set p (.node (lo ++ ⟨k, y⟩ :: hi) r)) c :=
  steps_lift (by rintro s rfl; exact setCellLeftChild_yields h hlo hhi)

omit [Build] in
theorem steps_setNodeRightChild (h : d.page p = .node cells r) :
    Steps (liftM ((nodeManager p cells r).setNodeRightChild x)) d c (nodeManager p cells x)
      (d.set p (.node cells x)) c :=
  steps_lift (by rintro s rfl; exact setNodeRightChild_yields h)

theorem steps_deleteNodeCell (h : d.page p = .node (lo ++ ⟨k, x⟩ :: hi) r)
    (hlo : ∀ a ∈ lo, a.key < k) (hhi : ∀ b ∈ hi, k < b.key) :
    Steps (liftM ((nodeManager p (lo ++ ⟨k, x⟩ :: hi) r).deleteNodeCell k)) d c
      (nodeManager p (lo ++ hi) r) (d.set p (.node (lo ++ hi) r)) c :=
  steps_lift (by rintro s rfl; exact deleteNodeCell_yields h hlo hhi)

theorem steps_updateCellKey (h : d.page p = .node (lo ++ ⟨k, x⟩ :: hi) r)
    (hlo : ∀ a ∈ lo, a.key < k) (hhi : ∀ b ∈ hi, k < b.key) :
    Steps (liftM ((nodeManager p (lo ++ ⟨k, x⟩ :: hi) r).updateCellKey k k')) d c
      (nodeManager p (lo ++ ⟨k', x⟩ :: hi) r) (d.set p (.node (lo ++ ⟨k', x⟩ :: hi) r)) c :=
  steps_lift (by rintro s rfl; exact updateCellKey_yields h hlo hhi)

theorem steps_insertWithChild (h : d.page p = .node (lo ++ hi) r) (hlo : ∀ a ∈ lo, a.key < k)
    (hhi : ∀ b ∈ hi, k < b.key) (hm : (lo ++ hi).length < nodeMaxCells) :
    Steps (insertWithChild (nodeManager p (lo ++ hi) r) k x) d c
      (nodeManager p (lo ++ ⟨k, x⟩ :: hi) r) (d.set p (.node (lo ++ ⟨k, x⟩ :: hi) r)) c := by
  refine (steps_insertNodeCell h hlo hhi hm).then ?_
  have hset := steps_setCellLeftChild (c := c) (x := nullPage) (y := x)
    (d := d.set p (.node (lo ++ ⟨k, nullPage⟩ :: hi) r)) (p := p) (r := r) (by simp) hlo hhi
  rw [Disk.set_set] at hset
  exact hset

variable {ls rs : List LeafCell} {v : LeafCell} {q : Nat}

theorem steps_writeCell (h : d.page p = .leaf (ls ++ rs) prev next)
    (hlo : ∀ a ∈ ls, a.key < v.key) (hhi : ∀ b ∈ rs, v.key < b.key)
    (hm : (ls ++ rs).length < leafMaxCells) :
    Steps (liftM ((leafManager p (ls ++ rs) prev next).writeCell v)) d c
      (true, leafManager p (ls ++ v :: rs) prev next)
      (d.set p (.leaf (ls ++ v :: rs) prev next)) c :=
  steps_lift (by rintro s rfl; exact writeCell_yields h hlo hhi hm)

theorem steps_deleteCell (h : d.page p = .leaf (ls ++ v :: rs) prev next)
    (hlo : ∀ a ∈ ls, a.key < v.key) (hhi : ∀ b ∈ rs, v.key < b.key) :
    Steps (liftM ((leafManager p (ls ++ v :: rs) prev next).deleteCell v.key)) d c
      (leafManager p (ls ++ rs) prev next) (d.set p (.leaf (ls ++ rs) prev next)) c :=
  steps_lift (by rintro s rfl; exact deleteCell_yields h hlo hhi)

omit [Build] in
theorem steps_setPrevPage (h : d.page p = .leaf leafCells prev next) :
    Steps (liftM ((leafManager p leafCells prev next).setPrevPage q)) d c
      (leafManager p leafCells q next) (d.set p (.leaf leafCells q next)) c :=
  steps_lift (by rintro s rfl; exact setPrevPage_yields h)

omit [Build] in
theorem steps_setNextPage (h : d.page p = .leaf leafCells prev next) :
    Steps (liftM ((leafManager p leafCells prev next).setNextPage q)) d c
      (leafManager p leafCells prev q) (d.set p (.leaf leafCells prev q)) c :=
  steps_lift (by rintro s rfl; exact setNextPage_yields h)

variable {hd : PagerFirstPageHeader}

theorem steps_createLeafPage (hs : d.Sound) (h : d.page 1 = .first hd) :
    Steps (liftM (createPage .leafPage)) d c (d.total + 1)
      (d.create (.leaf [] nullPage nullPage) hd) c :=
  steps_lift (by rintro s rfl; exact createLeafPage_yields hs h)

theorem steps_createNodePage (hs : d.Sound) (h : d.page 1 = .first hd) :
    Steps (liftM (createPage .nodePage)) d c (d.total + 1) (d.create (.node [] nullPage) hd) c :=
  steps_lift (by rintro s rfl; exact createNodePage_yields hs h)

theorem steps_insertFreelist (h : d.page 1 = .first hd) (h1 : p ≠ 1) (hp : d.page p ≠ .none) :
    Steps (liftM (insertFreelist p)) d c ()
      ((d.set 1 (.first { hd with freePageHead := p })).set p (.free hd.freePageHead)) c :=
  steps_lift (by
    rintro s rfl
    exact insertFreelist_yields h h1 (disk_page_ne_zero hp) (disk_page_le hp))

end Pages

end Cpplite
