import Cpplite.BufferPool.Frames

/-!
What the evictor of a pool is told of the accesses to its pages.

`insert_frame`, the hit path and the guard each record an access: a page that `new_page` makes is
seen once, and one that `read_page` or `write_page` hands out is seen twice.
-/
namespace Cpplite

open Exec

namespace Traced

variable {E : Type} [Evictor E] {e : Traced E} {f g : Nat} {b : Bool}

/-- The calls of `record_access` for a frame. -/
def accesses (e : Traced E) (f : Nat) : Nat := e.calls.count (.recordAccess f)

theorem accesses_recordAccess :
    accesses (Evictor.recordAccess e f) g = accesses e g + if g = f then 1 else 0 := by
  simp [accesses, Evictor.recordAccess, List.count_append, List.count_singleton, @eq_comm _ f g]

theorem accesses_setEvictable : accesses (Evictor.setEvictable e f b) g = accesses e g := by
  simp [accesses, Evictor.setEvictable, List.count_append]

theorem accesses_evict : accesses (Evictor.evict e).2 g = accesses e g := by
  simp [accesses, Evictor.evict, List.count_append]

end Traced

namespace PoolSession

open BufferPoolManager

/-! ### Calls counted in a run -/

def Op.isNewPage : Op → Bool
  | .newPage _ => true
  | _ => false

def Op.isGetPage : Op → Bool
  | .getPage _ _ => true
  | _ => false

/-- How often a page was made. -/
def news (past : List (Op × Option PageKey)) (pgkey : PageKey) : Nat :=
  past.countP fun e => e.1.isNewPage && e.2 == some pgkey

/-- How often a valid guard for a page was handed out. -/
def uses (past : List (Op × Option PageKey)) (pgkey : PageKey) : Nat :=
  past.countP fun e => e.1.isGetPage && e.2 == some pgkey

/-- What the evictor sees of them. -/
def seen (past : List (Op × Option PageKey)) (pgkey : PageKey) : Nat :=
  news past pgkey + 2 * uses past pgkey

section Counts

variable {past : List (Op × Option PageKey)} {pgkey pgkey' : PageKey} {op : Op} {tblId : Nat}
  {kind : GuardKind} {a : Option PageKey}

theorem seen_none : seen ((op, none) :: past) pgkey = seen past pgkey := by
  simp [seen, news, uses]

theorem seen_newPage : seen ((.newPage tblId, some pgkey) :: past) pgkey' =
    seen past pgkey' + if pgkey' = pgkey then 1 else 0 := by
  by_cases hkey : pgkey' = pgkey
  · subst hkey
    simp [seen, news, uses, Op.isNewPage, Op.isGetPage]
    omega
  · have hkey' : ¬ pgkey = pgkey' := fun h => hkey h.symm
    simp [seen, news, uses, hkey, hkey']

theorem seen_getPage : seen ((.getPage kind pgkey, some pgkey) :: past) pgkey' =
    seen past pgkey' + if pgkey' = pgkey then 2 else 0 := by
  by_cases hkey : pgkey' = pgkey
  · subst hkey
    simp [seen, news, uses, Op.isNewPage, Op.isGetPage]
    omega
  · have hkey' : ¬ pgkey = pgkey' := fun h => hkey h.symm
    simp [seen, news, uses, hkey, hkey']

theorem uses_eq_zero_of_cons (h : uses ((op, a) :: past) pgkey = 0) : uses past pgkey = 0 := by
  simp only [uses, List.countP_cons] at h ⊢
  omega

end Counts

/-! ### What the evictor sees -/

section Recorded

variable {E : Type} {past past' : List (Op × Option PageKey)} {s : PoolSession (Traced E)}
  {p : BufferPoolManager (Traced E)} {vars : GuardVars} {pgkey : PageKey} {f n : Nat}
  {rest : List Nat}

/-- What was recorded for the frames, by the calls made for their pages. -/
structure Recorded (past : List (Op × Option PageKey)) (s : PoolSession (Traced E)) : Prop where
  mapped : ∀ pgkey f, s.pool.frameTable.lookup pgkey = some f →
    s.pool.shared.evictor.accesses f = seen past pgkey
  free : ∀ f ∈ s.pool.freeList, s.pool.shared.evictor.accesses f = 0
  unmapped : ∀ pgkey, s.pool.frameTable.lookup pgkey = none → seen past pgkey = 0

/-- Nothing is recorded. -/
theorem Recorded.same (h : Recorded past s) (htable : p.frameTable = s.pool.frameTable)
    (hfree : p.freeList = s.pool.freeList)
    (hacc : ∀ g, p.shared.evictor.accesses g = s.pool.shared.evictor.accesses g)
    (hseen : ∀ pgkey, seen past' pgkey = seen past pgkey) : Recorded past' ⟨p, vars⟩ := by
  refine ⟨fun pgkey f hmap => ?_, fun f hf => ?_, fun pgkey hmap => ?_⟩
  · rw [hacc, hseen]
    exact h.mapped pgkey f (htable ▸ hmap)
  · rw [hacc]
    exact h.free f (hfree ▸ hf)
  · rw [hseen]
    exact h.unmapped pgkey (htable ▸ hmap)

/-- A page in the pool is used. -/
theorem Recorded.hit (h : Recorded past s) (hs : Settled s)
    (hmap : s.pool.frameTable.lookup pgkey = some f) (htable : p.frameTable = s.pool.frameTable)
    (hfree : p.freeList = s.pool.freeList)
    (hacc : ∀ g, p.shared.evictor.accesses g =
      s.pool.shared.evictor.accesses g + if g = f then n else 0)
    (hseen : ∀ key, seen past' key = seen past key + if key = pgkey then n else 0) :
    Recorded past' ⟨p, vars⟩ := by
  refine ⟨fun key g hkey => ?_, fun g hg => ?_, fun key hkey => ?_⟩
  · have hkey' : s.pool.frameTable.lookup key = some g := htable ▸ hkey
    have hiff : g = f ↔ key = pgkey := by
      constructor
      · rintro rfl
        exact hs.partitioned.injective hkey' hmap
      · rintro rfl
        rw [hmap, Option.some_inj] at hkey'
        exact hkey'.symm
    simp only [hacc, hseen, h.mapped key g hkey', hiff]
  · have hg' : g ∈ s.pool.freeList := hfree ▸ hg
    have hne : g ≠ f := by
      rintro rfl
      exact hs.partitioned.not_free hmap hg'
    rw [hacc, if_neg hne, h.free g hg']
  · have hkey' : s.pool.frameTable.lookup key = none := htable ▸ hkey
    have hne : key ≠ pgkey := by
      rintro rfl
      rw [hmap] at hkey'
      cases hkey'
    rw [hseen, if_neg hne, h.unmapped key hkey']

/-- A page comes into the pool. -/
theorem Recorded.loaded (h : Recorded past s) (hs : Settled s)
    (hmap : s.pool.frameTable.lookup pgkey = none) (hfree : s.pool.freeList = f :: rest)
    (htable : p.frameTable = s.pool.frameTable.insert pgkey f) (hrest : p.freeList = rest)
    (hacc : ∀ g, p.shared.evictor.accesses g =
      s.pool.shared.evictor.accesses g + if g = f then n else 0)
    (hseen : ∀ key, seen past' key = seen past key + if key = pgkey then n else 0) :
    Recorded past' ⟨p, vars⟩ := by
  have hf : f ∈ s.pool.freeList := by
    rw [hfree]
    exact List.mem_cons_self
  have hnodup := (List.nodup_append.mp hs.partitioned.nodup).1
  rw [hfree, List.nodup_cons] at hnodup
  refine ⟨fun key g hkey => ?_, fun g hg => ?_, fun key hkey => ?_⟩
  · simp only [htable] at hkey
    by_cases hne : key = pgkey
    · subst hne
      rw [AList.lookup_insert, Option.some_inj] at hkey
      subst hkey
      rw [hacc, hseen, if_pos rfl, if_pos rfl, h.free f hf, h.unmapped key hmap]
    · rw [AList.lookup_insert_ne hne] at hkey
      have hg : g ≠ f := by
        rintro rfl
        exact hs.partitioned.not_free hkey hf
      rw [hacc, hseen, if_neg hg, if_neg hne, h.mapped key g hkey]
  · have hg' : g ∈ rest := hrest ▸ hg
    have hne : g ≠ f := by
      rintro rfl
      exact hnodup.1 hg'
    rw [hacc, if_neg hne, h.free g (by rw [hfree]; exact List.mem_cons_of_mem f hg')]
  · simp only [htable] at hkey
    have hne : key ≠ pgkey := by
      rintro rfl
      simp at hkey
    rw [AList.lookup_insert_ne hne] at hkey
    rw [hseen, if_neg hne, h.unmapped key hkey]

section Steps

variable {E : Type} [Evictor E] [Build] {past : List (Op × Option PageKey)}
  {s t : PoolSession (Traced E)} {op : Op} {a : Option PageKey} {kind : GuardKind} {f : Nat}

omit [Build] in
theorem accesses_loaded {p : BufferPoolManager (Traced E)} {pgkey : PageKey} {rest : List Nat}
    {buffer : List Byte} {eng : StorageEngine} (g : Nat) :
    (p.loaded pgkey f rest buffer eng).shared.evictor.accesses g =
      p.shared.evictor.accesses g + if g = f then 1 else 0 := by
  rw [BufferPoolManager.loaded, Traced.accesses_setEvictable, Traced.accesses_recordAccess]

omit [Build] in
theorem accesses_acquired {sh : Shared (Traced E)} (g : Nat) :
    (sh.acquired kind f).evictor.accesses g = sh.evictor.accesses g + if g = f then 1 else 0 :=
  Traced.accesses_recordAccess

omit [Build] in
theorem accesses_released {sh : Shared (Traced E)} (g : Nat) :
    (sh.released kind f).evictor.accesses g = sh.evictor.accesses g := by
  simp only [Shared.released]
  split
  · exact Traced.accesses_setEvictable
  · rfl

theorem Recorded.made {tblId : Nat} {p : BufferPoolManager (Traced E)} (h : Recorded past s)
    (hs : Settled s) (hlatch : s.pool.shared.bpmLatch = false) (hok : Unforced s (.newPage tblId))
    (hmade : MadePage s.pool tblId a p) : Recorded ((.newPage tblId, a) :: past) ⟨p, s.vars⟩ := by
  cases hmade with
  | made s' pgkey f rest buffer eng₁ eng₂ hens hcount halloc hread hfree hf hlen =>
    obtain rfl := hens.eq_of_not_yields fun hy => hok.1 ⟨trivial, hy⟩
    exact h.loaded hs (hs.new_unmapped hlatch (hok.2 _ rfl) halloc) hfree rfl rfl accesses_loaded
      fun key => seen_newPage
  | refused hr => exact h.same rfl rfl (fun g => Traced.accesses_evict) fun key => seen_none

theorem Recorded.got {pgkey : PageKey} {g : PageGuard kind} {p : BufferPoolManager (Traced E)}
    (h : Recorded past s) (hs : Settled s) (hok : Unforced s (.getPage kind pgkey))
    (hgot : GotPage s.pool kind pgkey g p) :
    Recorded ((.getPage kind pgkey, if g.isValid then some pgkey else none) :: past)
      ⟨p, s.vars.declare g⟩ := by
  cases hgot with
  | hit f hmap hf hfree =>
    refine h.hit hs hmap rfl rfl (fun x => (accesses_acquired x).trans ?_) fun key => seen_getPage
    rw [touched, Traced.accesses_setEvictable, Traced.accesses_recordAccess]
    split <;> rfl
  | load s' f rest buffer eng hmap hens hread hfree hf hlen hlatch =>
    obtain rfl := hens.eq_of_not_yields fun hy => hok.1 ⟨hmap, hy⟩
    refine h.loaded hs hmap hfree rfl rfl (fun x => (accesses_acquired x).trans ?_)
      fun key => seen_getPage
    rw [accesses_loaded]
    split <;> rfl
  | refused hmap hr => exact h.same rfl rfl (fun x => Traced.accesses_evict) fun key => seen_none

/-- A call of the claim. -/
def IsCall : Op → Prop
  | .newPage _ | .getPage _ _ | .drop _ _ => True
  | _ => False

theorem Recorded.next (h : Recorded past s) (hs : Settled s) (hok : Unforced s op)
    (hcall : IsCall op) (hnext : Next s op a t) : Recorded ((op, a) :: past) t := by
  rcases next_cases hnext hs.balanced with hstep | ⟨rfl, hthrew⟩
  · cases hstep with
    | made hlatch hmade => exact h.made hs hlatch hok hmade
    | got hlatch hgot => exact h.got hs hok hgot
    | released hlatch hi hval hf => exact h.same rfl rfl accesses_released fun key => seen_none
    | dropped hi hval => exact h.same rfl rfl (fun _ => rfl) fun key => seen_none
    | overwritten hi hf => exact hcall.elim
    | evicted hlatch hev => exact hcall.elim
    | flushed hlatch hlatch' hwb hmap => exact hcall.elim
    | flushedAll hlatch hlatch' hwb => exact hcall.elim
  · have halike := hthrew.same hok
    exact h.same halike.frameTable halike.freeList (fun x => by rw [halike.evictor])
      fun key => seen_none

end Steps

end Recorded

/-! ### Pages that were only made -/

end PoolSession

namespace LRUKEvictor

variable {e : LRUKEvictor} {f : Nat}

/-- No frame can be given up. -/
structure Idle (e : LRUKEvictor) : Prop where
  size : e.evictableSize = 0
  none : ∀ f, ¬ e.Evictable f

theorem Idle.evict (h : e.Idle) : e.evict = (Option.none, e) := by
  rw [LRUKEvictor.evict, if_pos h.size]

theorem Idle.recordAccess (h : e.Idle) : (e.recordAccess f).Idle := by
  have hnode : ¬ ((e.nodeStore f).getD {}).isEvictable = true := by
    cases hf : e.nodeStore f with
    | none => simp
    | some node => exact fun hev => h.none f ⟨node, hf, hev⟩
  simp only [LRUKEvictor.recordAccess, if_neg hnode]
  refine ⟨h.size, ?_⟩
  rintro g ⟨node, hg, hev⟩
  by_cases hgf : g = f
  · subst hgf
    simp only [Function.update_self, Option.some_inj] at hg
    subst hg
    exact hnode hev
  · exact h.none g ⟨node, by simpa [hgf] using hg, hev⟩

theorem Idle.setEvictable (h : e.Idle) : e.setEvictable f false = e := by
  unfold LRUKEvictor.setEvictable
  cases hf : e.nodeStore f with
  | none => rfl
  | some node =>
    have hnode : node.isEvictable = false := by
      simpa using fun hev => h.none f ⟨node, hf, hev⟩
    simp only [hnode, if_true]

end LRUKEvictor

namespace PoolSession

open BufferPoolManager

section Unused

variable [Build] {past : List (Op × Option PageKey)} {s t : PoolSession (Traced LRUKEvictor)} {op : Op}
  {a : Option PageKey}

/-- No guard is valid, and no frame can be given up. -/
structure Unused (s : PoolSession (Traced LRUKEvictor)) : Prop where
  idle : s.pool.shared.evictor.evictor.Idle
  invalid : ∀ kind (g : PageGuard kind), some g ∈ s.vars kind → g.isValid = false

omit [Build] in
theorem uses_pos {kind : GuardKind} {pgkey : PageKey} :
    ¬ ∀ key, uses ((.getPage kind pgkey, some pgkey) :: past) key = 0 := by
  intro h
  have hkey := h pgkey
  simp [uses, Op.isGetPage] at hkey

theorem Unused.next (h : Unused s) (hs : Settled s) (hok : Unforced s op) (hcall : IsCall op)
    (hnext : Next s op a t) (hno : ∀ key, uses ((op, a) :: past) key = 0) : Unused t := by
  rcases next_cases hnext hs.balanced with hstep | ⟨-, hthrew⟩
  · cases hstep with
    | made hlatch hmade =>
      refine ⟨?_, h.invalid⟩
      cases hmade with
      | made s' pgkey f rest buffer eng₁ eng₂ hens hcount halloc hread hfree hf hlen =>
        obtain rfl := hens.eq_of_not_yields fun hy => hok.1 ⟨trivial, hy⟩
        change ((LRUKEvictor.recordAccess _ f).setEvictable f false).Idle
        rw [h.idle.recordAccess.setEvictable]
        exact h.idle.recordAccess
      | refused hr =>
        change (LRUKEvictor.evict _).2.Idle
        rw [h.idle.evict]
        exact h.idle
    | got hlatch hgot =>
      cases hgot with
      | hit f hmap hf hfree => exact absurd hno uses_pos
      | load s' f rest buffer eng hmap hens hread hfree hf hlen hlatch => exact absurd hno uses_pos
      | refused hmap hr =>
        refine ⟨?_, fun kind g hg => ?_⟩
        · change (LRUKEvictor.evict _).2.Idle
          rw [h.idle.evict]
          exact h.idle
        · exact GuardVars.declare_all h.invalid rfl kind g hg
    | released hlatch hi hval hf =>
      rw [h.invalid _ _ (List.mem_of_getElem? hi)] at hval
      cases hval
    | dropped hi hval => exact ⟨h.idle, GuardVars.assign_all h.invalid (by rintro g' ⟨⟩; exact hval)⟩
    | overwritten hi hf => exact hcall.elim
    | evicted hlatch hev => exact hcall.elim
    | flushed hlatch hlatch' hwb hmap => exact hcall.elim
    | flushedAll hlatch hlatch' hwb => exact hcall.elim
  · refine ⟨?_, by rw [hthrew.vars]; exact h.invalid⟩
    rw [(hthrew.same hok).evictor]
    exact h.idle

/-- A step of a run without evictions. -/
def Loading (s : PoolSession (Traced LRUKEvictor)) (op : Op) : Prop := Unforced s op ∧ IsCall op

/-- A pool over an evictor that keeps the calls made to it. -/
def traced (n : Nat) (eng : StorageEngine) : PoolSession (Traced LRUKEvictor) :=
  start (fresh n ⟨{ k := evictorK }, []⟩ eng)

theorem Run.recorded {n : Nat} {eng : StorageEngine} (h : Run Loading (traced n eng) past t) :
    Settled t ∧ Recorded past t := by
  induction h with
  | start =>
    refine ⟨settled_start n _ eng, fun pgkey f hmap => ?_, fun f hf => ?_, fun pgkey hmap => ?_⟩
    · simp [traced, PoolSession.start, fresh, AList.lookup_empty] at hmap
    · simp [traced, PoolSession.start, fresh, Traced.accesses]
    · simp [seen, news, uses]
  | next _ hok hnext ih =>
    exact ⟨ih.1.next hok.1 hnext, ih.2.next ih.1 hok.1 hok.2 hnext⟩

theorem Run.unused {n : Nat} {eng : StorageEngine} (h : Run Loading (traced n eng) past t)
    (hno : ∀ key, uses past key = 0) : Unused t := by
  induction h with
  | start =>
    refine ⟨⟨rfl, ?_⟩, fun kind g hg => ?_⟩
    · rintro f ⟨node, hnode, -⟩
      simp [traced, PoolSession.start, fresh] at hnode
    · simp [traced, PoolSession.start] at hg
  | next hrun hok hnext ih =>
    exact (ih fun key => uses_eq_zero_of_cons (hno key)).next (Run.recorded hrun).1 hok.1 hok.2 hnext hno

/-- The evictor sees each call once, and LRU-2 gives up a page that was asked for once before one
that was asked for twice. -/
structure SeesOnce (past : List (Op × Option PageKey)) (s : PoolSession (Traced LRUKEvictor)) :
    Prop where
  once : ∀ pgkey f, s.pool.frameTable.lookup pgkey = some f →
    s.pool.shared.evictor.accesses f = news past pgkey + uses past pgkey
  chosen : ∀ pgkey f, s.pool.frameTable.lookup pgkey = some f →
    (Evictor.evict s.pool.shared.evictor).1 = some f → 2 ≤ news past pgkey + uses past pgkey →
    ∀ pgkey' f', s.pool.frameTable.lookup pgkey' = some f' →
      s.pool.shared.evictor.evictor.Evictable f' → news past pgkey' + uses past pgkey' ≠ 1

/-- Before any eviction, that is so when no page in the pool was asked for by `read_page` or
`write_page`: `new_page` alone records one access, and they record two each. -/
theorem seesOnce_iff {n : Nat} {eng : StorageEngine} (h : Run Loading (traced n eng) past t) :
    SeesOnce past t ↔ ∀ pgkey f, t.pool.frameTable.lookup pgkey = some f → uses past pgkey = 0 := by
  obtain ⟨-, hrec⟩ := h.recorded
  constructor
  · intro hsees pgkey f hmap
    have honce := hsees.once pgkey f hmap
    rw [hrec.mapped pgkey f hmap, seen] at honce
    omega
  · intro hno
    have hnone : ∀ pgkey, uses past pgkey = 0 := by
      intro pgkey
      cases hmap : t.pool.frameTable.lookup pgkey with
      | some f => exact hno pgkey f hmap
      | none =>
        have hseen := hrec.unmapped pgkey hmap
        rw [seen] at hseen
        omega
    refine ⟨fun pgkey f hmap => ?_, fun pgkey f _ hev => ?_⟩
    · rw [hrec.mapped pgkey f hmap, seen, hnone pgkey]
    · change (LRUKEvictor.evict _).1 = some f at hev
      rw [(h.unused hnone).idle.evict] at hev
      cases hev

omit [Build] in
/-- A page is read into the only frame. -/
theorem seesOnce_iff_reading : ∃ (_ : Build) (eng eng₁ : StorageEngine) (buffer : List Byte),
    Run Loading (traced 1 eng) [(.getPage .read (1, 1), some (1, 1))]
      (reading ⟨{ k := evictorK }, []⟩ (1, 1) buffer eng₁) ∧
    (SeesOnce [(.getPage .read (1, 1), some (1, 1))]
        (reading ⟨{ k := evictorK }, []⟩ (1, 1) buffer eng₁) ↔
      ∀ pgkey f, (reading (⟨{ k := evictorK }, []⟩ : Traced LRUKEvictor) (1, 1) buffer
        eng₁).pool.frameTable.lookup pgkey = some f →
        uses [(.getPage .read (1, 1), some (1, 1))] pgkey = 0) := by
  let _ : Build := ⟨false⟩
  obtain ⟨eng, eng₁, -, buffer, hread, -, hlen⟩ := exists_readable
  have hok : Loading (traced 1 eng) (.getPage .read (1, 1)) :=
    ⟨⟨fun hv => absurd hv.2.1 (by simp [traced, start, fresh]), by simp⟩, trivial⟩
  have hrun := Run.start.next hok (next_reading _ hread hlen)
  exact ⟨⟨false⟩, eng, eng₁, buffer, hrun, seesOnce_iff hrun⟩

omit [Build] in
/-- One `read_page` is seen twice. -/
theorem seenTwice_reading : ¬ ∀ (_ : Build) (n : Nat) (eng : StorageEngine)
    (past : List (Op × Option PageKey)) (t : PoolSession (Traced LRUKEvictor)),
    Run Loading (traced n eng) past t → SeesOnce past t := by
  intro h
  let _ : Build := ⟨false⟩
  obtain ⟨eng, eng₁, -, buffer, hread, -, hlen⟩ := exists_readable
  have hok : Loading (traced 1 eng) (.getPage .read (1, 1)) :=
    ⟨⟨fun hv => absurd hv.2.1 (by simp [traced, start, fresh]), by simp⟩, trivial⟩
  have hsees := h ⟨false⟩ 1 eng _ _ (Run.start.next hok (next_reading _ hread hlen))
  have honce : 2 = 1 := hsees.once (1, 1) 0 (AList.lookup_insert _)
  cases honce

end Unused

end PoolSession

end Cpplite
