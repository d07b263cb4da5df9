import Cpplite.BufferPool.Frames

/-!
What pins and latches say of the pages: who holds which of them.

A guard names a page and a frame. As long as no victim is taken the two go together, so what a frame
counts is what its page's guards are.
-/
namespace Cpplite

open Exec

namespace GuardVars

variable {kind : GuardKind}

/-- The variable is a valid guard for the page. -/
def names (pgkey : PageKey) (guard : Option (PageGuard kind)) : Bool :=
  guard.any fun g => g.isValid && g.pgkey == pgkey

/-- The number of valid guards of a kind for the page. -/
def guarding (vars : GuardVars) (kind : GuardKind) (pgkey : PageKey) : Nat :=
  (vars kind).countP (names pgkey)

theorem names_some {pgkey : PageKey} {g : PageGuard kind} :
    names pgkey (some g) = true ↔ g.isValid = true ∧ g.pgkey = pgkey := by
  simp [names]

theorem guarding_pos {vars : GuardVars} {pgkey : PageKey} :
    0 < vars.guarding kind pgkey ↔ ∃ g : PageGuard kind, some g ∈ vars kind ∧ g.isValid = true ∧
      g.pgkey = pgkey := by
  rw [guarding, List.countP_pos_iff]
  constructor
  · rintro ⟨guard, hmem, hnames⟩
    cases guard with
    | none => cases hnames
    | some g => exact ⟨g, hmem, names_some.mp hnames⟩
  · rintro ⟨g, hmem, hg⟩
    exact ⟨some g, hmem, names_some.mpr hg⟩

end GuardVars

namespace PoolSession

open BufferPoolManager

variable {E : Type} [Evictor E] [Build] {s t : PoolSession E} {op : Op} {a : Option PageKey}
  {pgkey : PageKey} {f : Nat} {kind : GuardKind} {vars : GuardVars} {p : BufferPoolManager E}

/-- A valid guard is one for the page that is in its frame. -/
def Bound (s : PoolSession E) : Prop :=
  ∀ kind (g : PageGuard kind), some g ∈ s.vars kind → g.isValid = true →
    ∃ f, g.frame = some f ∧ s.pool.frameTable.lookup g.pgkey = some f

omit [Evictor E] [Build] in
theorem Bound.of_eq (h : Bound s) (hvars : t.vars = s.vars)
    (htable : t.pool.frameTable = s.pool.frameTable) : Bound t := by
  rw [Bound, hvars, htable]
  exact h

omit [Evictor E] [Build] in
theorem Bound.mono (h : Bound s)
    (htable : ∀ key f, s.pool.frameTable.lookup key = some f → p.frameTable.lookup key = some f) :
    Bound ⟨p, s.vars⟩ := by
  intro kind g hg hval
  obtain ⟨f, hf, hmap⟩ := h kind g hg hval
  exact ⟨f, hf, htable _ _ hmap⟩

omit [Evictor E] [Build] in
theorem Bound.declare {g : PageGuard kind} (h : Bound ⟨p, vars⟩)
    (hg : g.isValid = true → ∃ f, g.frame = some f ∧ p.frameTable.lookup g.pgkey = some f) :
    Bound ⟨p, vars.declare g⟩ :=
  GuardVars.declare_all h hg

omit [Build] in
/-- A page with a guard stays where it is. -/
theorem Bound.evicted {r : Bool} (h : Bound s) (hs : Settled s) (hlatch : s.pool.shared.bpmLatch = false)
    (hev : Evicted s.pool pgkey r p) : Bound ⟨p, s.vars⟩ := by
  cases hev with
  | absent hmap => exact h
  | pinned f hmap hpins => exact h
  | freed f hmap hf hpins =>
    intro kind g hg hval
    obtain ⟨x, hx, hbound⟩ := h kind g hg hval
    obtain ⟨i, hi⟩ := List.getElem?_of_mem hg
    have hpos := (GuardVars.held_pos hi hval hx).trans_le (hs.balanced hlatch).held_le
    have hne : g.pgkey ≠ pgkey := by
      intro heq
      rw [heq, hmap, Option.some_inj] at hbound
      subst hbound
      omega
    exact ⟨x, hx, (AList.lookup_erase_ne hne).trans hbound⟩

theorem Bound.made {tblId : Nat} (h : Bound s) (hs : Settled s) (hlatch : s.pool.shared.bpmLatch = false)
    (hok : Unforced s (.newPage tblId)) (hmade : MadePage s.pool tblId a p) : Bound ⟨p, s.vars⟩ := by
  cases hmade with
  | made s' pgkey f rest buffer eng₁ eng₂ hens hcount halloc hread hfree hf hlen =>
    obtain rfl := hens.eq_of_not_yields fun hy => hok.1 ⟨trivial, hy⟩
    have hnew := hs.new_unmapped hlatch (hok.2 tblId rfl) halloc
    refine h.mono fun key g hkey => ?_
    have hne : key ≠ pgkey := by
      rintro rfl
      rw [hnew] at hkey
      cases hkey
    exact (AList.lookup_insert_ne hne).trans hkey
  | refused hr => exact h

theorem Bound.got {g : PageGuard kind} (h : Bound s) (hok : Unforced s (.getPage kind pgkey))
    (hgot : GotPage s.pool kind pgkey g p) : Bound ⟨p, s.vars.declare g⟩ := by
  cases hgot with
  | hit f hmap hf hfree => exact Bound.declare h fun _ => ⟨f, rfl, hmap⟩
  | load s' f rest buffer eng hmap hens hread hfree hf hlen hlatch' =>
    obtain rfl := hens.eq_of_not_yields fun hy => hok.1 ⟨hmap, hy⟩
    refine Bound.declare (h.mono fun key g hkey => ?_) fun _ => ⟨f, rfl, AList.lookup_insert _⟩
    have hne : key ≠ pgkey := by
      rintro rfl
      rw [hmap] at hkey
      cases hkey
    exact (AList.lookup_insert_ne hne).trans hkey
  | refused hmap hr => exact Bound.declare h (by simp)

theorem Bound.next (h : Bound s) (hs : Settled s) (hok : Unforced s op) (hnext : Next s op a t) :
    Bound t := by
  rcases next_cases hnext hs.balanced with hstep | ⟨-, hthrew⟩
  · cases hstep with
    | made hlatch hmade => exact h.made hs hlatch hok hmade
    | got hlatch hgot => exact h.got hok hgot
    | released hlatch hi hval hf => exact GuardVars.assign_all h (by rintro g' ⟨⟩; simp)
    | dropped hi hval =>
      refine GuardVars.assign_all h ?_
      rintro g' ⟨⟩ hval'
      rw [hval] at hval'
      cases hval'
    | overwritten hi hf => exact h.of_eq rfl rfl
    | evicted hlatch hev => exact h.evicted hs hlatch hev
    | flushed hlatch hlatch' hwb hmap => exact h.of_eq rfl hwb.quiet.frameTable
    | flushedAll hlatch hlatch' hwb => exact h.of_eq rfl hwb.quiet.frameTable
  · exact h.of_eq hthrew.vars (hthrew.same hok).frameTable

/-! ### Readers and a writer -/

/-- No frame is read while it is written. -/
def Exclusive (sh : Shared E) : Prop := ∀ f, (sh.frames f).writer = true → (sh.frames f).readers = 0

omit [Evictor E] [Build] in
theorem Exclusive.of_eq {sh sh' : Shared E} (h : Exclusive sh)
    (hwriter : ∀ f, (sh'.frames f).writer = (sh.frames f).writer)
    (hreaders : ∀ f, (sh'.frames f).readers = (sh.frames f).readers) : Exclusive sh' := by
  intro f hf
  rw [hreaders]
  exact h f (hwriter f ▸ hf)

omit [Build] in
theorem Exclusive.acquired {sh : Shared E} (h : Exclusive sh) (hfree : (sh.frames f).Free kind) :
    Exclusive (sh.acquired kind f) := by
  intro g hg
  by_cases hgf : g = f
  · subst hgf
    cases kind with
    | read => simp_all [Shared.acquired, FrameHeader.acquired, FrameHeader.latched, FrameHeader.Free]
    | write => simpa [Shared.acquired, FrameHeader.acquired, FrameHeader.latched] using hfree.2
  · simp only [Shared.acquired, Function.update_of_ne hgf] at hg ⊢
    exact h g hg

omit [Build] in
theorem Exclusive.released {sh : Shared E} (h : Exclusive sh) : Exclusive (sh.released kind f) := by
  intro g hg
  by_cases hgf : g = f
  · subst hgf
    cases kind with
    | read =>
      simp only [Shared.released, Function.update_self, FrameHeader.released, FrameHeader.unlatched] at hg ⊢
      rw [h g hg]
    | write => simp [Shared.released, FrameHeader.released, FrameHeader.unlatched] at hg
  · simp only [Shared.released, Function.update_of_ne hgf] at hg ⊢
    exact h g hg

omit [Build] in
theorem Exclusive.loaded {rest : List Nat} {buffer : List Byte} {eng : StorageEngine}
    (h : Exclusive s.pool.shared) : Exclusive (s.pool.loaded pgkey f rest buffer eng).shared := by
  refine h.of_eq (fun g => ?_) fun g => ?_ <;>
  · by_cases hg : g = f
    · subst hg
      simp [BufferPoolManager.loaded]
    · simp [BufferPoolManager.loaded, hg]

theorem exclusive_next (h : s.pool.shared.bpmLatch = false → Exclusive s.pool.shared) (hs : Settled s)
    (hok : Unforced s op) (hnext : Next s op a t) (hlatch' : t.pool.shared.bpmLatch = false) :
    Exclusive t.pool.shared := by
  rcases next_cases hnext hs.balanced with hstep | ⟨-, hthrew⟩
  · cases hstep with
    | made hlatch hmade =>
      cases hmade with
      | made s' pgkey f rest buffer eng₁ eng₂ hens hcount halloc hread hfree hf hlen =>
        obtain rfl := hens.eq_of_not_yields fun hy => hok.1 ⟨trivial, hy⟩
        exact (h hlatch).loaded
      | refused hr => exact h hlatch
    | got hlatch hgot =>
      cases hgot with
      | hit f hmap hf hfree =>
        have hshared : Exclusive (s.pool.touched f).shared := h hlatch
        exact hshared.acquired hfree
      | load s' f rest buffer eng hmap hens hread hfree hf hlen hfree' =>
        obtain rfl := hens.eq_of_not_yields fun hy => hok.1 ⟨hmap, hy⟩
        refine (h hlatch).loaded.acquired ?_
        cases hk : ‹GuardKind› <;> simpa [BufferPoolManager.loaded, FrameHeader.Free, hk] using hfree'
      | refused hmap hr => exact h hlatch
    | released hlatch hi hval hf => exact (h hlatch).released
    | dropped hi hval => exact h hlatch'
    | @overwritten i f data g hi hf =>
      have hsame : Quiet s.pool (s.pool.overwritten f data) := .setFrame rfl rfl rfl .refl
      exact (h hlatch').of_eq hsame.writer hsame.readers
    | evicted hlatch hev =>
      cases hev with
      | absent hmap => exact h hlatch
      | pinned f hmap hpins => exact h hlatch
      | freed f hmap hf hpins =>
        refine (h hlatch).of_eq (fun g => ?_) fun g => ?_ <;>
        · by_cases hg : g = f
          · subst hg
            simp [BufferPoolManager.freed]
          · simp [BufferPoolManager.freed, hg]
    | flushed hlatch _ hwb hmap => exact (h hlatch).of_eq hwb.quiet.writer hwb.quiet.readers
    | flushedAll hlatch _ hwb => exact (h hlatch).of_eq hwb.quiet.writer hwb.quiet.readers
  · rw [hthrew.latch] at hlatch'
    cases hlatch'

/-- Guards, frames and pages agree. -/
structure Owned (s : PoolSession E) : Prop where
  settled : Settled s
  bound : Bound s
  exclusive : s.pool.shared.bpmLatch = false → Exclusive s.pool.shared

omit [Evictor E] [Build] in
theorem owned_start (n : Nat) (evictor : E) (eng : StorageEngine) :
    Owned (start (fresh n evictor eng)) := by
  refine ⟨settled_start n evictor eng, fun kind g hg => ?_, fun _ f hf => rfl⟩
  simp [start] at hg

theorem Run.owned {past : List (Op × Option PageKey)} {s₀ : PoolSession E} (h : Run Unforced s₀ past t)
    (hs : Owned s₀) : Owned t := by
  induction h with
  | start => exact hs
  | next _ hok hnext ih =>
    exact ⟨ih.settled.next hok hnext, ih.bound.next ih.settled hok hnext,
      exclusive_next ih.exclusive ih.settled hok hnext⟩

/-! ### Counting guards by page -/

omit [Evictor E] [Build] in
/-- A frame's guards are its page's. -/
theorem Bound.held_eq (h : Bound s) (hs : Settled s) (hmap : s.pool.frameTable.lookup pgkey = some f) :
    s.vars.held kind f = s.vars.guarding kind pgkey := by
  refine List.countP_congr fun guard hmem => ?_
  cases guard with
  | none => simp [GuardVars.bound, GuardVars.names]
  | some g =>
    rw [GuardVars.bound_some, GuardVars.names_some]
    refine and_congr_right fun hval => ?_
    obtain ⟨x, hx, hbound⟩ := h kind g hmem hval
    rw [hx, Option.some_inj]
    constructor
    · rintro rfl
      exact hs.partitioned.injective hbound hmap
    · rintro rfl
      rw [hbound, Option.some_inj] at hmap
      exact hmap

omit [Evictor E] [Build] in
theorem Bound.guarding_eq_zero (h : Bound s) (hmap : s.pool.frameTable.lookup pgkey = none) :
    s.vars.guarding kind pgkey = 0 := by
  by_contra hne
  obtain ⟨g, hmem, hval, rfl⟩ := GuardVars.guarding_pos.mp (Nat.pos_of_ne_zero hne)
  obtain ⟨f, -, hbound⟩ := h kind g hmem hval
  rw [hmap] at hbound
  cases hbound

/-- The guards that keep a guard of this kind from the page. -/
def Conflicting (vars : GuardVars) : GuardKind → PageKey → Prop
  | .read, pgkey => 0 < vars.guarding .write pgkey
  | .write, pgkey => 0 < vars.guarding .read pgkey ∨ 0 < vars.guarding .write pgkey

omit [Evictor E] [Build] in
/-- A latch is free for a guard just when no guard is in its way. -/
theorem Owned.free_iff (h : Owned s) (hlatch : s.pool.shared.bpmLatch = false)
    (hmap : s.pool.frameTable.lookup pgkey = some f) :
    (s.pool.shared.frames f).Free kind ↔ ¬ Conflicting s.vars kind pgkey := by
  have hb := h.settled.balanced hlatch
  have hread : s.vars.held .read f = _ := h.bound.held_eq h.settled hmap
  have hwrite : s.vars.held .write f = _ := h.bound.held_eq h.settled hmap
  have hwriter : (s.pool.shared.frames f).writer = false ↔ s.vars.held .write f = 0 := by
    rw [← hb.writer]
    cases (s.pool.shared.frames f).writer <;> simp
  cases kind with
  | read => rw [FrameHeader.Free, Conflicting, hwriter, hwrite, Nat.pos_iff_ne_zero, not_not]
  | write =>
    rw [FrameHeader.Free, Conflicting, hwriter, hb.readers, hread, hwrite]
    omega

omit [Evictor E] [Build] in
/-- Who writes a page has it alone. -/
theorem Owned.alone (h : Owned s) (hlatch : s.pool.shared.bpmLatch = false)
    (hpos : 0 < s.vars.guarding .write pgkey) :
    s.vars.guarding .write pgkey = 1 ∧ s.vars.guarding .read pgkey = 0 := by
  obtain ⟨g, hmem, hval, rfl⟩ := GuardVars.guarding_pos.mp hpos
  obtain ⟨f, -, hmap⟩ := h.bound .write g hmem hval
  have hb := h.settled.balanced hlatch
  rw [← h.bound.held_eq h.settled hmap, ← h.bound.held_eq h.settled hmap, ← hb.readers]
  rw [← h.bound.held_eq h.settled hmap, ← hb.writer] at hpos
  have htrue : (s.pool.shared.frames f).writer = true := by
    by_contra hw
    rw [Bool.not_eq_true] at hw
    simp [hw] at hpos
  exact ⟨by rw [← hb.writer, htrue]; rfl, h.exclusive hlatch f htrue⟩

section Pins

variable {n : Nat} {evictor : E} {eng : StorageEngine} {past : List (Op × Option PageKey)}

omit [Evictor E] in
theorem getPinCount_ok (hlatch : p.shared.bpmLatch = false)
    (hlt : ∀ f, p.frameTable.lookup pgkey = some f → f < p.numFrames) :
    getPinCount pgkey p = .ok ((p.frameTable.lookup pgkey).map fun f => (p.shared.frames f).pins) p := by
  have hstart : getPinCount pgkey p = _ := bind_ok (onShared_lock hlatch)
  rw [bind_ok get_ok] at hstart
  refine hstart.trans ?_
  cases hmap : p.frameTable.lookup pgkey with
  | none =>
    have hlook : (p.latched true).frameTable.lookup pgkey = none := hmap
    rw [hlook]
    exact bind_ok (unlock_latched hlatch)
  | some f =>
    have hlook : (p.latched true).frameTable.lookup pgkey = some f := hmap
    have hcheck : checkFrame f (p.latched true) = .ok () (p.latched true) := checkFrame_ok (hlt f hmap)
    rw [hlook]
    exact (bind_ok hcheck).trans (bind_ok (unlock_latched hlatch))

/-- As long as no victim is taken, `get_pin_count` gives the number of valid guards for a page that is
in the pool, and a page that is not has none. -/
theorem run_pin_counts (h : Run Unforced (start (fresh n evictor eng)) past t)
    (hlatch : t.pool.shared.bpmLatch = false) (pgkey : PageKey) :
    ∃ r, getPinCount pgkey t.pool = .ok r t.pool ∧
      (r = none ↔ t.pool.frameTable.lookup pgkey = none) ∧
      r.getD 0 = t.vars.guarding .read pgkey + t.vars.guarding .write pgkey := by
  have howned := h.owned (owned_start n evictor eng)
  refine ⟨_, getPinCount_ok hlatch fun f hf => howned.settled.partitioned.lt_iff.mpr (.inr ⟨_, hf⟩),
    Option.map_eq_none_iff, ?_⟩
  cases hmap : t.pool.frameTable.lookup pgkey with
  | none => rw [howned.bound.guarding_eq_zero hmap, howned.bound.guarding_eq_zero hmap]; rfl
  | some f =>
    rw [← howned.bound.held_eq howned.settled hmap, ← howned.bound.held_eq howned.settled hmap]
    exact (howned.settled.balanced hlatch).pins f

/-- A page is read into the only frame, and a guard for it is there. -/
theorem run_reading : ∃ eng eng₁ buffer, Run Unforced (start (initial 1 eng))
    [(.getPage .read (1, 1), some (1, 1))] (reading { k := evictorK } (1, 1) buffer eng₁) := by
  obtain ⟨eng, eng₁, -, buffer, hread, -, hlen⟩ := exists_readable
  have hok : Unforced (start (initial 1 eng)) (.getPage .read (1, 1)) :=
    ⟨fun hv => absurd hv.2.1 (by simp [start, initial, fresh]), by simp⟩
  exact ⟨eng, eng₁, buffer, Run.start.next hok (next_reading _ hread hlen)⟩

omit [Build] in
theorem run_pin_counts_reading : ∃ (_ : Build) (eng eng₁ : StorageEngine) (buffer : List Byte),
    Run Unforced (start (initial 1 eng)) [(.getPage .read (1, 1), some (1, 1))]
      (reading { k := evictorK } (1, 1) buffer eng₁) ∧
    ∃ r, getPinCount (1, 1) (reading ({ k := evictorK } : LRUKEvictor) (1, 1) buffer eng₁).pool =
      .ok r (reading ({ k := evictorK } : LRUKEvictor) (1, 1) buffer eng₁).pool ∧ r.getD 0 = 1 := by
  let _ : Build := ⟨false⟩
  obtain ⟨eng, eng₁, buffer, hrun⟩ := run_reading
  obtain ⟨r, hcount, -, hr⟩ := run_pin_counts hrun rfl (1, 1)
  exact ⟨⟨false⟩, eng, eng₁, buffer, hrun, r, hcount, hr.trans rfl⟩

/-- As long as no victim is taken, a page has one writer and no reader, or no writer; and a guard for a
page in the pool is given out just when no guard is in its way. Otherwise the call does not come back. -/
theorem run_guards_exclude (h : Run Unforced (start (fresh n evictor eng)) past t)
    (hlatch : t.pool.shared.bpmLatch = false) (pgkey : PageKey) :
    (0 < t.vars.guarding .write pgkey →
      t.vars.guarding .write pgkey = 1 ∧ t.vars.guarding .read pgkey = 0) ∧
    (t.pool.frameTable.lookup pgkey ≠ none → ∀ kind,
      (Conflicting t.vars kind pgkey → Raises (getPage kind pgkey) t.pool (fun e _ => ¬ e.Thrown)) ∧
      (¬ Conflicting t.vars kind pgkey → ∃ g p, getPage kind pgkey t.pool = .ok g p ∧
        g.isValid = true ∧ g.pgkey = pgkey)) := by
  have howned := h.owned (owned_start n evictor eng)
  refine ⟨howned.alone hlatch, fun hin kind => ?_⟩
  obtain ⟨f, hmap⟩ := Option.ne_none_iff_exists'.mp hin
  have hlt : f < t.pool.numFrames := howned.settled.partitioned.lt_iff.mpr (.inr ⟨_, hmap⟩)
  constructor
  · intro hconf
    have hfind : findFrame pgkey (t.pool.latched true) =
        .ok (some f) ((t.pool.touched f).latched true) := findFrame_hit hmap
    refine getPage_stuck hlatch hfind ?_
    rintro ⟨-, hfree⟩
    exact (howned.free_iff hlatch hmap).mp hfree hconf
  · intro hno
    exact ⟨_, _, getPage_hit hlatch hmap hlt ((howned.free_iff hlatch hmap).mpr hno), rfl, rfl⟩

omit [Build] in
theorem run_guards_exclude_reading : ∃ (_ : Build) (eng eng₁ : StorageEngine) (buffer : List Byte),
    Run Unforced (start (initial 1 eng)) [(.getPage .read (1, 1), some (1, 1))]
      (reading { k := evictorK } (1, 1) buffer eng₁) ∧
    Raises (getPage .write (1, 1)) (reading ({ k := evictorK } : LRUKEvictor) (1, 1) buffer eng₁).pool
      (fun e _ => ¬ e.Thrown) := by
  let _ : Build := ⟨false⟩
  obtain ⟨eng, eng₁, buffer, hrun⟩ := run_reading
  obtain ⟨-, hguards⟩ := run_guards_exclude hrun rfl (1, 1)
  have hin : AList.lookup (1, 1) (reading ({ k := evictorK } : LRUKEvictor) (1, 1) buffer eng₁).pool.frameTable
      ≠ none := by simp [reading, BufferPoolManager.loaded]
  exact ⟨⟨false⟩, eng, eng₁, buffer, hrun, (hguards hin .write).1 (.inl Nat.one_pos)⟩

end Pins

end PoolSession

end Cpplite
