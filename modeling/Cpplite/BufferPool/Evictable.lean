import Cpplite.BufferPool.Frames

/-!
Which frames of a pool may be evicted, and which are pinned.

`insert_frame` takes a frame away from the evictor and only the drop of a guard gives it back. A page
that `new_page` made has no guard, so its frame is neither pinned nor evictable until it is used.
-/
namespace Cpplite

open Exec

/-- Who has nothing to give up stays as it is. -/
theorem LRUKEvictor.evict_eq_self {e : LRUKEvictor} (h : e.evict.1 = none) : e.evict.2 = e := by
  unfold LRUKEvictor.evict at h ⊢
  split at h
  · simp_all
  · split at h
    · cases h
    · split at h
      · cases h
      · simp_all

namespace PoolSession

open BufferPoolManager

/-! ### Pages of a run -/

/-- The pages that were made or handed out. -/
def touched : List (Op × Option PageKey) → Finset PageKey
  | [] => ∅
  | (_, none) :: past => touched past
  | (_, some pgkey) :: past => Insert.insert pgkey (touched past)

/-- `new_page` made the page, and since then it was neither handed out nor evicted. -/
def Unread : List (Op × Option PageKey) → PageKey → Prop
  | [], _ => False
  | (.newPage _, a) :: past, pgkey => a = some pgkey ∨ Unread past pgkey
  | (.getPage _ _, a) :: past, pgkey => a ≠ some pgkey ∧ Unread past pgkey
  | (.evictPage pgkey', _) :: past, pgkey => pgkey' ≠ pgkey ∧ Unread past pgkey
  | _ :: past, pgkey => Unread past pgkey

/-- A call of such a run. -/
def IsUse : Op → Prop
  | .newPage _ | .getPage _ _ | .drop _ _ | .evictPage _ => True
  | _ => False

section Invariant

variable {past : List (Op × Option PageKey)} {s t : PoolSession LRUKEvictor} {st : Lruk.State}
  {op : Op} {a : Option PageKey} {kind : GuardKind} {pgkey : PageKey} {f : Nat} {rest : List Nat}
  {buffer : List Byte} {eng : StorageEngine} {p : BufferPoolManager LRUKEvictor} {vars : GuardVars}

/-- The frame is tracked, and evictable or not. -/
def Tracks (st : Lruk.State) (f : Nat) (q : Prop) : Prop :=
  ∃ tracked, st.frames f = some tracked ∧ (tracked.evictable = true ↔ q)

/-- What the evictor makes of the frames with pages. -/
structure Marked (past : List (Op × Option PageKey)) (s : PoolSession LRUKEvictor)
    (st : Lruk.State) : Prop where
  sim : Lruk.Sim evictorK s.pool.shared.evictor st
  mapped : ∀ pgkey f, s.pool.frameTable.lookup pgkey = some f →
    Tracks st f ((s.pool.shared.frames f).pins = 0 ∧ ¬ Unread past pgkey)
  unread : ∀ pgkey, Unread past pgkey →
    ∃ f, s.pool.frameTable.lookup pgkey = some f ∧ (s.pool.shared.frames f).pins = 0

variable {past' : List (Op × Option PageKey)} {st' : Lruk.State}

/-- Nothing changes but what one frame is for. -/
theorem Marked.change (h : Marked past s st) (hsim : Lruk.Sim evictorK p.shared.evictor st')
    (hoff : ∀ g, g ≠ f → st'.frames g = st.frames g ∧
      (p.shared.frames g).pins = (s.pool.shared.frames g).pins)
    (hkeep : ∀ key g, p.frameTable.lookup key = some g → g ≠ f →
      s.pool.frameTable.lookup key = some g ∧ (Unread past' key ↔ Unread past key))
    (hself : ∀ key, p.frameTable.lookup key = some f →
      Tracks st' f ((p.shared.frames f).pins = 0 ∧ ¬ Unread past' key))
    (hunread : ∀ key, Unread past' key →
      ∃ g, p.frameTable.lookup key = some g ∧ (p.shared.frames g).pins = 0) :
    Marked past' ⟨p, vars⟩ st' := by
  refine ⟨hsim, fun key g hmap => ?_, hunread⟩
  by_cases hg : g = f
  · subst hg
    exact hself key hmap
  · obtain ⟨hold, hiff⟩ := hkeep key g hmap hg
    obtain ⟨tracked, hframes, hev⟩ := h.mapped key g hold
    obtain ⟨hst, hpins⟩ := hoff g hg
    exact ⟨tracked, hst.trans hframes, by rw [hev, hpins, hiff]⟩

/-- Nothing changes. -/
theorem Marked.same (h : Marked past s st) (hev : p.shared.evictor = s.pool.shared.evictor)
    (htable : p.frameTable = s.pool.frameTable)
    (hpins : ∀ g, (p.shared.frames g).pins = (s.pool.shared.frames g).pins)
    (hunread : ∀ key, (∃ g, s.pool.frameTable.lookup key = some g) →
      (Unread past' key ↔ Unread past key))
    (hread : ∀ key, Unread past' key → Unread past key) : Marked past' ⟨p, vars⟩ st := by
  refine ⟨by rw [hev]; exact h.sim, fun key g hmap => ?_, fun key hkey => ?_⟩
  · have hold : s.pool.frameTable.lookup key = some g := htable ▸ hmap
    simp only [hpins, hunread key ⟨g, hold⟩]
    exact h.mapped key g hold
  · obtain ⟨g, hmap, hzero⟩ := h.unread key (hread key hkey)
    exact ⟨g, htable ▸ hmap, by rw [hpins, hzero]⟩

/-- A frame whose page is used or brought in. -/
def shown (st : Lruk.State) (f : Nat) : Lruk.State := (st.access f).mark f false

theorem shown_of_ne {g : Nat} (h : g ≠ f) : (shown st f).frames g = st.frames g := by
  rw [shown, Lruk.mark_frames_of_ne h, Lruk.access_frames_of_ne h]

theorem tracks_shown {q : Prop} (hq : ¬ q) : Tracks (shown st f) f q := by
  refine ⟨_, by rw [shown, Lruk.mark_frames_self, Lruk.access_frames_self]; rfl, ?_⟩
  simp [hq]

theorem tracks_access {q : Prop} (h : Tracks st f q) : Tracks (st.access f) f q := by
  obtain ⟨tracked, hframes, hev⟩ := h
  refine ⟨_, Lruk.access_frames_self, ?_⟩
  simpa [hframes] using hev

theorem sim_shown {e : LRUKEvictor} (h : Lruk.Sim evictorK e st) (f : Nat) :
    Lruk.Sim evictorK (Evictor.setEvictable (Evictor.recordAccess e f) f false) (shown st f) :=
  (h.recordAccess f).setEvictable f false

theorem Marked.hit (h : Marked past s st) (hs : Settled s)
    (hmap : s.pool.frameTable.lookup pgkey = some f) :
    Marked ((.getPage kind pgkey, some pgkey) :: past)
      ⟨{ s.pool with shared := (s.pool.touched f).shared.acquired kind f }, vars⟩
      ((shown st f).access f) := by
  refine h.change (f := f) ((sim_shown h.sim f).recordAccess f) (fun g hg => ?_)
    (fun key g hkey hg => ⟨hkey, ?_⟩) (fun key hkey => ?_) fun key hkey => ?_
  · rw [Lruk.access_frames_of_ne hg, shown_of_ne hg]
    exact ⟨rfl, by simp [Shared.acquired, hg, BufferPoolManager.touched]⟩
  · have hne : key ≠ pgkey := by
      rintro rfl
      rw [hmap, Option.some_inj] at hkey
      exact hg hkey.symm
    simp [Unread, hne.symm]
  · exact tracks_access (tracks_shown (by simp [Shared.acquired, FrameHeader.acquired]))
  · obtain ⟨hne, hold⟩ := hkey
    obtain ⟨g, hg, hzero⟩ := h.unread key hold
    refine ⟨g, hg, ?_⟩
    have hgf : g ≠ f := by
      rintro rfl
      exact hne (by rw [hs.partitioned.injective hmap hg])
    simpa [Shared.acquired, hgf, BufferPoolManager.touched] using hzero

/-- Where the pages of the other frames are after a page came in. -/
theorem loaded_other (hs : Settled s) (hfree : s.pool.freeList = f :: rest)
    (hmap : s.pool.frameTable.lookup pgkey = none) {key : PageKey} {g : Nat} :
    (s.pool.frameTable.insert pgkey f).lookup key = some g ∧ g ≠ f ↔
      s.pool.frameTable.lookup key = some g := by
  have hf : f ∈ s.pool.freeList := by
    rw [hfree]
    exact List.mem_cons_self
  by_cases hkey : key = pgkey
  · subst hkey
    simp [hmap, @eq_comm _ f g]
  · rw [AList.lookup_insert_ne hkey]
    refine ⟨And.left, fun hg => ⟨hg, ?_⟩⟩
    rintro rfl
    exact hs.partitioned.not_free hg hf

theorem loaded_self (hs : Settled s) (hfree : s.pool.freeList = f :: rest)
    (hmap : s.pool.frameTable.lookup pgkey = none) {key : PageKey}
    (h : (s.pool.frameTable.insert pgkey f).lookup key = some f) : key = pgkey := by
  by_contra hne
  rw [AList.lookup_insert_ne hne] at h
  exact ((loaded_other hs hfree hmap).mpr h).2 rfl

theorem Marked.made {tblId : Nat} (h : Marked past s st) (hs : Settled s)
    (hfree : s.pool.freeList = f :: rest) (hmap : s.pool.frameTable.lookup pgkey = none) :
    Marked ((.newPage tblId, some pgkey) :: past) ⟨s.pool.loaded pgkey f rest buffer eng, vars⟩
      (shown st f) := by
  refine h.change (f := f) (sim_shown h.sim f) (fun g hg => ?_) (fun key g hkey hg => ?_)
    (fun key hkey => ?_) fun key hkey => ?_
  · exact ⟨shown_of_ne hg, by simp [BufferPoolManager.loaded, hg]⟩
  · have hold := (loaded_other hs hfree hmap).mp ⟨hkey, hg⟩
    refine ⟨hold, ?_⟩
    have hne : pgkey ≠ key := by
      rintro rfl
      rw [hmap] at hold
      cases hold
    simp [Unread, hne]
  · obtain rfl := loaded_self hs hfree hmap hkey
    exact tracks_shown fun hno => hno.2 (.inl rfl)
  · rcases hkey with heq | hold
    · cases heq
      exact ⟨f, AList.lookup_insert _, by simp [BufferPoolManager.loaded]⟩
    · obtain ⟨g, hg, hzero⟩ := h.unread key hold
      obtain ⟨hg', hne⟩ := (loaded_other hs hfree hmap).mpr hg
      exact ⟨g, hg', by simpa [BufferPoolManager.loaded, hne] using hzero⟩

theorem Marked.loaded (h : Marked past s st) (hs : Settled s) (hfree : s.pool.freeList = f :: rest)
    (hmap : s.pool.frameTable.lookup pgkey = none) :
    Marked ((.getPage kind pgkey, some pgkey) :: past)
      ⟨{ s.pool.loaded pgkey f rest buffer eng with
        shared := (s.pool.loaded pgkey f rest buffer eng).shared.acquired kind f }, vars⟩
      ((shown st f).access f) := by
  refine h.change (f := f) ((sim_shown h.sim f).recordAccess f) (fun g hg => ?_)
    (fun key g hkey hg => ?_) (fun key hkey => ?_) fun key hkey => ?_
  · rw [Lruk.access_frames_of_ne hg, shown_of_ne hg]
    exact ⟨rfl, by simp [Shared.acquired, BufferPoolManager.loaded, hg]⟩
  · have hold := (loaded_other hs hfree hmap).mp ⟨hkey, hg⟩
    refine ⟨hold, ?_⟩
    have hne : pgkey ≠ key := by
      rintro rfl
      rw [hmap] at hold
      cases hold
    simp [Unread, hne]
  · exact tracks_access (tracks_shown (by simp [Shared.acquired, FrameHeader.acquired]))
  · obtain ⟨g, hg, hzero⟩ := h.unread key hkey.2
    obtain ⟨hg', hne⟩ := (loaded_other hs hfree hmap).mpr hg
    exact ⟨g, hg', by simpa [Shared.acquired, BufferPoolManager.loaded, hne] using hzero⟩

/-- A guard lets go of a frame. -/
theorem Marked.released {i : Nat} (h : Marked past s st) (hpos : 0 < (s.pool.shared.frames f).pins) :
    ∃ st', Marked ((.drop kind i, none) :: past)
      ⟨{ s.pool with shared := s.pool.shared.released kind f }, vars⟩ st' := by
  have hunread : ∀ key, Unread past key → ∃ g, s.pool.frameTable.lookup key = some g ∧
      ((s.pool.shared.released kind f).frames g).pins = 0 := by
    intro key hkey
    obtain ⟨g, hg, hzero⟩ := h.unread key hkey
    have hne : g ≠ f := by
      rintro rfl
      omega
    exact ⟨g, hg, by simpa [Shared.released, hne] using hzero⟩
  have hread : ∀ key, s.pool.frameTable.lookup key = some f → ¬ Unread past key := by
    intro key hmap hkey
    obtain ⟨g, hg, hzero⟩ := h.unread key hkey
    rw [hmap, Option.some_inj] at hg
    subst hg
    omega
  have hpins : ((s.pool.shared.released kind f).frames f).pins = (s.pool.shared.frames f).pins - 1 := by
    simp [Shared.released, FrameHeader.released]
  by_cases hone : (s.pool.shared.frames f).pins = 1
  · have hsim : Lruk.Sim evictorK (s.pool.shared.released kind f).evictor (st.mark f true) := by
      rw [Shared.released, if_pos hone]
      exact h.sim.setEvictable f true
    refine ⟨st.mark f true, h.change (f := f) hsim (fun g hg => ?_) (fun key g hkey _ => ⟨hkey, .rfl⟩)
      (fun key hkey => ?_) hunread⟩
    · exact ⟨Lruk.mark_frames_of_ne hg, by simp [Shared.released, hg]⟩
    · obtain ⟨tracked, hframes, -⟩ := h.mapped key f hkey
      refine ⟨_, by rw [Lruk.mark_frames_self, hframes]; rfl, ?_⟩
      exact iff_of_true rfl ⟨by rw [hpins, hone], hread key hkey⟩
  · have hsim : Lruk.Sim evictorK (s.pool.shared.released kind f).evictor st := by
      rw [Shared.released, if_neg hone]
      exact h.sim
    refine ⟨st, h.change (f := f) hsim (fun g hg => ?_) (fun key g hkey _ => ⟨hkey, .rfl⟩)
      (fun key hkey => ?_) hunread⟩
    · exact ⟨rfl, by simp [Shared.released, hg]⟩
    · obtain ⟨tracked, hframes, hev⟩ := h.mapped key f hkey
      refine ⟨tracked, hframes, hev.trans ?_⟩
      rw [hpins]
      constructor <;>
        · rintro ⟨hzero, -⟩
          omega

/-- A page leaves its frame. -/
theorem Marked.freed (h : Marked past s st) (hs : Settled s)
    (hmap : s.pool.frameTable.lookup pgkey = some f) :
    Marked ((.evictPage pgkey, none) :: past) ⟨s.pool.freed pgkey f, vars⟩ (st.forget f) := by
  have herase : ∀ key, key ≠ pgkey →
      (s.pool.frameTable.erase pgkey).lookup key = s.pool.frameTable.lookup key :=
    fun key hkey => AList.lookup_erase_ne hkey
  have hgone : ∀ key g, (s.pool.frameTable.erase pgkey).lookup key = some g → key ≠ pgkey := by
    rintro key g hkey rfl
    simp at hkey
  refine h.change (f := f) (h.sim.remove f) (fun g hg => ?_) (fun key g hkey hg => ?_)
    (fun key hkey => ?_) fun key hkey => ?_
  · exact ⟨Lruk.forget_frames_of_ne hg, by simp [BufferPoolManager.freed, hg]⟩
  · have hne := hgone key g hkey
    refine ⟨(herase key hne).symm.trans hkey, ?_⟩
    simp [Unread, hne.symm]
  · have hne := hgone key f hkey
    exact absurd (hs.partitioned.injective ((herase key hne).symm.trans hkey) hmap) hne
  · obtain ⟨hne, hold⟩ := hkey
    obtain ⟨g, hg, hzero⟩ := h.unread key hold
    refine ⟨g, (herase key (Ne.symm hne)).trans hg, ?_⟩
    have hgf : g ≠ f := by
      rintro rfl
      exact hne (hs.partitioned.injective hmap hg)
    simpa [BufferPoolManager.freed, hgf] using hzero

theorem Marked.refused (h : Marked past s st) (hr : s.pool.Refused)
    (hread : ∀ key, Unread past' key ↔ Unread past key) : Marked past' ⟨s.pool.refused, vars⟩ st := by
  refine h.same ?_ rfl (fun _ => rfl) (fun key _ => hread key) fun key => (hread key).mp
  exact LRUKEvictor.evict_eq_self hr.2

variable [Build]

theorem Marked.next (h : Marked past s st) (hs : Settled s) (hok : Unforced s op) (huse : IsUse op)
    (hnext : Next s op a t) : ∃ st', Marked ((op, a) :: past) t st' := by
  rcases next_cases hnext hs.balanced with hstep | ⟨rfl, hthrew⟩
  · cases hstep with
    | made hlatch hmade =>
      cases hmade with
      | made s' pgkey f rest buffer eng₁ eng₂ hens hcount halloc hread hfree hf hlen =>
        obtain rfl := hens.eq_of_not_yields fun hy => hok.1 ⟨trivial, hy⟩
        exact ⟨_, h.made hs hfree (hs.new_unmapped hlatch (hok.2 _ rfl) halloc)⟩
      | refused hr => exact ⟨_, h.refused hr fun key => by simp [Unread]⟩
    | got hlatch hgot =>
      cases hgot with
      | hit f hmap hf hfree => exact ⟨_, h.hit hs hmap⟩
      | load s' f rest buffer eng hmap hens hread hfree hf hlen hlatch' =>
        obtain rfl := hens.eq_of_not_yields fun hy => hok.1 ⟨hmap, hy⟩
        exact ⟨_, h.loaded hs hfree hmap⟩
      | refused hmap hr => exact ⟨_, h.refused hr fun key => by simp [Unread]⟩
    | released hlatch hi hval hf =>
      exact h.released ((GuardVars.held_pos hi hval hf).trans_le (hs.balanced hlatch).held_le)
    | dropped hi hval => exact ⟨st, h.same rfl rfl (fun _ => rfl) (fun _ _ => .rfl) fun _ => id⟩
    | overwritten hi hf => exact huse.elim
    | @evicted pgkey r p hlatch hev =>
      cases hev with
      | absent hmap =>
        refine ⟨st, h.same rfl rfl (fun _ => rfl) (fun key hkey => ?_) fun key => And.right⟩
        have hne : pgkey ≠ key := by
          rintro rfl
          obtain ⟨g, hg⟩ := hkey
          rw [hmap] at hg
          cases hg
        simp [Unread, hne]
      | pinned f hmap hpins =>
        refine ⟨st, h.same rfl rfl (fun _ => rfl) (fun key _ => ⟨And.right, fun hkey => ⟨?_, hkey⟩⟩)
          fun key => And.right⟩
        rintro rfl
        obtain ⟨g, hg, hzero⟩ := h.unread pgkey hkey
        rw [hmap, Option.some_inj] at hg
        subst hg
        omega
      | freed f hmap hf hpins => exact ⟨_, h.freed hs hmap⟩
    | flushed hlatch hlatch' hwb hmap => exact huse.elim
    | flushedAll hlatch hlatch' hwb => exact huse.elim
  · have halike := hthrew.same hok
    have hread : ∀ key, Unread ((op, none) :: past) key ↔ Unread past key := by
      intro key
      cases op with
      | evictPage pgkey =>
        -- it never throws
        have hlatch := hthrew.latch
        cases evictPage_next hnext hthrew.before with
        | evicted _ hev => cases hev <;> simp [BufferPoolManager.freed, hthrew.before] at hlatch
      | _ => simp [Unread]
    exact ⟨st, h.same halike.evictor halike.frameTable halike.pins (fun key _ => hread key)
      fun key => (hread key).mp⟩

/-! ### At most as many pages as frames -/

/-- Every page in the pool was made or handed out. -/
def Met (past : List (Op × Option PageKey)) (s : PoolSession LRUKEvictor) : Prop :=
  ∀ pgkey f, s.pool.frameTable.lookup pgkey = some f → pgkey ∈ touched past

omit [Build] in
theorem touched_subset : touched past ⊆ touched ((op, a) :: past) := by
  cases a with
  | none => exact subset_rfl
  | some pgkey => exact Finset.subset_insert _ _

omit [Build] in
/-- A full pool has no room for one more page. -/
theorem card_of_full (hs : Settled s) (hmet : Met past s) (hfree : s.pool.freeList = [])
    (hmap : s.pool.frameTable.lookup pgkey = none) :
    s.pool.numFrames < (Insert.insert pgkey (touched past)).card := by
  have hsize := hs.partitioned.size
  rw [hfree, List.length_nil, Nat.zero_add] at hsize
  have hkeys : s.pool.frameTable.entries.keys.toFinset.card = s.pool.numFrames := by
    rw [List.toFinset_card_of_nodup s.pool.frameTable.nodupKeys, ← hsize, List.keys,
      List.length_map]
  have hnot : pgkey ∉ s.pool.frameTable.entries.keys.toFinset := by
    rw [List.mem_toFinset]
    exact AList.lookup_eq_none.mp hmap
  have hsub : Insert.insert pgkey s.pool.frameTable.entries.keys.toFinset ⊆ Insert.insert pgkey (touched past) := by
    refine Finset.insert_subset_insert _ fun key hkey => ?_
    rw [List.mem_toFinset] at hkey
    obtain ⟨f, hf⟩ := Option.isSome_iff_exists.mp (AList.lookup_isSome.mpr hkey)
    exact hmet key f hf
  have hcard := Finset.card_le_card hsub
  rw [Finset.card_insert_of_notMem hnot, hkeys] at hcard
  omega

/-- A call of such a run; if it needs a victim, the storage serves it, and no table runs out of page
numbers. -/
structure Served (s : PoolSession LRUKEvictor) (op : Op) : Prop where
  use : IsUse op
  room : ∀ tblId, op = .newPage tblId → s.pool.storageEngine.HasRoom tblId
  storage : TakesVictim s op → StorageServes s op

theorem Served.unforced (hok : Served s op) (hs : Settled s) (hmet : Met past s)
    (hnext : Next s op a t) (hcard : (touched ((op, a) :: past)).card ≤ s.pool.numFrames) :
    Unforced s op := by
  refine ⟨fun hv => ?_, hok.room⟩
  rcases next_cases hnext hs.balanced with hstep | ⟨-, hthrew⟩
  · have hcount : ∀ pgkey, a = some pgkey → s.pool.frameTable.lookup pgkey ≠ none := by
      rintro pgkey rfl hmap
      have hfull := card_of_full hs hmet hv.2.1 hmap
      simp only [touched] at hcard
      omega
    cases hstep with
    | made hlatch hmade =>
      cases hmade with
      | made s' pgkey f rest buffer eng₁ eng₂ hens hcount' halloc hread hfree hf hlen =>
        exact hcount pgkey rfl (hs.new_unmapped hlatch (hok.room _ rfl) halloc)
      | refused hr => exact hv.2.2 hr.2
    | got hlatch hgot =>
      cases hgot with
      | hit f hmap hf hfree =>
        have hnone : s.pool.frameTable.lookup _ = none := hv.1
        rw [hmap] at hnone
        cases hnone
      | load s' f rest buffer eng hmap hens hread hfree hf hlen hlatch' => exact hcount _ rfl hmap
      | refused hmap hr => exact hv.2.2 hr.2
    | released => exact hv.1
    | dropped => exact hv.1
    | overwritten => exact hv.1
    | evicted => exact hv.1
    | flushed => exact hv.1
    | flushedAll => exact hv.1
  · exact hthrew.storage hv.1 (hok.storage hv)

theorem Met.next (h : Met past s) (hs : Settled s) (hnext : Next s op a t) :
    t.pool.numFrames = s.pool.numFrames ∧ Met ((op, a) :: past) t := by
  have hgrow : ∀ {key pgkey : PageKey} {f g : Nat},
      (s.pool.frameTable.insert pgkey f).lookup key = some g →
        key ∈ Insert.insert pgkey (touched past) := by
    intro key pgkey f g hkey
    by_cases hne : key = pgkey
    · exact hne ▸ Finset.mem_insert_self _ _
    · rw [AList.lookup_insert_ne hne] at hkey
      exact Finset.mem_insert_of_mem (h key g hkey)
  rcases next_cases hnext hs.balanced with hstep | ⟨rfl, hthrew⟩
  · cases hstep with
    | made hlatch hmade =>
      cases hmade with
      | made s' pgkey f rest buffer eng₁ eng₂ hens hcount halloc hread hfree hf hlen =>
        obtain ⟨hn, -, htable, -, -⟩ := hens.same
        refine ⟨hn, fun key g hkey => ?_⟩
        simp only [BufferPoolManager.loaded, htable] at hkey
        exact hgrow hkey
      | refused hr => exact ⟨rfl, h⟩
    | got hlatch hgot =>
      cases hgot with
      | hit f hmap hf hfree => exact ⟨rfl, fun key g hkey => touched_subset (h key g hkey)⟩
      | load s' f rest buffer eng hmap hens hread hfree hf hlen hlatch' =>
        obtain ⟨hn, -, htable, -, -⟩ := hens.same
        refine ⟨hn, fun key g hkey => ?_⟩
        simp only [BufferPoolManager.loaded, htable] at hkey
        exact hgrow hkey
      | refused hmap hr => exact ⟨rfl, h⟩
    | released => exact ⟨rfl, h⟩
    | dropped => exact ⟨rfl, h⟩
    | overwritten => exact ⟨rfl, h⟩
    | @evicted pgkey r p hlatch hev =>
      cases hev with
      | absent => exact ⟨rfl, h⟩
      | pinned => exact ⟨rfl, h⟩
      | freed f hmap hf hpins =>
        refine ⟨rfl, fun key g hkey => ?_⟩
        have hne : key ≠ pgkey := by
          rintro rfl
          simp [BufferPoolManager.freed] at hkey
        simp only [BufferPoolManager.freed, AList.lookup_erase_ne hne] at hkey
        exact h key g hkey
    | flushed hlatch hlatch' hwb =>
      exact ⟨hwb.quiet.numFrames, fun key g hkey => h key g (hwb.quiet.frameTable ▸ hkey)⟩
    | flushedAll hlatch hlatch' hwb =>
      exact ⟨hwb.quiet.numFrames, fun key g hkey => h key g (hwb.quiet.frameTable ▸ hkey)⟩
  · obtain ⟨p, hp, halike⟩ := hthrew.alike
    have hsame : p.numFrames = s.pool.numFrames ∧ p.frameTable = s.pool.frameTable := by
      rcases hp with rfl | ⟨-, hens⟩
      · exact ⟨rfl, rfl⟩
      · exact ⟨hens.same.1, hens.same.2.2.1⟩
    refine ⟨halike.numFrames.trans hsame.1, fun key g hkey => ?_⟩
    rw [halike.frameTable, hsame.2] at hkey
    exact h key g hkey

omit [Build] in
theorem marked_start (n : Nat) (eng : StorageEngine) :
    Marked [] (start (initial n eng)) {} ∧ Met [] (start (initial n eng)) := by
  refine ⟨⟨Lruk.sim_initial _, fun key f hkey => ?_, fun key => False.elim⟩, fun key f hkey => ?_⟩ <;>
    simp [start, initial, fresh, AList.lookup_empty] at hkey

/-- What holds in the states of a run that needs no more frames than there are. -/
theorem Run.marked {n : Nat} (h : Run Served (PoolSession.start (initial n eng)) past t)
    (hcard : (touched past).card ≤ n) :
    Settled t ∧ t.pool.numFrames = n ∧ Met past t ∧ ∃ st, Marked past t st := by
  induction h with
  | start => exact ⟨settled_start n _ eng, rfl, (marked_start n eng).2, _, (marked_start n eng).1⟩
  | next _ hok hnext ih =>
    obtain ⟨hs, hn, hmet, st, hst⟩ := ih ((Finset.card_le_card touched_subset).trans hcard)
    have hfree := hok.unforced hs hmet hnext (hn ▸ hcard)
    obtain ⟨hn', hmet'⟩ := hmet.next hs hnext
    exact ⟨hs.next hfree hnext, hn'.trans hn, hmet', hst.next hs hfree hok.use hnext⟩

/-! ### Pins and the evictor -/

/-- Live guards pin all frames. -/
def AllPinned (s : PoolSession LRUKEvictor) : Prop :=
  ∀ f < s.pool.numFrames, 0 < s.vars.held .read f + s.vars.held .write f

/-- Just the frames without a pin may be evicted, so a frame is only refused if all are pinned. -/
structure Agrees (s : PoolSession LRUKEvictor) : Prop where
  evictable : ∀ pgkey f, s.pool.frameTable.lookup pgkey = some f →
    (s.pool.shared.evictor.Evictable f ↔ (s.pool.shared.frames f).pins = 0)
  newPage : ∀ tblId p, newPage tblId s.pool = .ok none p → AllPinned s
  getPage : ∀ kind pgkey (g : PageGuard kind) p, getPage kind pgkey s.pool = .ok g p →
    g.isValid = false → AllPinned s

omit [Build] in
theorem Marked.evictable_iff (h : Marked past s st) (hmap : s.pool.frameTable.lookup pgkey = some f) :
    s.pool.shared.evictor.Evictable f ↔
      (s.pool.shared.frames f).pins = 0 ∧ ¬ Unread past pgkey := by
  obtain ⟨tracked, hframes, hev⟩ := h.mapped pgkey f hmap
  rw [h.sim.evictable_iff, ← hev]
  constructor
  · rintro ⟨tracked', hframes', hev'⟩
    rw [hframes, Option.some_inj] at hframes'
    exact hframes' ▸ hev'
  · exact fun hev' => ⟨tracked, hframes, hev'⟩

omit [Build] in
/-- Where nothing can be given up, everything is pinned. -/
theorem Marked.pinned (h : Marked past s st) (hs : Settled s) (hno : ∀ key, ¬ Unread past key)
    (hlatch : s.pool.shared.bpmLatch = false) (hr : s.pool.Refused) : AllPinned s := by
  intro f hf
  have hb := hs.balanced hlatch
  rw [← hb.pins f]
  obtain hfree | ⟨pgkey, hmap⟩ := hs.partitioned.lt_iff.mp hf
  · rw [hr.1] at hfree
    cases hfree
  · by_contra hzero
    have hev := (h.evictable_iff hmap).mpr ⟨by omega, hno pgkey⟩
    obtain ⟨tracked, htracked⟩ := h.sim.evictable_iff.mp hev
    obtain ⟨st', hstep, -⟩ := h.sim.evict (by decide)
    have hnone : s.pool.shared.evictor.evict.1 = none := hr.2
    rw [hnone] at hstep
    cases hstep with
    | none hempty => exact hempty f tracked htracked

theorem latch_of_newPage {tblId : Nat} {r : Option PageKey} (h : newPage tblId s.pool = .ok r p) :
    s.pool.shared.bpmLatch = false := by
  by_contra hb
  have hlatch : s.pool.shared.bpmLatch = true := by simpa using hb
  have hlock : BufferPoolManager.onShared Shared.lock s.pool = .error .diverges s.pool :=
    zoom_error (Shared.lock_blocks hlatch)
  rw [BufferPoolManager.newPage, bind_error hlock] at h
  cases h

theorem refused_of_newPage {tblId : Nat} (h : newPage tblId s.pool = .ok none p) :
    s.pool.Refused := by
  rcases newPage_cases tblId (latch_of_newPage h) with ⟨r, p', hok, hmade⟩ | ⟨e, eng, p', -, -, herr⟩ | hfatal
  · rw [h] at hok
    cases hok
    cases hmade with
    | refused hr => exact hr
  · rw [h] at herr
    cases herr
  · obtain ⟨e, u, herr, -⟩ := hfatal
    rw [h] at herr
    cases herr

theorem refused_of_getPage {g : PageGuard kind} (h : getPage kind pgkey s.pool = .ok g p)
    (hval : g.isValid = false) : s.pool.shared.bpmLatch = false ∧ s.pool.Refused := by
  have hlatch : s.pool.shared.bpmLatch = false := by
    by_contra hb
    rw [getPage_blocks (by simpa using hb)] at h
    cases h
  refine ⟨hlatch, ?_⟩
  rcases getPage_cases kind pgkey hlatch with ⟨g', p', hok, hgot⟩ | ⟨e, eng, p', -, -, -, herr⟩ | hfatal
  · rw [h] at hok
    cases hok
    cases hgot with
    | hit => cases hval
    | load => cases hval
    | refused hmap hr => exact hr
  · rw [h] at herr
    cases herr
  · obtain ⟨e, u, herr, -⟩ := hfatal
    rw [h] at herr
    cases herr

/-- With no more pages than frames, pins and the evictor agree just when each page that `new_page`
made was handed out, or evicted, since. -/
theorem agrees_iff {n : Nat} (h : Run Served (start (initial n eng)) past t)
    (hcard : (touched past).card ≤ n) : Agrees t ↔ ∀ pgkey, ¬ Unread past pgkey := by
  obtain ⟨hs, -, -, st, hst⟩ := h.marked hcard
  constructor
  · intro hagrees pgkey hunread
    obtain ⟨f, hmap, hzero⟩ := hst.unread pgkey hunread
    have hev := (hagrees.evictable pgkey f hmap).mpr hzero
    exact ((hst.evictable_iff hmap).mp hev).2 hunread
  · intro hno
    refine ⟨fun pgkey f hmap => ?_, fun tblId p hnew => ?_, fun kind pgkey g p hget hval => ?_⟩
    · rw [hst.evictable_iff hmap]
      exact and_iff_left (hno pgkey)
    · exact hst.pinned hs hno (latch_of_newPage hnew) (refused_of_newPage hnew)
    · obtain ⟨hlatch, hr⟩ := refused_of_getPage hget hval
      exact hst.pinned hs hno hlatch hr

end Invariant

/-! ### A page that nobody reads -/

section Made

variable [Build]

/-- A page is made in the only frame. -/
theorem run_made : ∃ eng eng₁ page, Run Served (start (initial 1 eng)) [(.newPage 1, some (1, 1))]
    (start ((initial 1 eng).loaded (1, 1) 0 [] page eng₁)) := by
  obtain ⟨eng, -, -, -, hroom, eng₁, eng₂, -, halloc, hread, -⟩ := exists_allocates
  have hfree : (initial 1 eng).freeList ≠ [] := by simp [initial, fresh]
  have hnew : newPage 1 (initial 1 eng) = _ :=
    newPage_made rfl (.free hfree) (.inr ⟨rfl, Nat.one_pos⟩) halloc hread rfl Nat.one_pos length_zeros
  have hok : Served (start (initial 1 eng)) (.newPage 1) :=
    ⟨trivial, by rintro _ ⟨⟩; exact fun m hm => (hroom m hm).1, fun hv => absurd hv.2.1 hfree⟩
  exact ⟨eng, eng₂, _, Run.start.next hok (.inl (onPool_ok (s := start (initial 1 eng)) hnew))⟩

omit [Build] in
theorem agrees_iff_made : ∃ (_ : Build) (eng eng₁ : StorageEngine) (page : List Byte),
    Run Served (start (initial 1 eng)) [(.newPage 1, some (1, 1))]
      (start ((initial 1 eng).loaded (1, 1) 0 [] page eng₁)) ∧
    (Agrees (start ((initial 1 eng).loaded (1, 1) 0 [] page eng₁)) ↔
      ∀ pgkey, ¬ Unread [(.newPage 1, some (1, 1))] pgkey) := by
  let _ : Build := ⟨false⟩
  obtain ⟨eng, eng₁, page, hrun⟩ := run_made
  exact ⟨⟨false⟩, eng, eng₁, page, hrun, agrees_iff hrun (by decide)⟩

omit [Build] in
/-- It is neither pinned nor evictable. -/
theorem stuck_made : ¬ ∀ (_ : Build) (n : Nat) (eng : StorageEngine)
    (past : List (Op × Option PageKey)) (t : PoolSession LRUKEvictor),
    Run Served (start (initial n eng)) past t → (touched past).card ≤ n → Agrees t := by
  intro h
  let _ : Build := ⟨false⟩
  obtain ⟨eng, eng₁, page, hrun⟩ := run_made
  have hagrees := h ⟨false⟩ 1 eng _ _ hrun (by decide)
  obtain ⟨node, hnode, hev⟩ := (hagrees.evictable (1, 1) 0 (AList.lookup_insert _)).mpr rfl
  have heq : node = ⟨[0], false⟩ := (Option.some_inj.mp hnode).symm
  rw [heq] at hev
  cases hev

end Made

end PoolSession

end Cpplite
