import Cpplite.BufferPool.Pool

/-!
What the calls of the pool do: the states in which they return, and in which they throw.
-/
namespace Cpplite

open Exec

namespace BufferPoolManager

section States

variable {E : Type} (s : BufferPoolManager E)

/-- With `bpm_latch_` taken or free. -/
def latched (b : Bool) : BufferPoolManager E := { s with shared := { s.shared with bpmLatch := b } }

variable [Evictor E]

/-- Nothing to give up. -/
def refused : BufferPoolManager E :=
  { s with shared := { s.shared with evictor := (Evictor.evict s.shared.evictor).2 } }

/-- A victim given up. It is still in the frame table. -/
def reclaimed (victim : Nat) : BufferPoolManager E := { s.refused with freeList := [victim] }

/-- A page in the pool is used. -/
def touched (f : Nat) : BufferPoolManager E := { s with shared := { s.shared with
  evictor := Evictor.setEvictable (Evictor.recordAccess s.shared.evictor f) f false } }

/-- A page comes into the first free frame. -/
def loaded (pgkey : PageKey) (f : Nat) (rest : List Nat) (buffer : List Byte)
    (storageEngine : StorageEngine) : BufferPoolManager E where
  numFrames := s.numFrames
  shared := { s.shared with
    frames := Function.update s.shared.frames f { s.shared.frames f with
      dirty := false
      pins := 0
      data := buffer.take pageSize ++ (s.shared.frames f).data.drop pageSize }
    evictor := Evictor.setEvictable (Evictor.recordAccess s.shared.evictor f) f false }
  frameTable := s.frameTable.insert pgkey f
  freeList := rest
  storageEngine := storageEngine

/-- A frame is at hand, taken from a victim if none was free. -/
inductive Ensured (s : BufferPoolManager E) : BufferPoolManager E → Prop where
  | free (h : s.freeList ≠ []) : Ensured s s
  | victim (v : Nat) (h : s.freeList = []) (hv : (Evictor.evict s.shared.evictor).1 = some v) :
      Ensured s (s.reclaimed v)

/-- No frame is at hand. -/
def Refused : Prop := s.freeList = [] ∧ (Evictor.evict s.shared.evictor).1 = none

end States

section Calls

variable {E α : Type} {s s' t : BufferPoolManager E} {pgkey : PageKey} {f : Nat} {rest : List Nat}
  {buffer : List Byte} {eng : StorageEngine} {e : Error}

theorem onStorage_ok {x : StorageM α} {a : α} (h : x s.storageEngine = .ok a eng) :
    onStorage x s = .ok a { s with storageEngine := eng } :=
  zoom_ok h

theorem onStorage_error {x : StorageM α} (h : x s.storageEngine = .error e eng) :
    onStorage x s = .error e { s with storageEngine := eng } :=
  zoom_error h

theorem onShared_lock (h : s.shared.bpmLatch = false) :
    onShared Shared.lock s = .ok () (s.latched true) :=
  zoom_ok (Shared.lock_ok h)

theorem latched_eq (h : s.shared.bpmLatch = false) : s.latched false = s := by
  simp only [BufferPoolManager.latched, ← h]

/-- The latch is given back. -/
theorem unlock_latched (h : s.shared.bpmLatch = false) :
    onShared Shared.unlock (s.latched true) = .ok () s := by
  have hunlock : onShared Shared.unlock (s.latched true) = .ok () (s.latched false) :=
    zoom_ok (Shared.unlock_ok rfl)
  rw [hunlock, latched_eq h]

variable [Evictor E]

/-- Without a free frame, the evictor is asked. -/
theorem ensureFreeFrame_full (h : s.freeList = []) : ensureFreeFrame s =
    (match (Evictor.evict s.shared.evictor).1 with
      | none => pure false
      | some victim => do
        modify fun s => { s with freeList := s.freeList ++ [victim] }
        return true : PoolM E Bool) s.refused := by
  have hset : (set s.refused : PoolM E PUnit) s = .ok ⟨⟩ s.refused := rfl
  rw [ensureFreeFrame, bind_ok get_ok, if_neg (not_not.mpr h)]
  exact bind_ok hset

theorem ensureFreeFrame_ok (h : Ensured s s') : ensureFreeFrame s = .ok true s' := by
  cases h with
  | free h =>
    rw [ensureFreeFrame, bind_ok get_ok, if_pos h]
    rfl
  | victim v h hv =>
    rw [ensureFreeFrame_full h, hv]
    change EStateM.Result.ok true { s.refused with freeList := s.freeList ++ [v] } = _
    rw [h]
    rfl

theorem ensureFreeFrame_refused (h : s.Refused) : ensureFreeFrame s = .ok false s.refused := by
  rw [ensureFreeFrame_full h.1, h.2]
  rfl

theorem ensured_or_refused (s : BufferPoolManager E) : (∃ s', Ensured s s') ∨ s.Refused := by
  by_cases hfree : s.freeList = []
  · cases hev : (Evictor.evict s.shared.evictor).1 with
    | some v => exact .inl ⟨_, .victim v hfree hev⟩
    | none => exact .inr ⟨hfree, hev⟩
  · exact .inl ⟨s, .free hfree⟩

/-- The pool is latched all the time. -/
theorem Ensured.latched (h : Ensured s s') : Ensured (s.latched true) (s'.latched true) := by
  cases h with
  | free h => exact .free h
  | victim v h hv => exact .victim v h hv

theorem Ensured.same (h : Ensured s s') : s'.numFrames = s.numFrames ∧
    s'.storageEngine = s.storageEngine ∧ s'.frameTable = s.frameTable ∧
    s'.shared.frames = s.shared.frames ∧ s'.shared.bpmLatch = s.shared.bpmLatch := by
  cases h <;> exact ⟨rfl, rfl, rfl, rfl, rfl⟩

variable [Build]

omit [Evictor E] in
theorem checkFrame_ok (h : f < s.numFrames) : checkFrame f s = .ok () s := by
  rw [checkFrame, bind_ok get_ok, bind_ok (assert_ok (.inr h)), if_pos h]
  rfl

omit [Evictor E] in
/-- A check that fails ends the process. -/
theorem checkFrame_fails (h : ¬ f < s.numFrames) : Raises (checkFrame f) s (fun e _ => ¬ e.Thrown) := by
  refine .bind_eq get_ok ?_
  by_cases hb : Build.ndebug = true
  · refine .bind_eq (assert_ok (.inl hb)) ?_
    rw [if_neg h]
    exact raises_throw.mpr id
  · exact ⟨.assertion, s, bind_error (assert_fails (by simpa using hb) h), id⟩

omit [Evictor E] [Build] in
theorem copyIn_ok (h : pageSize ≤ buffer.length) : copyIn f buffer s = .ok () { s with
    shared := s.shared.setFrame f { s.shared.frames f with
      data := buffer.take pageSize ++ (s.shared.frames f).data.drop pageSize } } := by
  rw [copyIn, if_pos h]
  rfl

/-- A page is read from the storage and put into a frame. -/
theorem insertFrame_ok (hread : StorageEngine.readPage pgkey [] s.storageEngine = .ok buffer eng)
    (hfree : s.freeList = f :: rest) (hf : f < s.numFrames) (hlen : pageSize ≤ buffer.length) :
    insertFrame pgkey s = .ok f (s.loaded pgkey f rest buffer eng) := by
  generalize hs₁ : ({ s with storageEngine := eng } : BufferPoolManager E) = s₁
  have h1 : onStorage (StorageEngine.readPage pgkey []) s = .ok buffer s₁ := by
    rw [← hs₁]
    exact onStorage_ok hread
  have hfree₁ : s₁.freeList = f :: rest := by rw [← hs₁, hfree]
  generalize hs₂ : ({ s₁ with freeList := rest } : BufferPoolManager E) = s₂
  have h2 : checkFrame f s₂ = .ok () s₂ := checkFrame_ok (by subst hs₁ hs₂; exact hf)
  generalize hs₃ : ({ s₂ with shared := s₂.shared.setFrame f { s₂.shared.frames f with
    dirty := false, pins := 0
    data := List.replicate pageSize 0 ++ (s₂.shared.frames f).data.drop pageSize } } :
      BufferPoolManager E) = s₃
  have h3 : onShared (Shared.onFrame f FrameHeader.reset) s₂ = .ok () s₃ := by
    rw [← hs₃]
    rfl
  have hlast : s.loaded pgkey f rest buffer eng = { s₃ with
      frameTable := s₃.frameTable.insert pgkey f
      shared := { s₃.shared.setFrame f { s₃.shared.frames f with
          data := buffer.take pageSize ++ (s₃.shared.frames f).data.drop pageSize } with
        evictor := Evictor.setEvictable (Evictor.recordAccess s₃.shared.evictor f) f false } } := by
    subst hs₁ hs₂ hs₃
    simp [loaded, Shared.setFrame]
  rw [insertFrame, bind_ok h1, bind_ok get_ok]
  simp only [hfree₁, hs₂]
  rw [bind_ok (show (set s₂ : PoolM E PUnit) s₁ = .ok ⟨⟩ s₂ from rfl), bind_ok h2, bind_ok h3,
    bind_ok (copyIn_ok hlen), hlast]
  rfl

/-- Its three outcomes: the page is in, or an exception of the storage comes through, or the
process ends. -/
theorem insertFrame_cases (pgkey : PageKey) (s : BufferPoolManager E) :
    (∃ buffer eng f rest, StorageEngine.readPage pgkey [] s.storageEngine = .ok buffer eng ∧
      s.freeList = f :: rest ∧ f < s.numFrames ∧ pageSize ≤ buffer.length) ∨
    (∃ e eng, StorageEngine.readPage pgkey [] s.storageEngine = .error e eng ∧
      insertFrame pgkey s = .error e { s with storageEngine := eng }) ∨
    Raises (insertFrame pgkey) s (fun e _ => ¬ e.Thrown) := by
  cases hread : StorageEngine.readPage pgkey [] s.storageEngine with
  | error e eng =>
    exact .inr (.inl ⟨e, eng, rfl, bind_error (onStorage_error hread)⟩)
  | ok buffer eng =>
    cases hfree : s.freeList with
    | nil =>
      refine .inr (.inr (.bind_eq (onStorage_ok hread) (.bind_eq get_ok ?_)))
      simp only [hfree]
      exact raises_throw.mpr id
    | cons f rest =>
      by_cases hf : f < s.numFrames
      · by_cases hlen : pageSize ≤ buffer.length
        · exact .inl ⟨buffer, eng, f, rest, rfl, rfl, hf, hlen⟩
        · refine .inr (.inr (.bind_eq (onStorage_ok hread) (.bind_eq get_ok ?_)))
          simp only [hfree]
          refine .bind_eq (show (set _ : PoolM E PUnit) _ = .ok ⟨⟩ _ from rfl) ?_
          refine .bind_eq (checkFrame_ok hf) ?_
          refine .bind_eq (show onShared (Shared.onFrame f FrameHeader.reset) _ = .ok () _ from rfl) ?_
          refine Raises.bind_left ?_
          rw [copyIn, if_neg hlen]
          exact raises_throw.mpr id
      · refine .inr (.inr (.bind_eq (onStorage_ok hread) (.bind_eq get_ok ?_)))
        simp only [hfree]
        refine .bind_eq (show (set _ : PoolM E PUnit) _ = .ok ⟨⟩ _ from rfl) ?_
        exact Raises.bind_left (checkFrame_fails (s := { s with freeList := rest, storageEngine := eng }) hf)

/-- The ways in which a guard is handed out. -/
inductive GotPage (s : BufferPoolManager E) (kind : GuardKind) (pgkey : PageKey) :
    PageGuard kind → BufferPoolManager E → Prop where
  | hit (f : Nat) (hmap : s.frameTable.lookup pgkey = some f) (hf : f < s.numFrames)
      (hlatch : (s.shared.frames f).Free kind) :
      GotPage s kind pgkey ⟨pgkey, some f, true⟩
        { s with shared := (s.touched f).shared.acquired kind f }
  | load (s' : BufferPoolManager E) (f : Nat) (rest : List Nat) (buffer : List Byte)
      (eng : StorageEngine) (hmap : s.frameTable.lookup pgkey = none) (hs : Ensured s s')
      (hread : StorageEngine.readPage pgkey [] s.storageEngine = .ok buffer eng)
      (hfree : s'.freeList = f :: rest) (hf : f < s.numFrames) (hlen : pageSize ≤ buffer.length)
      (hlatch : (s.shared.frames f).Free kind) :
      GotPage s kind pgkey ⟨pgkey, some f, true⟩ { s'.loaded pgkey f rest buffer eng with
        shared := (s'.loaded pgkey f rest buffer eng).shared.acquired kind f }
  | refused (hmap : s.frameTable.lookup pgkey = none) (h : s.Refused) :
      GotPage s kind pgkey {} s.refused

/-- From a frame to its guard. -/
theorem getPage_found {kind : GuardKind} (h : s.shared.bpmLatch = false)
    (hfind : findFrame pgkey (s.latched true) = .ok (some f) (t.latched true))
    (ht : t.shared.bpmLatch = false) (hf : f < t.numFrames)
    (hfree : (t.shared.frames f).Free kind) :
    getPage kind pgkey s = .ok ⟨pgkey, some f, true⟩ { t with shared := t.shared.acquired kind f } := by
  generalize hu : ({ t with shared := t.shared.acquired kind f } : BufferPoolManager E) = u
  have hc : onShared (PageGuard.construct kind pgkey f) (t.latched true) =
      .ok ⟨pgkey, some f, true⟩ (u.latched true) := by
    rw [← hu]
    exact zoom_ok (PageGuard.construct_ok hfree)
  have hunlock : onShared Shared.unlock (u.latched true) = .ok () u :=
    unlock_latched (by rw [← hu]; exact ht)
  rw [getPage, bind_ok (onShared_lock h), bind_ok hfind]
  change (do
    checkFrame f
    let pageGuard ← onShared (PageGuard.construct kind pgkey f)
    onShared Shared.unlock
    return pageGuard : PoolM E (PageGuard kind)) (t.latched true) = _
  rw [bind_ok (checkFrame_ok (s := t.latched true) hf), bind_ok hc, bind_ok hunlock]
  rfl

/-- A frame that is not there or whose latch is taken. -/
theorem getPage_stuck {kind : GuardKind} (h : s.shared.bpmLatch = false)
    (hfind : findFrame pgkey (s.latched true) = .ok (some f) (t.latched true))
    (hf : ¬ (f < t.numFrames ∧ (t.shared.frames f).Free kind)) :
    Raises (getPage kind pgkey) s (fun e _ => ¬ e.Thrown) := by
  refine .bind_eq (onShared_lock h) (.bind_eq hfind ?_)
  change Raises (do
    checkFrame f
    let pageGuard ← onShared (PageGuard.construct kind pgkey f)
    onShared Shared.unlock
    return pageGuard : PoolM E (PageGuard kind)) (t.latched true) _
  by_cases hlt : f < t.numFrames
  · obtain ⟨e, u, hu, he⟩ := PageGuard.construct_blocks (s := (t.latched true).shared)
      pgkey fun hfree : (t.shared.frames f).Free kind => hf ⟨hlt, hfree⟩
    refine .bind_eq (checkFrame_ok (s := t.latched true) hlt)
      (Raises.bind_left ⟨e, _, zoom_error hu, ?_⟩)
    rw [he]
    exact id
  · exact Raises.bind_left (checkFrame_fails (s := t.latched true) hlt)

theorem findFrame_hit (h : s.frameTable.lookup pgkey = some f) :
    findFrame pgkey s = .ok (some f) (s.touched f) := by
  rw [findFrame, bind_ok get_ok]
  simp only [h]
  rfl

theorem getPage_hit {kind : GuardKind} (h : s.shared.bpmLatch = false)
    (hmap : s.frameTable.lookup pgkey = some f) (hf : f < s.numFrames)
    (hlatch : (s.shared.frames f).Free kind) :
    getPage kind pgkey s =
      .ok ⟨pgkey, some f, true⟩ { s with shared := (s.touched f).shared.acquired kind f } := by
  have hfind : findFrame pgkey (s.latched true) = .ok (some f) ((s.touched f).latched true) :=
    findFrame_hit hmap
  exact getPage_found h hfind h hf hlatch

/-- The way of a page that is not in the pool. -/
theorem findFrame_miss (h : s.frameTable.lookup pgkey = none) :
    findFrame pgkey s = (do
      let free ← ensureFreeFrame
      if free = true then do
        let frameId ← insertFrame pgkey
        return some frameId
      else return none : PoolM E (Option Nat)) s := by
  rw [findFrame, bind_ok get_ok]
  simp only [h]

/-- Neither in the pool nor a frame for it. -/
theorem getPage_refused {kind : GuardKind} (h : s.shared.bpmLatch = false)
    (hmap : s.frameTable.lookup pgkey = none) (hr : s.Refused) :
    getPage kind pgkey s = .ok {} s.refused := by
  have hfind : findFrame pgkey (s.latched true) = .ok none (s.refused.latched true) := by
    rw [findFrame_miss (s := s.latched true) hmap,
      bind_ok (ensureFreeFrame_refused (s := s.latched true) hr)]
    rfl
  have hunlock : onShared Shared.unlock (s.refused.latched true) = .ok () s.refused :=
    unlock_latched h
  rw [getPage, bind_ok (onShared_lock h), bind_ok hfind]
  exact bind_ok hunlock

/-- A page is brought in. -/
theorem findFrame_load (hmap : s.frameTable.lookup pgkey = none) (hs : Ensured s s')
    (hread : StorageEngine.readPage pgkey [] s.storageEngine = .ok buffer eng)
    (hfree : s'.freeList = f :: rest) (hf : f < s.numFrames) (hlen : pageSize ≤ buffer.length) :
    findFrame pgkey s = .ok (some f) (s'.loaded pgkey f rest buffer eng) := by
  obtain ⟨hn, heng, -, -, -⟩ := hs.same
  have hins := insertFrame_ok (heng ▸ hread) hfree (hn ▸ hf) hlen
  rw [findFrame_miss hmap, bind_ok (ensureFreeFrame_ok hs), if_pos rfl]
  exact bind_ok hins

theorem getPage_load {kind : GuardKind} (h : s.shared.bpmLatch = false)
    (hmap : s.frameTable.lookup pgkey = none) (hs : Ensured s s')
    (hread : StorageEngine.readPage pgkey [] s.storageEngine = .ok buffer eng)
    (hfree : s'.freeList = f :: rest) (hf : f < s.numFrames) (hlen : pageSize ≤ buffer.length)
    (hlatch : (s.shared.frames f).Free kind) :
    getPage kind pgkey s = .ok ⟨pgkey, some f, true⟩ { s'.loaded pgkey f rest buffer eng with
      shared := (s'.loaded pgkey f rest buffer eng).shared.acquired kind f } := by
  obtain ⟨hn, -, -, hframes, hb⟩ := hs.same
  have hfind : findFrame pgkey (s.latched true) =
      .ok (some f) ((s'.loaded pgkey f rest buffer eng).latched true) :=
    findFrame_load (s := s.latched true) hmap hs.latched hread hfree hf hlen
  refine getPage_found h hfind (hb.trans h) (hn ▸ hf) ?_
  cases kind <;> simpa [loaded, FrameHeader.Free, hframes] using hlatch

/-- `read_page` and `write_page` return, or throw what the storage throws, or never come back. -/
theorem getPage_cases (kind : GuardKind) (pgkey : PageKey) (h : s.shared.bpmLatch = false) :
    (∃ g t, getPage kind pgkey s = .ok g t ∧ GotPage s kind pgkey g t) ∨
    (∃ e eng, ∃ s', s.frameTable.lookup pgkey = none ∧ Ensured s s' ∧
      StorageEngine.readPage pgkey [] s.storageEngine = .error e eng ∧
      getPage kind pgkey s = .error e ({ s' with storageEngine := eng }.latched true)) ∨
    Raises (getPage kind pgkey) s (fun e _ => ¬ e.Thrown) := by
  cases hmap : s.frameTable.lookup pgkey with
  | some f =>
    have hfind : findFrame pgkey (s.latched true) = .ok (some f) ((s.touched f).latched true) :=
      findFrame_hit hmap
    by_cases hok : f < s.numFrames ∧ (s.shared.frames f).Free kind
    · exact .inl ⟨_, _, getPage_hit h hmap hok.1 hok.2, .hit f hmap hok.1 hok.2⟩
    · exact .inr (.inr (getPage_stuck h hfind hok))
  | none =>
    have hmiss := findFrame_miss (s := s.latched true) hmap
    rcases ensured_or_refused s with ⟨s', hs⟩ | hr
    · obtain ⟨hn, heng, htable, hframes, hb⟩ := hs.same
      have hens := ensureFreeFrame_ok hs.latched
      rw [bind_ok hens, if_pos rfl] at hmiss
      rcases insertFrame_cases pgkey (s'.latched true) with
        ⟨buffer, eng, f, rest, hread, hfree, hf, hlen⟩ | ⟨e, eng, hread, hins⟩ | hfatal
      · have hread' : StorageEngine.readPage pgkey [] s.storageEngine = .ok buffer eng := heng ▸ hread
        have hf' : f < s.numFrames := hn ▸ hf
        by_cases hlatch : (s.shared.frames f).Free kind
        · exact .inl ⟨_, _, getPage_load h hmap hs hread' hfree hf' hlen hlatch,
            .load s' f rest buffer eng hmap hs hread' hfree hf' hlen hlatch⟩
        · have hfind : findFrame pgkey (s.latched true) =
              .ok (some f) ((s'.loaded pgkey f rest buffer eng).latched true) :=
            findFrame_load (s := s.latched true) hmap hs.latched hread' hfree hf' hlen
          refine .inr (.inr (getPage_stuck h hfind fun hok => hlatch ?_))
          cases kind <;> simpa [loaded, FrameHeader.Free, hframes] using hok.2
      · rw [bind_error hins] at hmiss
        refine .inr (.inl ⟨e, eng, s', rfl, hs, heng ▸ hread, ?_⟩)
        rw [getPage, bind_ok (onShared_lock h), bind_error hmiss]
        rfl
      · refine .inr (.inr (.bind_eq (onShared_lock h) (Raises.bind_left ?_)))
        rw [Raises, hmiss]
        exact hfatal.bind_left
    · exact .inl ⟨{}, s.refused, getPage_refused h hmap hr, .refused hmap hr⟩

/-- The assertions of `new_page` and of `size`, which it calls. -/
def Counted (s : BufferPoolManager E) : Prop :=
  Build.ndebug = true ∨ (s.freeList.length + s.frameTable.entries.length = s.numFrames ∧
    s.frameTable.entries.length < s.numFrames)

/-- The ways in which `new_page` returns. -/
inductive MadePage (s : BufferPoolManager E) (tblId : Nat) :
    Option PageKey → BufferPoolManager E → Prop where
  | made (s' : BufferPoolManager E) (pgkey : PageKey) (f : Nat) (rest : List Nat)
      (buffer : List Byte) (eng₁ eng₂ : StorageEngine) (hs : Ensured s s') (hcount : Counted s')
      (halloc : StorageEngine.allocatePage tblId s.storageEngine = .ok pgkey eng₁)
      (hread : StorageEngine.readPage pgkey [] eng₁ = .ok buffer eng₂)
      (hfree : s'.freeList = f :: rest) (hf : f < s.numFrames) (hlen : pageSize ≤ buffer.length) :
      MadePage s tblId (some pgkey) (s'.loaded pgkey f rest buffer eng₂)
  | refused (h : s.Refused) : MadePage s tblId none s.refused

omit [Evictor E] in
theorem checkCount_ok (h : Counted s) (hfree : s.freeList ≠ []) : checkCount s = .ok () s := by
  have hpos : 0 < s.freeList.length := List.length_pos_iff.mpr hfree
  have hsize : size s = .ok s.frameTable.entries.length s := by
    rw [size, bind_ok get_ok, bind_ok (assert_ok (h.imp_right And.left))]
    rfl
  rw [checkCount, bind_ok get_ok, bind_ok hsize]
  exact assert_ok (h.imp_right fun hc => ⟨hpos, hc.2⟩)

omit [Evictor E] in
theorem checkCount_fails (h : ¬ Counted s) : Raises checkCount s (fun e _ => ¬ e.Thrown) := by
  have hb : Build.ndebug = false := by
    by_contra hb
    exact h (.inl (by simpa using hb))
  refine .bind_eq get_ok ?_
  by_cases hsum : s.freeList.length + s.frameTable.entries.length = s.numFrames
  · have hsize : size s = .ok s.frameTable.entries.length s := by
      rw [size, bind_ok get_ok, bind_ok (assert_ok (.inr hsum))]
      rfl
    refine .bind_eq hsize ⟨.assertion, s, assert_fails hb ?_, id⟩
    exact fun hc => h (.inr ⟨hsum, hc.2⟩)
  · refine Raises.bind_left (.bind_eq get_ok (Raises.bind_left ?_))
    exact ⟨.assertion, s, assert_fails hb hsum, id⟩

omit [Build] in
theorem Ensured.freeList_ne_nil (h : Ensured s s') : s'.freeList ≠ [] := by
  cases h with
  | free h => exact h
  | victim v _ _ => exact List.cons_ne_nil _ _

/-- The storage throws in the middle of `new_page`. -/
def AllocThrows (tblId : Nat) (s : BufferPoolManager E) (e : Error) (eng : StorageEngine) : Prop :=
  StorageEngine.allocatePage tblId s.storageEngine = .error e eng ∨
    ∃ pgkey eng₁, StorageEngine.allocatePage tblId s.storageEngine = .ok pgkey eng₁ ∧
      StorageEngine.readPage pgkey [] eng₁ = .error e eng

theorem newPage_counted (tblId : Nat) (h : s.shared.bpmLatch = false) (hs : Ensured s s')
    (hcount : Counted s') : newPage tblId s = (do
      let pgkey ← onStorage (StorageEngine.allocatePage tblId)
      let _ ← insertFrame pgkey
      onShared Shared.unlock
      return some pgkey : PoolM E (Option PageKey)) (s'.latched true) := by
  rw [newPage, bind_ok (onShared_lock h), bind_ok (ensureFreeFrame_ok hs.latched), if_pos rfl]
  exact bind_ok (checkCount_ok (s := s'.latched true) hcount hs.freeList_ne_nil)

theorem newPage_made {tblId : Nat} {eng₁ : StorageEngine} (h : s.shared.bpmLatch = false)
    (hs : Ensured s s') (hcount : Counted s')
    (halloc : StorageEngine.allocatePage tblId s.storageEngine = .ok pgkey eng₁)
    (hread : StorageEngine.readPage pgkey [] eng₁ = .ok buffer eng)
    (hfree : s'.freeList = f :: rest) (hf : f < s.numFrames) (hlen : pageSize ≤ buffer.length) :
    newPage tblId s = .ok (some pgkey) (s'.loaded pgkey f rest buffer eng) := by
  obtain ⟨hn, heng, -, -, hb⟩ := hs.same
  have hok : onStorage (StorageEngine.allocatePage tblId) (s'.latched true) =
      .ok pgkey ({ s' with storageEngine := eng₁ }.latched true) :=
    onStorage_ok (s := s'.latched true) (heng ▸ halloc)
  have hins : insertFrame pgkey ({ s' with storageEngine := eng₁ }.latched true) =
      .ok f ((s'.loaded pgkey f rest buffer eng).latched true) :=
    insertFrame_ok hread hfree (hn ▸ hf) hlen
  have hunlock : onShared Shared.unlock ((s'.loaded pgkey f rest buffer eng).latched true) =
      .ok () (s'.loaded pgkey f rest buffer eng) := unlock_latched (hb.trans h)
  rw [newPage_counted tblId h hs hcount, bind_ok hok, bind_ok hins]
  exact bind_ok hunlock

theorem newPage_refused {tblId : Nat} (h : s.shared.bpmLatch = false) (hr : s.Refused) :
    newPage tblId s = .ok none s.refused := by
  have hens := ensureFreeFrame_refused (s := s.latched true) hr
  have hunlock : onShared Shared.unlock (s.refused.latched true) = .ok () s.refused :=
    unlock_latched h
  rw [newPage, bind_ok (onShared_lock h), bind_ok hens, if_neg (by simp)]
  exact bind_ok hunlock

theorem newPage_cases (tblId : Nat) (h : s.shared.bpmLatch = false) :
    (∃ r t, newPage tblId s = .ok r t ∧ MadePage s tblId r t) ∨
    (∃ e eng, ∃ s', Ensured s s' ∧ AllocThrows tblId s e eng ∧
      newPage tblId s = .error e ({ s' with storageEngine := eng }.latched true)) ∨
    Raises (newPage tblId) s (fun e _ => ¬ e.Thrown) := by
  rcases ensured_or_refused s with ⟨s', hs⟩ | hr
  · obtain ⟨hn, heng, -, -, hb⟩ := hs.same
    by_cases hcount : Counted s'
    · have hnew := newPage_counted tblId h hs hcount
      cases halloc : StorageEngine.allocatePage tblId s.storageEngine with
      | error e eng =>
        have herr : onStorage (StorageEngine.allocatePage tblId) (s'.latched true) =
            .error e ({ s' with storageEngine := eng }.latched true) :=
          onStorage_error (s := s'.latched true) (heng ▸ halloc)
        exact .inr (.inl ⟨e, eng, s', hs, .inl halloc, by rw [hnew, bind_error herr]⟩)
      | ok pgkey eng₁ =>
        have hok : onStorage (StorageEngine.allocatePage tblId) (s'.latched true) =
            .ok pgkey ({ s' with storageEngine := eng₁ }.latched true) :=
          onStorage_ok (s := s'.latched true) (heng ▸ halloc)
        rcases insertFrame_cases pgkey ({ s' with storageEngine := eng₁ }.latched true) with
          ⟨buffer, eng₂, f, rest, hread, hfree, hf, hlen⟩ | ⟨e, eng₂, hread, hins⟩ | hfatal
        · exact .inl ⟨_, _, newPage_made h hs hcount halloc hread hfree (hn ▸ hf) hlen,
            .made s' pgkey f rest buffer eng₁ eng₂ hs hcount halloc hread hfree (hn ▸ hf) hlen⟩
        · rw [bind_ok hok, bind_error hins] at hnew
          exact .inr (.inl ⟨e, eng₂, s', hs, .inr ⟨pgkey, eng₁, halloc, hread⟩, hnew⟩)
        · refine .inr (.inr ?_)
          rw [Raises, hnew, bind_ok hok]
          exact hfatal.bind_left
    · refine .inr (.inr (.bind_eq (onShared_lock h) (.bind_eq (ensureFreeFrame_ok hs.latched) ?_)))
      rw [if_pos rfl]
      exact Raises.bind_left (checkCount_fails (s := s'.latched true) hcount)
  · exact .inl ⟨none, s.refused, newPage_refused h hr, .refused hr⟩

/-! ### Giving frames back -/

/-- A frame is emptied and free. -/
def freed (s : BufferPoolManager E) (pgkey : PageKey) (f : Nat) : BufferPoolManager E where
  numFrames := s.numFrames
  shared := { s.shared with
    frames := Function.update s.shared.frames f { s.shared.frames f with
      dirty := false
      pins := 0
      data := List.replicate pageSize 0 ++ (s.shared.frames f).data.drop pageSize }
    evictor := Evictor.remove s.shared.evictor f }
  frameTable := s.frameTable.erase pgkey
  freeList := s.freeList ++ [f]
  storageEngine := s.storageEngine

/-- The ways in which `evict_page` returns. -/
inductive Evicted (s : BufferPoolManager E) (pgkey : PageKey) : Bool → BufferPoolManager E → Prop where
  | absent (hmap : s.frameTable.lookup pgkey = none) : Evicted s pgkey true s
  | pinned (f : Nat) (hmap : s.frameTable.lookup pgkey = some f)
      (hpins : 0 < (s.shared.frames f).pins) : Evicted s pgkey false s
  | freed (f : Nat) (hmap : s.frameTable.lookup pgkey = some f) (hf : f < s.numFrames)
      (hpins : (s.shared.frames f).pins = 0) : Evicted s pgkey true (s.freed pgkey f)

theorem evictPage_mapped (h : s.shared.bpmLatch = false) (hmap : s.frameTable.lookup pgkey = some f) :
    evictPage pgkey s = (do
      checkFrame f
      if (s.shared.frames f).pins > 0 then do
        onShared Shared.unlock
        return false
      else do
        modify fun s => { s with frameTable := s.frameTable.erase pgkey }
        onShared (Shared.onFrame f FrameHeader.reset)
        modify fun s => { s with freeList := s.freeList ++ [f] }
        modify fun s => { s with shared := { s.shared with
          evictor := Evictor.remove s.shared.evictor f } }
        onShared Shared.unlock
        return true : PoolM E Bool) (s.latched true) := by
  have hlook : (s.latched true).frameTable.lookup pgkey = some f := hmap
  have hstart : evictPage pgkey s = _ := bind_ok (onShared_lock h)
  rw [bind_ok get_ok, hlook] at hstart
  exact hstart

theorem evictPage_freed (h : s.shared.bpmLatch = false) (hmap : s.frameTable.lookup pgkey = some f)
    (hf : f < s.numFrames) (hpins : (s.shared.frames f).pins = 0) :
    evictPage pgkey s = .ok true (s.freed pgkey f) := by
  have hcheck : checkFrame f (s.latched true) = .ok () (s.latched true) := checkFrame_ok hf
  have hlast : onShared Shared.unlock ((s.freed pgkey f).latched true) =
      .ok () (s.freed pgkey f) := unlock_latched h
  rw [evictPage_mapped h hmap, bind_ok hcheck, if_neg (by omega)]
  change (do
    onShared Shared.unlock
    return true : PoolM E Bool) ((s.freed pgkey f).latched true) = _
  exact bind_ok hlast

theorem evictPage_cases (pgkey : PageKey) (h : s.shared.bpmLatch = false) :
    (∃ r t, evictPage pgkey s = .ok r t ∧ Evicted s pgkey r t) ∨
    Raises (evictPage pgkey) s (fun e _ => ¬ e.Thrown) := by
  have hunlock : onShared Shared.unlock (s.latched true) = .ok () s := unlock_latched h
  cases hmap : s.frameTable.lookup pgkey with
  | none =>
    have hlook : (s.latched true).frameTable.lookup pgkey = none := hmap
    have hstart : evictPage pgkey s = _ := bind_ok (onShared_lock h)
    rw [bind_ok get_ok, hlook] at hstart
    exact .inl ⟨true, s, hstart.trans (bind_ok hunlock), .absent hmap⟩
  | some f =>
    by_cases hf : f < s.numFrames
    · by_cases hpins : 0 < (s.shared.frames f).pins
      · have hcheck : checkFrame f (s.latched true) = .ok () (s.latched true) := checkFrame_ok hf
        refine .inl ⟨false, s, ?_, .pinned f hmap hpins⟩
        rw [evictPage_mapped h hmap, bind_ok hcheck, if_pos hpins]
        exact bind_ok hunlock
      · exact .inl ⟨true, _, evictPage_freed h hmap hf (by omega), .freed f hmap hf (by omega)⟩
    · refine .inr ?_
      rw [Raises, evictPage_mapped h hmap]
      exact Raises.bind_left (checkFrame_fails (s := s.latched true) hf)

/-! ### Writing back -/

/-- A frame after it was written back. -/
def flushed (s : BufferPoolManager E) (f : Nat) (eng : StorageEngine) : BufferPoolManager E :=
  { s with
    shared := s.shared.setFrame f { s.shared.frames f with dirty := false }
    storageEngine := eng }

/-- A frame with its latch taken to write it back. -/
def writing (s : BufferPoolManager E) (f : Nat) : BufferPoolManager E :=
  { s with shared := s.shared.setFrame f { s.shared.frames f with writer := true } }

omit [Evictor E] [Build] in
theorem writing_data (s : BufferPoolManager E) (f : Nat) :
    ((s.writing f).shared.frames f).data = (s.shared.frames f).data := by
  simp [writing, Shared.setFrame]

omit [Evictor E] in
theorem flushFrame_writing (hf : f < s.numFrames) (hfree : (s.shared.frames f).Free .write) :
    flushFrame pgkey f s = (do
      let _ ← onStorage (StorageEngine.writePage pgkey (s.shared.frames f).data)
      onShared (Shared.onFrame f (FrameHeader.setDirty false))
      onShared (Shared.onFrame f FrameHeader.unlockWrite) : PoolM E Unit) (s.writing f) := by
  have hframe := PageGuard.lockFrame_ok hfree
  have hcheck : checkFrame f s = .ok () s := checkFrame_ok hf
  have hlock : onShared (Shared.onFrame f FrameHeader.lockWrite) s = .ok () (s.writing f) :=
    zoom_ok (Shared.onFrame_ok hframe)
  have hstart : flushFrame pgkey f s = _ := (bind_ok hcheck).trans (bind_ok hlock)
  rw [bind_ok get_ok, writing_data] at hstart
  exact hstart

omit [Evictor E] in
theorem flushFrame_ok (hf : f < s.numFrames) (hfree : (s.shared.frames f).Free .write)
    (hw : StorageEngine.writePage pgkey (s.shared.frames f).data s.storageEngine = .ok buffer eng) :
    flushFrame pgkey f s = .ok () (s.flushed f eng) := by
  have hok : onStorage (StorageEngine.writePage pgkey (s.shared.frames f).data) (s.writing f) =
      .ok buffer { s.writing f with storageEngine := eng } := onStorage_ok hw
  rw [flushFrame_writing hf hfree, bind_ok hok]
  generalize hs₁ : ({ s.writing f with
    shared := (s.writing f).shared.setFrame f { (s.writing f).shared.frames f with dirty := false }
    storageEngine := eng } : BufferPoolManager E) = s₁
  have hclean : onShared (Shared.onFrame f (FrameHeader.setDirty false))
      { s.writing f with storageEngine := eng } = .ok () s₁ := by
    rw [← hs₁]
    rfl
  have hheld : (s₁.shared.frames f).Held .write := by
    simp [← hs₁, writing, Shared.setFrame, FrameHeader.Held]
  have hframe := PageGuard.unlockFrame_ok hheld
  have hunlock : onShared (Shared.onFrame f FrameHeader.unlockWrite) s₁ = _ :=
    zoom_ok (Shared.onFrame_ok hframe)
  refine (bind_ok hclean).trans (hunlock.trans ?_)
  have hwriter : (s.shared.frames f).writer = false := hfree.1
  simp [← hs₁, flushed, writing, Shared.setFrame, FrameHeader.unlatched, hwriter]

omit [Evictor E] in
/-- The ways in which both flushes deal with a frame. -/
theorem flushFrame_cases (pgkey : PageKey) (f : Nat) (s : BufferPoolManager E) :
    (∃ buffer eng, f < s.numFrames ∧ (s.shared.frames f).Free .write ∧
      StorageEngine.writePage pgkey (s.shared.frames f).data s.storageEngine = .ok buffer eng ∧
      flushFrame pgkey f s = .ok () (s.flushed f eng)) ∨
    (∃ e eng, StorageEngine.writePage pgkey (s.shared.frames f).data s.storageEngine = .error e eng ∧
      flushFrame pgkey f s = .error e { s with
        shared := s.shared.setFrame f { s.shared.frames f with writer := true }
        storageEngine := eng }) ∨
    Raises (flushFrame pgkey f) s (fun e _ => ¬ e.Thrown) := by
  by_cases hf : f < s.numFrames
  · by_cases hfree : (s.shared.frames f).Free .write
    · cases hw : StorageEngine.writePage pgkey (s.shared.frames f).data s.storageEngine with
      | error e eng =>
        have herr : onStorage (StorageEngine.writePage pgkey (s.shared.frames f).data) (s.writing f) =
            .error e { s.writing f with storageEngine := eng } := onStorage_error hw
        exact .inr (.inl ⟨e, eng, rfl, by rw [flushFrame_writing hf hfree, bind_error herr]; rfl⟩)
      | ok buffer eng => exact .inl ⟨buffer, eng, hf, hfree, rfl, flushFrame_ok hf hfree hw⟩
    · have hframe := PageGuard.lockFrame_blocks hfree
      have hlock : onShared (Shared.onFrame f FrameHeader.lockWrite) s = .error .diverges _ :=
        zoom_error (Shared.onFrame_error hframe)
      exact .inr (.inr (.bind_eq (checkFrame_ok hf) ⟨_, _, bind_error hlock, id⟩))
  · exact .inr (.inr (Raises.bind_left (checkFrame_fails hf)))

/-! ### A page that cannot be read -/

/-- The call throws and leaves its pool as it was, but for the storage. -/
def Unharmed (kind : GuardKind) (pgkey : PageKey) (s : BufferPoolManager E) : Prop :=
  ∃ e t, getPage kind pgkey s = .error e t ∧ e.Thrown ∧ t.shared.bpmLatch = false ∧
    t.frameTable = s.frameTable ∧ t.freeList = s.freeList ∧ t.shared.frames = s.shared.frames ∧
    t.shared.evictor = s.shared.evictor

theorem getPage_blocks {kind : GuardKind} (h : s.shared.bpmLatch = true) :
    getPage kind pgkey s = .error .diverges s :=
  bind_error (zoom_error (Shared.lock_blocks h))

/-- Whatever the call throws, it keeps the latch. -/
theorem latched_of_thrown {kind : GuardKind} (h : getPage kind pgkey s = .error e t)
    (he : e.Thrown) : t.shared.bpmLatch = true := by
  by_cases hb : s.shared.bpmLatch = true
  · rw [getPage_blocks hb] at h
    cases h
    exact he.elim
  · rcases getPage_cases (s := s) kind pgkey (by simpa using hb) with
      ⟨g, u, hok, -⟩ | ⟨e', eng, s', -, -, -, herr⟩ | ⟨e', u, herr, hfatal⟩
    · rw [h] at hok
      cases hok
    · rw [h] at herr
      cases herr
      rfl
    · rw [h] at herr
      cases herr
      exact absurd he hfatal

/-- A page that is not in the pool and that the storage cannot read. -/
theorem getPage_unreadable (kind : GuardKind) (h : s.shared.bpmLatch = false)
    (hmap : s.frameTable.lookup pgkey = none)
    (hread : StorageEngine.readPage pgkey [] s.storageEngine = .error e eng) :
    (s.Refused ∧ getPage kind pgkey s = .ok {} s.refused) ∨
      ∃ s', Ensured s s' ∧
        getPage kind pgkey s = .error e ({ s' with storageEngine := eng }.latched true) := by
  have hmiss := findFrame_miss (s := s.latched true) hmap
  rcases ensured_or_refused s with ⟨s', hs⟩ | hr
  · have hstorage : s'.storageEngine = s.storageEngine := hs.same.2.1
    have hins : insertFrame pgkey (s'.latched true) =
        .error e ({ s' with storageEngine := eng }.latched true) :=
      bind_error (onStorage_error (s := s'.latched true) (hstorage ▸ hread))
    rw [bind_ok (ensureFreeFrame_ok hs.latched), if_pos rfl, bind_error hins] at hmiss
    exact .inr ⟨s', hs, by rw [getPage, bind_ok (onShared_lock h), bind_error hmiss]⟩
  · exact .inl ⟨hr, getPage_refused h hmap hr⟩

/-- Where the storage throws, `read_page` and `write_page` never leave the pool unharmed. If no
frame is at hand the caller gets a guard that is not valid and no exception; else `bpm_latch_`
stays taken, and the next call waits for it for ever. -/
theorem never_unharmed (kind : GuardKind) (hmap : s.frameTable.lookup pgkey = none)
    (hread : StorageEngine.readPage pgkey [] s.storageEngine = .error e eng) (he : e.Thrown) :
    ¬ Unharmed kind pgkey s ∧ (s.shared.bpmLatch = false →
      (s.Refused ∧ getPage kind pgkey s = .ok {} s.refused) ∨
        ∃ t, getPage kind pgkey s = .error e t ∧ e.Thrown ∧
          ∀ kind' pgkey', getPage kind' pgkey' t = .error .diverges t) := by
  constructor
  · rintro ⟨e', t, herr, he', hb, -⟩
    rw [latched_of_thrown herr he'] at hb
    cases hb
  · intro h
    refine (getPage_unreadable kind h hmap hread).imp_right ?_
    rintro ⟨s', -, herr⟩
    exact ⟨_, herr, he, fun _ _ => getPage_blocks rfl⟩

end Calls

/-- A pool of one frame, over a table of one page. -/
def small : BufferPoolManager LRUKEvictor :=
  initial 1 ⟨⟨"base", none, [1], (∅ : AList _).insert (1, 0) 0, fun _ => List.replicate pageSize 0, 1⟩,
    {}, (0, 0), (∅ : AList _).insert 1 ⟨0, 1⟩, {}⟩

theorem small_unreadable [Build] : StorageEngine.readPage (1, 5) [] small.storageEngine =
    .error (.runtimeError "[StorageEngine:read_page]: Attempted to read past last page")
      small.storageEngine :=
  rfl

theorem never_unharmed_small : ¬ @Unharmed _ _ ⟨false⟩ .read (1, 5) small :=
  (@never_unharmed _ _ _ _ _ _ ⟨false⟩ .read rfl (@small_unreadable ⟨false⟩) trivial).1

/-- The page is past the table's last. -/
theorem harmed_small : ¬ ∀ (_ : Build) (s : BufferPoolManager LRUKEvictor) (kind : GuardKind)
    (pgkey : PageKey) (e : Error) (eng : StorageEngine), s.frameTable.lookup pgkey = none →
    StorageEngine.readPage pgkey [] s.storageEngine = .error e eng → e.Thrown →
    Unharmed kind pgkey s := by
  intro h
  obtain ⟨e, t, herr, he, hb, -⟩ :=
    h ⟨false⟩ small .read (1, 5) _ _ rfl (@small_unreadable ⟨false⟩) trivial
  rw [@latched_of_thrown _ _ _ _ _ _ ⟨false⟩ _ herr he] at hb
  cases hb

end BufferPoolManager

end Cpplite
