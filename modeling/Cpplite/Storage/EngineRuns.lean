import Cpplite.Storage.EngineSpec

/-!
Runs of a storage engine over a new directory: the tables it serves.

A table that is used through the engine is the list of its pages from page 1 on; how it is cut into
files, which of them are open and what page 0 holds is not seen.
-/
namespace Cpplite

open Exec

namespace StorageEngine

inductive Op where
  | createTable (tblId : Nat)
  | allocatePage (tblId : Nat)
  | writePage (pgkey : PageKey) (buffer : List Byte)
  | readPage (pgkey : PageKey)
  | flushTable (tblId : Nat)

inductive Answer where
  | done
  | page (pgkey : PageKey)
  | bytes (content : List Byte)
  /-- An exception. -/
  | threw
  /-- The end of the process. -/
  | aborted

/-- A call, with what its caller gets. -/
def answer {α : Type} (x : StorageM α) (got : α → Answer) (s : StorageEngine) : Answer × StorageEngine :=
  match x s with
  | .ok a t => (got a, t)
  | .error (.runtimeError _) t | .error (.outOfRange _) t => (.threw, t)
  | .error _ t => (.aborted, t)

def Op.run [Build] : Op → StorageEngine → Answer × StorageEngine
  | .createTable tblId => answer (StorageEngine.createTable tblId) (fun _ => .done)
  | .allocatePage tblId => answer (StorageEngine.allocatePage tblId) .page
  | .writePage pgkey buffer => answer (StorageEngine.writePage pgkey buffer) (fun _ => .done)
  | .readPage pgkey => answer (StorageEngine.readPage pgkey []) .bytes
  | .flushTable tblId => answer (StorageEngine.flushTable tblId) (fun _ => .done)

def runAll [Build] : List Op → StorageEngine → List Answer × StorageEngine
  | [], s => ([], s)
  | op :: ops, s =>
    let first := op.run s
    let rest := runAll ops first.2
    (first.1 :: rest.1, rest.2)

/-- Pages are written whole, and allocated where their offsets are below `2^63`. -/
def Op.Allowed (s : StorageEngine) : Op → Prop
  | .writePage _ buffer => buffer.length = s.config.pageSize
  | .allocatePage tblId =>
    ∀ metadata, s.tableMetadata.lookup tblId = some metadata → InReach s.config (metadata.lastPgno + 1)
  | _ => True

def AllowedAll [Build] : List Op → StorageEngine → Prop
  | [], _ => True
  | op :: ops, s => op.Allowed s ∧ AllowedAll ops (op.run s).2

/-! ### What an engine serves -/

/-- What each operation answers and changes, in terms of the tables' pages from page 1 on. -/
inductive Serves (config : EngineConfig) (V : Tables) : Op → Answer → Tables → Prop where
  | create (t : Nat) (h : V t = none) :
      Serves config V (.createTable t) .done (Function.update V t (some []))
  | createThrows (t : Nat) (h : V t ≠ none) : Serves config V (.createTable t) .threw V
  | allocate (t : Nat) (pages : List (List Byte)) (h : V t = some pages) :
      Serves config V (.allocatePage t) (.page (t, pages.length + 1))
        (Function.update V t (some (pages ++ [zeros config])))
  | allocateFails (t : Nat) (a : Answer) (h : V t = none) (ha : a = .threw ∨ a = .aborted) :
      Serves config V (.allocatePage t) a V
  | write (t p : Nat) (buffer : List Byte) (pages : List (List Byte)) (h : V t = some pages)
      (hp : p < pages.length) :
      Serves config V (.writePage (t, p + 1) buffer) .done
        (Function.update V t (some (pages.set p buffer)))
  /-- Page 0 is the engine's own. -/
  | writeFirst (t : Nat) (buffer : List Byte) (h : V t ≠ none) :
      Serves config V (.writePage (t, 0) buffer) .done V
  | writePast (t p : Nat) (buffer : List Byte) (h : ∀ pages, V t = some pages → pages.length < p) :
      Serves config V (.writePage (t, p) buffer) .threw V
  | read (t p : Nat) (pages : List (List Byte)) (page : List Byte) (h : V t = some pages)
      (hp : pages[p]? = some page) : Serves config V (.readPage (t, p + 1)) (.bytes page) V
  | readFirst (t : Nat) (page : List Byte) (h : V t ≠ none) :
      Serves config V (.readPage (t, 0)) (.bytes page) V
  | readPast (t p : Nat) (h : ∀ pages, V t = some pages → pages.length < p) :
      Serves config V (.readPage (t, p)) .threw V
  | flush (t : Nat) (h : V t ≠ none) : Serves config V (.flushTable t) .done V
  | flushThrows (t : Nat) (h : V t = none) : Serves config V (.flushTable t) .threw V

inductive ServesAll (config : EngineConfig) : Tables → List Op → List Answer → Tables → Prop where
  | nil (V : Tables) : ServesAll config V [] [] V
  | cons {V V' V'' : Tables} {op : Op} {a : Answer} {ops : List Op} {answers : List Answer} :
      Serves config V op a V' → ServesAll config V' ops answers V'' →
      ServesAll config V (op :: ops) (a :: answers) V''

/-- The pages without page 0. -/
def Tables.user (T : Tables) : Tables := fun t => (T t).map List.tail

section Run

variable {s : StorageEngine} {T : Tables} {t : Nat} {ps : List (List Byte)}

theorem user_update : Tables.user (Function.update T t (some ps)) =
    Function.update (Tables.user T) t (some ps.tail) := by
  funext x
  by_cases hx : x = t
  · subst hx
    simp [Tables.user]
  · simp [Tables.user, hx]

theorem user_eq_none : Tables.user T t = none ↔ T t = none := by
  simp [Tables.user]

/-- A table with its page 0. -/
theorem Kept.cons (h : Kept s T) (ht : T t = some ps) : ∃ first pages, ps = first :: pages ∧
    Tables.user T t = some pages := by
  obtain ⟨first, pages, rfl⟩ := List.exists_cons_of_ne_nil (h.pages t ps ht).ne_nil
  exact ⟨first, pages, rfl, by simp [Tables.user, ht]⟩

theorem answer_returns {α : Type} {x : StorageM α} {P : α → StorageEngine → Prop} (got : α → Answer)
    (h : Returns x s P) : ∃ a u, answer x got s = (got a, u) ∧ P a u := by
  obtain ⟨a, u, hx, hp⟩ := h
  exact ⟨a, u, by rw [answer, hx], hp⟩

theorem answer_raises {α : Type} {x : StorageM α} (got : α → Answer)
    (h : Raises x s (fun e u => e.Thrown ∧ u = s)) : answer x got s = (.threw, s) := by
  obtain ⟨e, u, hx, he, rfl⟩ := h
  rw [answer, hx]
  cases e <;> first | rfl | exact he.elim

/-- One operation: the engine answers as the tables it keeps, and keeps the tables that follow. -/
def Step [Build] (s : StorageEngine) (T : Tables) (op : Op) : Prop :=
  ∃ T', Kept (op.run s).2 T' ∧ (op.run s).2.config = s.config ∧
    Serves s.config (Tables.user T) op (op.run s).1 (Tables.user T')

section Steps

variable [Build] (h : Kept s T)
include h

theorem step_createTable (t : Nat) : Step s T (.createTable t) := by
  cases ht : T t with
  | none =>
    obtain ⟨_, u, hu, hkept, hconfig⟩ := answer_returns (fun _ => .done) (createTable_ok h ht)
    refine ⟨_, by rw [Op.run, hu]; exact hkept, by rw [Op.run, hu]; exact hconfig, ?_⟩
    rw [Op.run, hu, user_update]
    exact .create t (user_eq_none.mpr ht)
  | some ps =>
    have hu := answer_raises (fun _ => .done) (createTable_fails h ht)
    refine ⟨T, by rw [Op.run, hu]; exact h, by rw [Op.run, hu], ?_⟩
    rw [Op.run, hu]
    exact .createThrows t (by simp [user_eq_none, ht])

theorem step_allocatePage (t : Nat) (hop : Op.Allowed s (.allocatePage t)) :
    Step s T (.allocatePage t) := by
  cases ht : T t with
  | none =>
    have hfail : ∃ a, Op.run (.allocatePage t) s = (a, s) ∧ (a = .threw ∨ a = .aborted) := by
      by_cases hb : Build.ndebug = true
      · have hraises : Raises (allocatePage t) s (fun e u => e.Thrown ∧ u = s) :=
          .bind_eq get_ok (.bind_eq (assert_ok (.inl hb)) (getLatestPage_fails h ht).bind_left)
        exact ⟨_, answer_raises .page hraises, .inl rfl⟩
      · have hassert : allocatePage t s = .error .assertion s := by
          rw [allocatePage, bind_ok get_ok]
          refine bind_error (assert_fails (by simpa using hb) ?_)
          simp [LocalFS.dirExists, h.dirs, ht]
        exact ⟨.aborted, by rw [Op.run, answer, hassert], .inr rfl⟩
    obtain ⟨a, hu, ha⟩ := hfail
    refine ⟨T, by rw [hu]; exact h, by rw [hu], ?_⟩
    rw [hu]
    exact .allocateFails t a (user_eq_none.mpr ht) ha
  | some ps =>
    obtain ⟨first, pages, rfl, hV⟩ := h.cons ht
    have hreach : InReach s.config (first :: pages).length := by
      have hr := hop (metadataOf (first :: pages)) (by rw [h.counted, ht, Option.map_some])
      simpa [metadataOf] using hr
    obtain ⟨_, u, hu, rfl, hkept, hconfig⟩ := answer_returns .page (allocatePage_ok h ht hreach)
    refine ⟨_, by rw [Op.run, hu]; exact hkept, by rw [Op.run, hu]; exact hconfig, ?_⟩
    rw [Op.run, hu, user_update]
    exact .allocate t pages hV

theorem step_writePage (t p : Nat) (buffer : List Byte) (hop : buffer.length = s.config.pageSize) :
    Step s T (.writePage (t, p) buffer) := by
  cases hp : (T t).bind (fun ps => ps[p]?) with
  | none =>
    have hu := answer_raises (fun _ => .done) (writePage_fails buffer h hp)
    refine ⟨T, by rw [Op.run, hu]; exact h, by rw [Op.run, hu], ?_⟩
    rw [Op.run, hu]
    refine .writePast t p buffer fun pages hpages => ?_
    obtain ⟨ps, ht, rfl⟩ := Option.map_eq_some_iff.mp hpages
    obtain ⟨first, pages, rfl, -⟩ := h.cons ht
    have hlen : (first :: pages).length ≤ p := by simpa [ht] using hp
    simpa using hlen
  | some page =>
    obtain ⟨ps, ht, hpage⟩ := Option.bind_eq_some_iff.mp hp
    obtain ⟨first, pages, rfl, hV⟩ := h.cons ht
    have hlt := (List.getElem?_eq_some_iff.mp hpage).1
    obtain ⟨_, u, hu, -, hkept, hconfig⟩ :=
      answer_returns (fun _ => .done) (writePage_ok h ht hlt hop)
    refine ⟨_, by rw [Op.run, hu]; exact hkept, by rw [Op.run, hu]; exact hconfig, ?_⟩
    rw [Op.run, hu, user_update]
    cases p with
    | zero =>
      rw [List.set_cons_zero, List.tail_cons, ← hV, Function.update_eq_self]
      exact .writeFirst t buffer (by simp [hV])
    | succ p =>
      rw [List.set_cons_succ, List.tail_cons]
      exact .write t p buffer pages hV (by simpa using hlt)

theorem step_readPage (t p : Nat) : Step s T (.readPage (t, p)) := by
  cases hp : (T t).bind (fun ps => ps[p]?) with
  | none =>
    have hu := answer_raises .bytes (readPage_fails [] h hp)
    refine ⟨T, by rw [Op.run, hu]; exact h, by rw [Op.run, hu], ?_⟩
    rw [Op.run, hu]
    refine .readPast t p fun pages hpages => ?_
    obtain ⟨ps, ht, rfl⟩ := Option.map_eq_some_iff.mp hpages
    obtain ⟨first, pages, rfl, -⟩ := h.cons ht
    have hlen : (first :: pages).length ≤ p := by simpa [ht] using hp
    simpa using hlen
  | some page =>
    obtain ⟨ps, ht, hpage⟩ := Option.bind_eq_some_iff.mp hp
    obtain ⟨first, pages, rfl, hV⟩ := h.cons ht
    obtain ⟨c, hread, hkept⟩ := readPage_ok [] h ht hpage
    rw [List.drop_nil, List.append_nil] at hread
    have hu : Op.run (.readPage (t, p)) s = (.bytes page, { s with filecache := c }) := by
      rw [Op.run, answer, hread]
    refine ⟨T, by rw [hu]; exact hkept, by rw [hu], ?_⟩
    rw [hu]
    cases p with
    | zero => exact .readFirst t page (by simp [hV])
    | succ p => exact .read t p pages page hV (by simpa using hpage)

theorem step_flushTable (t : Nat) : Step s T (.flushTable t) := by
  cases ht : T t with
  | none =>
    have hu := answer_raises (fun _ => .done) (flushTable_fails h ht)
    refine ⟨T, by rw [Op.run, hu]; exact h, by rw [Op.run, hu], ?_⟩
    rw [Op.run, hu]
    exact .flushThrows t (user_eq_none.mpr ht)
  | some ps =>
    obtain ⟨first, pages, rfl, hV⟩ := h.cons ht
    obtain ⟨_, u, hu, hkept, hconfig⟩ :=
      answer_returns (fun _ => .done)
        (flushTable_ok h ht (show (first :: pages)[0]? = some first from rfl))
    refine ⟨_, by rw [Op.run, hu]; exact hkept, by rw [Op.run, hu]; exact hconfig, ?_⟩
    rw [Op.run, hu, user_update, List.set_cons_zero, List.tail_cons, ← hV, Function.update_eq_self]
    exact .flush t (by simp [hV])

theorem step {op : Op} (hop : op.Allowed s) : Step s T op := by
  cases op with
  | createTable t => exact step_createTable h t
  | allocatePage t => exact step_allocatePage h t hop
  | writePage pgkey buffer => exact step_writePage h pgkey.1 pgkey.2 buffer hop
  | readPage pgkey => exact step_readPage h pgkey.1 pgkey.2
  | flushTable t => exact step_flushTable h t

theorem run_serves {ops : List Op} (hops : AllowedAll ops s) : ∃ T', Kept (runAll ops s).2 T' ∧
    ServesAll s.config (Tables.user T) ops (runAll ops s).1 (Tables.user T') := by
  induction ops generalizing s T with
  | nil => exact ⟨T, h, .nil _⟩
  | cons op ops ih =>
    obtain ⟨T', hkept, hconfig, hserves⟩ := step h hops.1
    obtain ⟨T'', hkept', hrest⟩ := ih hkept hops.2
    rw [hconfig] at hrest
    exact ⟨T'', hkept', .cons hserves hrest⟩

end Steps

end Run

end StorageEngine

/-! ### A new directory -/

/-- An empty base directory. -/
def LocalFS.empty (basedir : String) : LocalFS := ⟨basedir, none, [], ∅, fun _ => [], 0⟩

namespace StorageEngine

variable [Build] {s : StorageEngine} {config : EngineConfig}

theorem openAt_empty (basedir : String) (config : EngineConfig) :
    ∃ control, openAt (LocalFS.empty basedir) config =
      .ok () ⟨{ LocalFS.empty basedir with control := some control }, config, (0, 0), ∅, {}⟩ :=
  ⟨_, rfl⟩

/-- The engine over a new directory has no tables. -/
theorem kept_open {basedir : String} (h : openAt (LocalFS.empty basedir) config = .ok () s)
    (hseg : 1 ≤ config.segmentSize) (hpage : TableMetadata.size ≤ config.pageSize) :
    Kept s (fun _ => none) ∧ s.config = config := by
  obtain ⟨control, hopen⟩ := openAt_empty basedir config
  rw [hopen] at h
  cases h
  refine ⟨⟨hseg, hpage, ⟨{}, FileCache.holds_empty, by simp⟩, ⟨?_, ?_⟩, ?_, ?_, ?_, ?_⟩, rfl⟩
  · simp [LocalFS.empty]
  · simp [LocalFS.empty]
  · simp [LocalFS.empty]
  · rfl
  · intro t
    rfl
  · intro t ps ht
    cases ht

/-- Over a new directory, an engine opens and serves its tables: whatever is done to how many of
them in how many files, a page reads as it was last written, or as zeros, and page numbers count up
from 1. -/
theorem runAll_serves (basedir : String) (hseg : 1 ≤ config.segmentSize)
    (hpage : TableMetadata.size ≤ config.pageSize) :
    ∃ s, openAt (LocalFS.empty basedir) config = .ok () s ∧ ∀ ops, AllowedAll ops s →
      ∃ V, ServesAll config (fun _ => none) ops (runAll ops s).1 V := by
  obtain ⟨control, hopen⟩ := openAt_empty basedir config
  obtain ⟨hkept, hconfig⟩ := kept_open hopen hseg hpage
  refine ⟨_, hopen, fun ops hops => ?_⟩
  obtain ⟨T, -, hserves⟩ := run_serves hkept hops
  rw [hconfig] at hserves
  exact ⟨_, hserves⟩

/-- An engine with a table of so many pages, none of them written. -/
theorem exists_kept (hseg : 1 ≤ config.segmentSize) (hpage : TableMetadata.size ≤ config.pageSize)
    (t n : Nat) (hreach : ∀ p ≤ n, InReach config p) :
    ∃ s first, Kept s (Function.update (fun _ => none) t
      (some (first :: List.replicate n (zeros config)))) ∧ s.config = config := by
  induction n with
  | zero =>
    obtain ⟨control, hopen⟩ := openAt_empty "base" config
    obtain ⟨hkept, hconfig⟩ := kept_open hopen hseg hpage
    obtain ⟨_, s, -, hs, hsame⟩ := createTable_ok hkept (show (fun _ => none : Tables) t = none from rfl)
    exact ⟨s, _, hs, hsame.trans hconfig⟩
  | succ n ih =>
    obtain ⟨s, first, hkept, rfl⟩ := ih fun p hp => hreach p (hp.trans n.le_succ)
    obtain ⟨_, u, -, -, hu, hsame⟩ := allocatePage_ok hkept (Function.update_self ..)
      (by simpa using hreach (n + 1) le_rfl)
    refine ⟨u, first, ?_, hsame⟩
    rw [Function.update_idem] at hu
    rwa [List.replicate_succ', ← List.cons_append]

omit [Build] in
theorem allowed_allocatePage {T : Tables} {t : Nat} {ps : List (List Byte)} (h : Kept s T)
    (ht : T t = some ps) (hreach : InReach s.config ps.length) : Op.Allowed s (.allocatePage t) := by
  intro metadata hm
  rw [h.counted, ht, Option.map_some, Option.some_inj] at hm
  have hpos := List.length_pos_iff.mpr (h.pages t ps ht).ne_nil
  simpa [← hm, metadataOf, Nat.sub_add_cancel hpos] using hreach

omit [Build] in
/-- A table of one page, of 16 bytes. -/
theorem runAll_serves_page : ∃ s, @openAt ⟨false⟩ (LocalFS.empty "base") ⟨2, 16⟩ = .ok () s ∧
    ∃ V, ServesAll ⟨2, 16⟩ (fun _ => none)
      [.createTable 1, .allocatePage 1, .writePage (1, 1) (List.replicate 16 7), .readPage (1, 1)]
      (@runAll ⟨false⟩ [.createTable 1, .allocatePage 1, .writePage (1, 1) (List.replicate 16 7),
        .readPage (1, 1)] s).1 V := by
  let _ : Build := ⟨false⟩
  obtain ⟨s, hopen, h⟩ := @runAll_serves ⟨false⟩ ⟨2, 16⟩ "base" (by decide) (by decide)
  obtain ⟨hkept, hconfig⟩ := kept_open hopen (by decide) (by decide)
  obtain ⟨_, u, hu, hkept', hconfig'⟩ :=
    answer_returns (fun _ => .done) (createTable_ok (t := 1) hkept rfl)
  have hrun : (Op.run (.createTable 1) s).2 = u := by rw [Op.run, hu]
  have hallowed : Op.Allowed u (.allocatePage 1) := by
    refine allowed_allocatePage hkept' (Function.update_self _ _ _) ?_
    rw [hconfig', hconfig]
    exact ⟨by decide, by decide⟩
  obtain ⟨T, -, hlast, -⟩ := step hkept' hallowed
  refine ⟨s, hopen, h _ ⟨trivial, ?_, ?_, trivial, trivial⟩⟩
  · rw [hrun]
    exact hallowed
  · rw [hrun]
    change 16 = _
    rw [hlast, hconfig', hconfig]

end StorageEngine

end Cpplite
