import Cpplite.BTree.CursorRuns
import Cpplite.BTree.Forest
import Cpplite.BTree.InsertContract
import Cpplite.Pager.Reopen

/-!
Trees of a file that is opened again. A cursor that only reads writes nothing and goes the
same way through the file of a new `Pager`, so a new cursor on the root finds what the old
one left there.
-/
namespace Cpplite

open Exec Search HeightTree

/-- The same cursor over a file that still has its pages. -/
structure BTreeState.Lasts (s s' : BTreeState) : Prop where
  pager : s.pager.Lasts s'.pager
  self : s'.self = s.self

/-! ### Reads write nothing -/

section Unmoved

variable {σ α : Type} {cursor : BTreeCursorStack}

theorem topOf_leaves {g : σ → α} : Leaves g (topOf cursor : EStateM Error σ BTreeCursorNode) := by
  cases cursor with
  | nil => exact leaves_throw
  | cons top rest => exact leaves_pure

theorem getOverflowContent_leaves {opm : OverflowPageManager} :
    Leaves id opm.getOverflowContent := by
  refine readPage_leaves.bind fun page => ?_
  cases page with
  | overflow h content => exact leaves_pure
  | _ => exact leaves_throw

variable [Build]

theorem assertPageType_leaves {p : Nat} {type : PagerPageType} :
    Leaves id (assertPageType p type) :=
  leaves_pure.ite (getPageType_leaves.bind fun _ => leaves_assert)

theorem readChain_leaves : ∀ (fuel it : Nat), Leaves id (readChain fuel it)
  | 0, _ => leaves_throw
  | fuel + 1, it => by
    refine leaves_pure.ite (overflowPageManager_load_leaves.bind fun opm => ?_)
    refine getOverflowContent_leaves.bind fun content => ?_
    exact (readChain_leaves fuel _).bind fun rest => leaves_pure

theorem getPayload_leaves {lpm : LeafPageManager} {key : DefaultPagerKey} :
    Leaves id (lpm.getPayload key) := by
  unfold LeafPageManager.getPayload
  cases lpm.cells.find? (fun c => c.key = key) with
  | none => exact leaves_pure
  | some cell =>
    refine leaves_get.bind fun s => (readChain_leaves _ _).bind fun payload => ?_
    exact leaves_assert.bind fun _ => leaves_pure

theorem moveToFirstLoop_leaves : ∀ (fuel p : Nat) (cursor : BTreeCursorStack),
    Leaves BTreeState.unmoved (moveToFirstLoop fuel p cursor)
  | 0, _, _ => leaves_throw
  | fuel + 1, p, cursor => by
    refine (leaves_lift getPageType_leaves).bind fun type => Leaves.ite ?_ leaves_pure
    refine (leaves_lift seekPage_leaves).bind fun pm => (leaves_lift getNode_leaves).bind fun npm => ?_
    refine leaves_assert.bind fun _ => leaves_index.bind fun cell => ?_
    exact moveToFirstLoop_leaves fuel _ _

theorem moveToFirst_leaves : Leaves BTreeState.unmoved moveToFirst := by
  refine leaves_getSelf.bind fun self => (leaves_lift seekPage_leaves).bind fun _ => ?_
  refine leaves_walkFuel.bind fun fuel => (moveToFirstLoop_leaves _ _ _).bind fun res => ?_
  refine (leaves_lift seekPage_leaves).bind fun pm => (leaves_lift getLeaf_leaves).bind fun lpm => ?_
  exact leaves_assert.bind fun _ => leaves_setCursor

theorem moveToLastLoop_leaves : ∀ (fuel p : Nat) (cursor : BTreeCursorStack),
    Leaves BTreeState.unmoved (moveToLastLoop fuel p cursor)
  | 0, _, _ => leaves_throw
  | fuel + 1, p, cursor => by
    refine (leaves_lift getPageType_leaves).bind fun type => Leaves.ite ?_ leaves_pure
    refine (leaves_lift seekPage_leaves).bind fun pm => (leaves_lift getNode_leaves).bind fun npm => ?_
    exact leaves_assert.bind fun _ => moveToLastLoop_leaves fuel _ _

theorem moveToLast_leaves : Leaves BTreeState.unmoved moveToLast := by
  refine leaves_getSelf.bind fun self => (leaves_lift seekPage_leaves).bind fun _ => ?_
  refine (leaves_lift getPageType_leaves).bind fun type => leaves_assert.bind fun _ => ?_
  refine leaves_walkFuel.bind fun fuel => (moveToLastLoop_leaves _ _ _).bind fun res => ?_
  refine (leaves_lift seekPage_leaves).bind fun pm => (leaves_lift getLeaf_leaves).bind fun lpm => ?_
  exact leaves_assert.bind fun _ => leaves_setCursor

theorem descendLast_leaves : ∀ (fuel p : Nat) (cursor : BTreeCursorStack),
    Leaves BTreeState.unmoved (descendLast fuel p cursor)
  | 0, _, _ => leaves_throw
  | fuel + 1, p, cursor => by
    refine (leaves_lift getPageType_leaves).bind fun type => Leaves.ite ?_ ?_
    · exact (leaves_lift leafPageManager_load_leaves).bind fun lpm => leaves_setCursor
    · refine (leaves_lift nodePageManager_load_leaves).bind fun npm => ?_
      exact leaves_setCursor.bind fun _ => descendLast_leaves fuel _ _

theorem prev_leaves : Leaves BTreeState.unmoved prev := by
  refine leaves_getSelf.bind fun self => leaves_assert.bind fun _ => topOf_leaves.bind fun curr => ?_
  refine (leaves_lift getPageType_leaves).bind fun type => leaves_assert.bind fun _ => ?_
  refine (leaves_lift leafPageManager_load_leaves).bind fun lpm => leaves_assert.bind fun _ =>
    leaves_assert.bind fun _ => Leaves.ite (leaves_setCursor.bind fun _ => leaves_pure) ?_
  refine leaves_setCursor.bind fun _ => ?_
  cases popLeftmost self.cursor.tail with
  | nil => exact leaves_pure
  | cons top rest =>
    refine leaves_setCursor.bind fun _ => (leaves_lift assertPageType_leaves).bind fun _ => ?_
    refine (leaves_lift nodePageManager_load_leaves).bind fun npm => leaves_index.bind fun cell => ?_
    refine leaves_walkFuel.bind fun fuel => ?_
    exact (descendLast_leaves _ _ _).bind fun _ => leaves_pure

theorem popRightmost_leaves : ∀ cursor, Leaves BTreeState.unmoved (popRightmost cursor)
  | [] => leaves_pure
  | (p, i) :: rest => by
    refine (leaves_lift assertPageType_leaves).bind fun _ => ?_
    refine (leaves_lift nodePageManager_load_leaves).bind fun npm => leaves_pure.ite ?_
    exact leaves_setCursor.bind fun _ => popRightmost_leaves rest

theorem descendFirst_leaves : ∀ (fuel p : Nat) (cursor : BTreeCursorStack),
    Leaves BTreeState.unmoved (descendFirst fuel p cursor)
  | 0, _, _ => leaves_throw
  | fuel + 1, p, cursor => by
    refine (leaves_lift getPageType_leaves).bind fun type => Leaves.ite ?_ ?_
    · exact (leaves_lift leafPageManager_load_leaves).bind fun lpm => leaves_setCursor
    · refine (leaves_lift nodePageManager_load_leaves).bind fun npm => ?_
      refine leaves_setCursor.bind fun _ => leaves_index.bind fun cell => ?_
      exact descendFirst_leaves fuel _ _

theorem next_leaves : Leaves BTreeState.unmoved next := by
  refine leaves_getSelf.bind fun self => leaves_assert.bind fun _ => topOf_leaves.bind fun curr => ?_
  refine (leaves_lift assertPageType_leaves).bind fun _ => ?_
  refine (leaves_lift leafPageManager_load_leaves).bind fun lpm => leaves_assert.bind fun _ =>
    leaves_assert.bind fun _ => Leaves.ite (leaves_setCursor.bind fun _ => leaves_pure) ?_
  refine leaves_setCursor.bind fun _ => leaves_assert.bind fun _ => ?_
  refine (popRightmost_leaves _).bind fun stack => ?_
  cases stack with
  | nil => exact leaves_pure
  | cons top rest =>
    refine (leaves_lift nodePageManager_load_leaves).bind fun npm => leaves_assert.bind fun _ => ?_
    refine leaves_setCursor.bind fun _ => (leaves_lift assertPageType_leaves).bind fun _ => ?_
    refine (leaves_lift nodePageManager_load_leaves).bind fun npm => ?_
    refine leaves_childAt.bind fun child => leaves_walkFuel.bind fun fuel => ?_
    exact (descendFirst_leaves _ _ _).bind fun _ => leaves_pure

theorem isEmpty_leaves : Leaves BTreeState.unmoved isEmpty := by
  refine leaves_getSelf.bind fun self => (leaves_lift getPageType_leaves).bind fun type => ?_
  refine leaves_pure.ite ?_
  exact (leaves_lift leafPageManager_load_leaves).bind fun lpm => leaves_pure

/-- The calls that look at the leaf under the cursor. -/
theorem onLeaf_leaves {f : BTreeCursorNode → BTreeM α}
    (h : ∀ curr, Leaves BTreeState.unmoved (f curr)) : Leaves BTreeState.unmoved (do
      let self ← getSelf
      assert (self.cursor.length > 0)
      let curr ← topOf self.cursor
      let pageType ← getPageType curr.1
      assert (pageType = .leafPage)
      f curr) := by
  refine leaves_getSelf.bind fun self => leaves_assert.bind fun _ => topOf_leaves.bind fun curr => ?_
  exact (leaves_lift getPageType_leaves).bind fun type => leaves_assert.bind fun _ => h curr

theorem currentKey_leaves : Leaves BTreeState.unmoved currentKey := by
  refine onLeaf_leaves fun curr => (leaves_lift leafPageManager_load_leaves).bind fun lpm => ?_
  cases lpm.cells[curr.2]? with
  | some cell => exact leaves_pure
  | none => exact leaves_throw

theorem currentPgno_leaves : Leaves BTreeState.unmoved currentPgno :=
  onLeaf_leaves fun _ => leaves_pure

theorem currentRecordPgno_leaves : Leaves BTreeState.unmoved currentRecordPgno := by
  refine onLeaf_leaves fun curr => (leaves_lift leafPageManager_load_leaves).bind fun lpm => ?_
  cases lpm.cells[curr.2]? with
  | some cell => exact leaves_pure
  | none => exact leaves_throw

theorem currentValue_leaves : Leaves BTreeState.unmoved currentValue := by
  refine onLeaf_leaves fun curr => (leaves_lift leafPageManager_load_leaves).bind fun lpm => ?_
  refine leaves_assert.bind fun _ => leaves_index.bind fun cell => ?_
  refine (leaves_lift getPayload_leaves).bind fun payload => ?_
  cases payload with
  | some bytes => exact leaves_pure
  | none => exact leaves_throw

end Unmoved

/-! ### Reads on both files -/

section Reads

variable {α : Type} {R : α → α → Prop} {p : Nat} {cursor : BTreeCursorStack}

theorem lift_lasts {x y : PagerM α} (h : Follows Pager.Lasts R x y) :
    Follows BTreeState.Lasts R (liftM x : BTreeM α) (liftM y : BTreeM α) := by
  change Follows BTreeState.Lasts R (onPager x) (onPager y)
  exact h.zoom (fun _ _ hs => hs.pager) (fun _ _ _ _ hs hp => ⟨hp, hs.self⟩)

theorem getSelf_lasts : Follows BTreeState.Lasts Eq getSelf getSelf :=
  follows_get.bind fun _ _ h => follows_pure h.self.symm

theorem setCursor_lasts : Follows BTreeState.Lasts Eq (setCursor cursor) (setCursor cursor) :=
  follows_modify fun _ _ h => ⟨h.pager, by rw [h.self]⟩

theorem walkFuel_lasts : Follows BTreeState.Lasts (· ≤ ·) walkFuel walkFuel :=
  follows_get.bind fun _ _ h => follows_pure (Nat.succ_le_succ h.pager.size)

theorem index_lasts {σ σ' : Type} {S : σ → σ' → Prop} {v : List α} {i : Nat} :
    Follows S Eq (index v i) (index v i) := by
  unfold index
  cases v[i]? with
  | some a => exact follows_pure rfl
  | none => exact follows_throw

theorem childAt_lasts {npm : NodePageManager} {i : Nat} :
    Follows BTreeState.Lasts Eq (npm.childAt i) (npm.childAt i) :=
  .ite (follows_pure rfl) (index_lasts.then fun _ => follows_pure rfl)

theorem topOf_lasts : Follows BTreeState.Lasts Eq (topOf cursor) (topOf cursor) := by
  cases cursor with
  | nil => exact follows_throw
  | cons top rest => exact follows_pure rfl

variable [Build]

theorem moveToFirstLoop_lasts : ∀ {fuel fuel' : Nat} (p : Nat) (cursor : BTreeCursorStack),
    fuel ≤ fuel' →
    Follows BTreeState.Lasts Eq (moveToFirstLoop fuel p cursor) (moveToFirstLoop fuel' p cursor)
  | 0, _, _, _, _ => follows_throw
  | fuel + 1, 0, _, _, h => absurd h (Nat.not_succ_le_zero fuel)
  | fuel + 1, fuel' + 1, p, cursor, h => by
    refine (lift_lasts getPageType_lasts).then fun type => .ite ?_ (follows_pure rfl)
    refine (lift_lasts seekPage_lasts).bind fun pm pm' hpm => ?_
    refine (lift_lasts (getNode_lasts hpm)).then fun npm => assert_lasts.then fun _ => ?_
    refine index_lasts.then fun cell => ?_
    exact moveToFirstLoop_lasts _ _ (Nat.le_of_succ_le_succ h)

theorem moveToFirst_lasts : Follows BTreeState.Lasts Eq moveToFirst moveToFirst := by
  refine getSelf_lasts.then fun self => (lift_lasts seekPage_lasts).bind fun _ _ _ => ?_
  refine walkFuel_lasts.bind fun fuel fuel' h => ?_
  refine (moveToFirstLoop_lasts _ _ h).then fun res => ?_
  refine (lift_lasts seekPage_lasts).bind fun pm pm' hpm => ?_
  refine (lift_lasts (getLeaf_lasts hpm)).then fun lpm => assert_lasts.then fun _ => ?_
  exact setCursor_lasts

theorem moveToLastLoop_lasts : ∀ {fuel fuel' : Nat} (p : Nat) (cursor : BTreeCursorStack),
    fuel ≤ fuel' →
    Follows BTreeState.Lasts Eq (moveToLastLoop fuel p cursor) (moveToLastLoop fuel' p cursor)
  | 0, _, _, _, _ => follows_throw
  | fuel + 1, 0, _, _, h => absurd h (Nat.not_succ_le_zero fuel)
  | fuel + 1, fuel' + 1, p, cursor, h => by
    refine (lift_lasts getPageType_lasts).then fun type => .ite ?_ (follows_pure rfl)
    refine (lift_lasts seekPage_lasts).bind fun pm pm' hpm => ?_
    refine (lift_lasts (getNode_lasts hpm)).then fun npm => assert_lasts.then fun _ => ?_
    exact moveToLastLoop_lasts _ _ (Nat.le_of_succ_le_succ h)

theorem moveToLast_lasts : Follows BTreeState.Lasts Eq moveToLast moveToLast := by
  refine getSelf_lasts.then fun self => (lift_lasts seekPage_lasts).bind fun _ _ _ => ?_
  refine (lift_lasts getPageType_lasts).then fun type => assert_lasts.then fun _ => ?_
  refine walkFuel_lasts.bind fun fuel fuel' h => ?_
  refine (moveToLastLoop_lasts _ _ h).then fun res => ?_
  refine (lift_lasts seekPage_lasts).bind fun pm pm' hpm => ?_
  refine (lift_lasts (getLeaf_lasts hpm)).then fun lpm => assert_lasts.then fun _ => ?_
  exact setCursor_lasts

theorem moveToKeyLoop_lasts {key : DefaultPagerKey} : ∀ {fuel fuel' : Nat} (type : PagerPageType)
    (p : Nat) {pm pm' : PageManager} (cursor : BTreeCursorStack), fuel ≤ fuel' → pm.Lasts pm' →
    Follows BTreeState.Lasts Eq (moveToKeyLoop key fuel type p pm cursor)
      (moveToKeyLoop key fuel' type p pm' cursor)
  | 0, _, _, _, _, _, _, _, _ => follows_throw
  | fuel + 1, 0, _, _, _, _, _, h, _ => absurd h (Nat.not_succ_le_zero fuel)
  | fuel + 1, fuel' + 1, type, p, pm, pm', cursor, h, hpm => by
    refine .ite ?_ ?_
    · refine (lift_lasts (getNode_lasts hpm)).then fun npm => assert_lasts.then fun _ => ?_
      refine childAt_lasts.then fun child => ?_
      refine (lift_lasts seekPage_lasts).bind fun pm pm' hpm => ?_
      refine (lift_lasts getPageType_lasts).then fun type => ?_
      exact moveToKeyLoop_lasts _ _ _ (Nat.le_of_succ_le_succ h) hpm
    · refine (lift_lasts (getLeaf_lasts hpm)).then fun lpm => ?_
      exact setCursor_lasts.then fun _ => follows_pure rfl

theorem moveToKey_lasts {key : DefaultPagerKey} :
    Follows BTreeState.Lasts Eq (moveToKey key) (moveToKey key) := by
  refine getSelf_lasts.then fun self => (lift_lasts seekPage_lasts).bind fun pm pm' hpm => ?_
  refine (lift_lasts getPageType_lasts).then fun type => ?_
  refine walkFuel_lasts.bind fun fuel fuel' h => ?_
  exact moveToKeyLoop_lasts _ _ _ h hpm

theorem descendLast_lasts : ∀ {fuel fuel' : Nat} (p : Nat) (cursor : BTreeCursorStack),
    fuel ≤ fuel' →
    Follows BTreeState.Lasts Eq (descendLast fuel p cursor) (descendLast fuel' p cursor)
  | 0, _, _, _, _ => follows_throw
  | fuel + 1, 0, _, _, h => absurd h (Nat.not_succ_le_zero fuel)
  | fuel + 1, fuel' + 1, p, cursor, h => by
    refine (lift_lasts getPageType_lasts).then fun type => .ite ?_ ?_
    · exact (lift_lasts leafPageManager_load_lasts).then fun lpm => setCursor_lasts
    · refine (lift_lasts nodePageManager_load_lasts).then fun npm => ?_
      refine setCursor_lasts.then fun _ => ?_
      exact descendLast_lasts _ _ (Nat.le_of_succ_le_succ h)

theorem prev_lasts : Follows BTreeState.Lasts Eq prev prev := by
  refine getSelf_lasts.then fun self => assert_lasts.then fun _ => topOf_lasts.then fun curr => ?_
  refine (lift_lasts getPageType_lasts).then fun type => assert_lasts.then fun _ => ?_
  refine (lift_lasts leafPageManager_load_lasts).then fun lpm => assert_lasts.then fun _ =>
    assert_lasts.then fun _ => .ite (setCursor_lasts.then fun _ => follows_pure rfl) ?_
  refine setCursor_lasts.then fun _ => ?_
  cases popLeftmost self.cursor.tail with
  | nil => exact follows_pure rfl
  | cons top rest =>
    refine setCursor_lasts.then fun _ => (lift_lasts assertPageType_lasts).then fun _ => ?_
    refine (lift_lasts nodePageManager_load_lasts).then fun npm => index_lasts.then fun cell => ?_
    refine walkFuel_lasts.bind fun fuel fuel' h => ?_
    exact (descendLast_lasts _ _ h).then fun _ => follows_pure rfl

theorem popRightmost_lasts : ∀ (cursor : BTreeCursorStack),
    Follows BTreeState.Lasts Eq (popRightmost cursor) (popRightmost cursor)
  | [] => follows_pure rfl
  | (p, i) :: rest => by
    refine (lift_lasts assertPageType_lasts).then fun _ => ?_
    refine (lift_lasts nodePageManager_load_lasts).then fun npm => .ite (follows_pure rfl) ?_
    exact setCursor_lasts.then fun _ => popRightmost_lasts rest

theorem descendFirst_lasts : ∀ {fuel fuel' : Nat} (p : Nat) (cursor : BTreeCursorStack),
    fuel ≤ fuel' →
    Follows BTreeState.Lasts Eq (descendFirst fuel p cursor) (descendFirst fuel' p cursor)
  | 0, _, _, _, _ => follows_throw
  | fuel + 1, 0, _, _, h => absurd h (Nat.not_succ_le_zero fuel)
  | fuel + 1, fuel' + 1, p, cursor, h => by
    refine (lift_lasts getPageType_lasts).then fun type => .ite ?_ ?_
    · exact (lift_lasts leafPageManager_load_lasts).then fun lpm => setCursor_lasts
    · refine (lift_lasts nodePageManager_load_lasts).then fun npm => ?_
      refine setCursor_lasts.then fun _ => index_lasts.then fun cell => ?_
      exact descendFirst_lasts _ _ (Nat.le_of_succ_le_succ h)

theorem next_lasts : Follows BTreeState.Lasts Eq next next := by
  refine getSelf_lasts.then fun self => assert_lasts.then fun _ => topOf_lasts.then fun curr => ?_
  refine (lift_lasts assertPageType_lasts).then fun _ => ?_
  refine (lift_lasts leafPageManager_load_lasts).then fun lpm => assert_lasts.then fun _ =>
    assert_lasts.then fun _ => .ite (setCursor_lasts.then fun _ => follows_pure rfl) ?_
  refine setCursor_lasts.then fun _ => assert_lasts.then fun _ => ?_
  refine (popRightmost_lasts _).then fun stack => ?_
  cases stack with
  | nil => exact follows_pure rfl
  | cons top rest =>
    refine (lift_lasts nodePageManager_load_lasts).then fun npm => assert_lasts.then fun _ => ?_
    refine setCursor_lasts.then fun _ => (lift_lasts assertPageType_lasts).then fun _ => ?_
    refine (lift_lasts nodePageManager_load_lasts).then fun npm => childAt_lasts.then fun child => ?_
    refine walkFuel_lasts.bind fun fuel fuel' h => ?_
    exact (descendFirst_lasts _ _ h).then fun _ => follows_pure rfl

theorem isEmpty_lasts : Follows BTreeState.Lasts Eq isEmpty isEmpty := by
  refine getSelf_lasts.then fun self => (lift_lasts getPageType_lasts).then fun type => ?_
  refine .ite (follows_pure rfl) ?_
  exact (lift_lasts leafPageManager_load_lasts).then fun lpm => follows_pure rfl

/-- The calls that look at the leaf under the cursor. -/
theorem onLeaf_lasts {f : BTreeCursorNode → BTreeM α}
    (h : ∀ curr, Follows BTreeState.Lasts Eq (f curr) (f curr)) :
    let x : BTreeM α := do
      let self ← getSelf
      assert (self.cursor.length > 0)
      let curr ← topOf self.cursor
      let pageType ← getPageType curr.1
      assert (pageType = .leafPage)
      f curr
    Follows BTreeState.Lasts Eq x x := by
  refine getSelf_lasts.then fun self => assert_lasts.then fun _ => topOf_lasts.then fun curr => ?_
  exact (lift_lasts getPageType_lasts).then fun type => assert_lasts.then fun _ => h curr

theorem currentKey_lasts : Follows BTreeState.Lasts Eq currentKey currentKey := by
  refine onLeaf_lasts fun curr => (lift_lasts leafPageManager_load_lasts).then fun lpm => ?_
  cases lpm.cells[curr.2]? with
  | some cell => exact follows_pure rfl
  | none => exact follows_throw

theorem currentPgno_lasts : Follows BTreeState.Lasts Eq currentPgno currentPgno :=
  onLeaf_lasts fun _ => follows_pure rfl

theorem currentRecordPgno_lasts :
    Follows BTreeState.Lasts Eq currentRecordPgno currentRecordPgno := by
  refine onLeaf_lasts fun curr => (lift_lasts leafPageManager_load_lasts).then fun lpm => ?_
  cases lpm.cells[curr.2]? with
  | some cell => exact follows_pure rfl
  | none => exact follows_throw

theorem currentValue_lasts : Follows BTreeState.Lasts Eq currentValue currentValue := by
  refine onLeaf_lasts fun curr => (lift_lasts leafPageManager_load_lasts).then fun lpm => ?_
  refine assert_lasts.then fun _ => index_lasts.then fun cell => ?_
  refine (lift_lasts getPayload_lasts).then fun payload => ?_
  cases payload with
  | some bytes => exact follows_pure rfl
  | none => exact follows_throw

end Reads

/-! ### Any order of reads -/

/-- The calls that change nothing but where the cursor stands. -/
inductive Read where
  | move (mv : Move)
  | isEmpty
  | currentKey
  | currentPgno
  | currentRecordPgno
  | currentValue

inductive Answer where
  | said (b : Bool)
  | key (k : DefaultPagerKey)
  | pgno (p : Nat)
  | bytes (value : List Byte)

namespace Read

variable [Build]

def run : Read → BTreeM Answer
  | .move mv => do
    let ok ← mv.run
    pure (.said ok)
  | .isEmpty => do
    let empty ← Cpplite.isEmpty
    pure (.said empty)
  | .currentKey => do
    let k ← Cpplite.currentKey
    pure (.key k)
  | .currentPgno => do
    let p ← Cpplite.currentPgno
    pure (.pgno p)
  | .currentRecordPgno => do
    let p ← Cpplite.currentRecordPgno
    pure (.pgno p)
  | .currentValue => do
    let value ← Cpplite.currentValue
    pure (.bytes value)

/-- What a client sees that asks one thing after the other. -/
def runAll : List Read → BTreeM (List Answer)
  | [] => pure []
  | read :: reads => do
    let answer ← read.run
    let answers ← runAll reads
    pure (answer :: answers)

theorem move_lasts {mv : Move} : Follows BTreeState.Lasts Eq mv.run mv.run := by
  cases mv with
  | moveToFirst => exact moveToFirst_lasts.then fun _ => follows_pure rfl
  | moveToLast => exact moveToLast_lasts.then fun _ => follows_pure rfl
  | moveToKey k => exact moveToKey_lasts
  | next => exact next_lasts
  | prev => exact prev_lasts

theorem run_lasts (read : Read) : Follows BTreeState.Lasts Eq read.run read.run := by
  cases read with
  | move mv => exact move_lasts.then fun _ => follows_pure rfl
  | isEmpty => exact isEmpty_lasts.then fun _ => follows_pure rfl
  | currentKey => exact currentKey_lasts.then fun _ => follows_pure rfl
  | currentPgno => exact currentPgno_lasts.then fun _ => follows_pure rfl
  | currentRecordPgno => exact currentRecordPgno_lasts.then fun _ => follows_pure rfl
  | currentValue => exact currentValue_lasts.then fun _ => follows_pure rfl

theorem run_leaves (read : Read) : Leaves BTreeState.unmoved read.run := by
  cases read with
  | move mv =>
    refine Leaves.bind ?_ fun _ => leaves_pure
    cases mv with
    | moveToFirst => exact moveToFirst_leaves.bind fun _ => leaves_pure
    | moveToLast => exact moveToLast_leaves.bind fun _ => leaves_pure
    | moveToKey k => exact moveToKey_leaves
    | next => exact next_leaves
    | prev => exact prev_leaves
  | isEmpty => exact isEmpty_leaves.bind fun _ => leaves_pure
  | currentKey => exact currentKey_leaves.bind fun _ => leaves_pure
  | currentPgno => exact currentPgno_leaves.bind fun _ => leaves_pure
  | currentRecordPgno => exact currentRecordPgno_leaves.bind fun _ => leaves_pure
  | currentValue => exact currentValue_leaves.bind fun _ => leaves_pure

theorem runAll_leaves : ∀ reads, Leaves BTreeState.unmoved (runAll reads)
  | [] => leaves_pure
  | read :: reads =>
    (run_leaves read).bind fun _ => (runAll_leaves reads).bind fun _ => leaves_pure

theorem runAll_lasts : ∀ reads, Follows BTreeState.Lasts Eq (runAll reads) (runAll reads)
  | [] => follows_pure rfl
  | read :: reads =>
    (run_lasts read).then fun _ => (runAll_lasts reads).then fun _ => follows_pure rfl

end Read

/-! ### Trees on a file that is opened again -/

section Endures

variable [Build] {s : BTreeState} {s' : BTreeState} {m : Contents}

/-- The map that a cursor answers from is the map on the other file as well. -/
theorem Represents.lasts (h : Represents s m) (hs : s.Lasts s') : Represents s' m := by
  intro k
  refine (moveToKey_lasts.returns hs (h k)).mono ?_
  rintro _ t' ⟨found, t, rfl, ht, hfound, hvalue⟩
  refine ⟨hfound, fun value hm => ?_⟩
  obtain ⟨hkey, hval⟩ := hvalue value hm
  refine ⟨(currentKey_lasts.returns ht hkey).mono ?_, (currentValue_lasts.returns ht hval).mono ?_⟩
  · rintro _ _ ⟨k', _, rfl, -, rfl⟩
    rfl
  · rintro _ _ ⟨v, _, rfl, -, rfl⟩
    rfl

theorem cursorNew_lasts {root : Nat} {config : BTreeConfig} :
    Follows Pager.Lasts Eq (BTreeCursor.new root config) (BTreeCursor.new root config) :=
  getPageType_lasts.then fun _ => assert_lasts.then fun _ => follows_pure rfl

theorem cursorNew_leaves {root : Nat} {config : BTreeConfig} :
    Leaves id (BTreeCursor.new root config) :=
  getPageType_leaves.bind fun _ => leaves_assert.bind fun _ => leaves_pure

omit [Build] in
/-- The cursor that is made on the root of a tree. -/
def BTreeCursor.anew (cur : BTreeCursor) : BTreeCursor := ⟨[], cur.rootPgno, cur.config⟩

/-- The tree under a cursor is there for whoever opens the file again: a cursor can be made on its
root, answers every lookup as the old cursor does, and in any order of reads sees what a new cursor on the
old pager sees and writes nothing. -/
structure Endures (pager : Pager) (cur : BTreeCursor) : Prop where
  made : BTreeCursor.new cur.rootPgno cur.config (Pager.reopen pager.file) =
    .ok cur.anew (Pager.reopen pager.file)
  represents : ∃ m, Represents ⟨pager, cur⟩ m ∧ Represents ⟨Pager.reopen pager.file, cur.anew⟩ m
  reads : ∀ reads answers t, Read.runAll reads ⟨pager, cur.anew⟩ = .ok answers t →
    Read.runAll reads ⟨Pager.reopen pager.file, cur.anew⟩ =
      .ok answers ⟨Pager.reopen pager.file, t.self⟩

variable {n : Nat} {pager : Pager} {cur : BTreeCursor} {t : BTree n}

omit [Build] in
theorem Holds.anew (h : Holds pager.disk cur t m) : Holds pager.disk cur.anew t m :=
  ⟨⟨h.good, h.valid, h.planted.setCursor [], .inl rfl⟩, h.spells⟩

/-- The constructor of the cursor finds a root. -/
theorem Holds.new_lasts {pager' : Pager} (h : Holds pager.disk cur t m) (hl : pager.Lasts pager') :
    BTreeCursor.new cur.rootPgno cur.config pager' = .ok cur.anew pager' := by
  have hroot : (pager.disk.page cur.rootPgno).IsTree := by
    rw [← h.planted.root_eq]
    exact h.planted.stored.isTree _ t.id_mem_ids
  obtain ⟨type, htype, hkind⟩ : ∃ type, (pager.disk.page cur.rootPgno).type? = some type ∧
      (type = .nodePage ∨ type = .leafPage) := by
    cases hp : pager.disk.page cur.rootPgno with
    | node cells r => exact ⟨_, rfl, .inl rfl⟩
    | leaf cells prev next => exact ⟨_, rfl, .inr rfl⟩
    | _ => rw [hp] at hroot; exact hroot.elim
  have hlive : Returns (BTreeCursor.new cur.rootPgno cur.config) pager
      (fun made _ => made = cur.anew) :=
    Returns.bind_eq (getPageType_ok htype)
      (Returns.bind_eq (assert_ok (.inr hkind)) (returns_pure.mpr rfl))
  obtain ⟨made, u, hrun, _, v, rfl, -, rfl⟩ := cursorNew_lasts.returns hl hlive
  have hsame : u = pager' := cursorNew_leaves.of_ok hrun
  rw [hrun, hsame]

theorem Holds.reopens (h : Holds pager.disk cur t m) : Endures pager cur := by
  obtain ⟨hd, h1⟩ := h.good.sound.first
  have hlasts := Pager.lasts_reopen (page_first h1).1
  refine ⟨h.new_lasts hlasts, ⟨m, h.represents, ?_⟩, fun reads answers t hrun => ?_⟩
  · exact (Holds.represents (s := ⟨pager, cur.anew⟩) h.anew).lasts ⟨hlasts, rfl⟩
  · obtain ⟨_, t', hrun', rfl, ht⟩ := Read.runAll_lasts reads ⟨pager, cur.anew⟩
      ⟨Pager.reopen pager.file, cur.anew⟩ ⟨hlasts, rfl⟩ answers t hrun
    have hpager : t'.pager = Pager.reopen pager.file :=
      congrArg Prod.fst ((Read.runAll_leaves reads).of_ok hrun')
    rw [hrun', ← ht.self, ← hpager]

end Endures

end Cpplite
