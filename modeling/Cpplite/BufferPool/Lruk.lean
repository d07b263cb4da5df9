import Mathlib.Data.Prod.Lex
import Mathlib.Data.Finset.Max
import Mathlib.Data.Set.Card
import Cpplite.Base

/-!
The frame evictor: `evictor.h` and `lruk.cpp`.

The code keeps the last `k` access times of each frame and two ordered sets of the
evictable frames, one for the frames with fewer than `k` accesses. What it is for is
said by `Lruk`, which keeps every access and no sets at all.
-/
namespace Cpplite

/-- An entry of the ordered sets: a time stamp, then the frame. -/
abbrev Stamp := Nat ×ₗ Nat

def stamp (ts frameId : Nat) : Stamp := toLex (ts, frameId)

structure LRUKNode where
  history : List Nat := []
  isEvictable : Bool := false

/-- The time stamps are `size_t` in the source and never wrap here. -/
structure LRUKEvictor where
  k : Nat
  currentTimestamp : Nat := 0
  evictableSize : Nat := 0
  nodeStore : Nat → Option LRUKNode := fun _ => none
  lessThanKSet : Finset Stamp := ∅
  kSet : Finset Stamp := ∅

namespace LRUKEvictor

/-- `begin()` of an ordered set. -/
def begin? (s : Finset Stamp) : Option Stamp := if h : s.Nonempty then some (s.min' h) else none

def evict (e : LRUKEvictor) : Option Nat × LRUKEvictor :=
  if e.evictableSize = 0 then (none, e)
  else
    match begin? e.lessThanKSet with
    | some it =>
      let victim := (ofLex it).2
      (some victim, { e with
        lessThanKSet := e.lessThanKSet.erase it
        nodeStore := Function.update e.nodeStore victim none
        evictableSize := e.evictableSize - 1 })
    | none =>
      match begin? e.kSet with
      | some it =>
        let victim := (ofLex it).2
        (some victim, { e with
          kSet := e.kSet.erase it
          nodeStore := Function.update e.nodeStore victim none
          evictableSize := e.evictableSize - 1 })
      -- dereferencing `end()`
      | none => (none, e)

/-- `history_.empty() ? 0 : history_.front()` -/
def LRUKNode.front (node : LRUKNode) : Nat := node.history.headD 0

def recordAccess (e : LRUKEvictor) (frameId : Nat) : LRUKEvictor :=
  let ts := e.currentTimestamp
  let node := (e.nodeStore frameId).getD {}
  let oldFront := LRUKNode.front node
  let pushed := node.history ++ [ts]
  let node' := { node with history := if pushed.length > e.k then pushed.tail else pushed }
  let e' := { e with
    currentTimestamp := ts + 1
    nodeStore := Function.update e.nodeStore frameId (some node') }
  if node.isEvictable then
    if node.history.length < e.k ∧ ¬ node'.history.length < e.k then
      { e' with
        lessThanKSet := e.lessThanKSet.erase (stamp oldFront frameId)
        kSet := insert (stamp (LRUKNode.front node') frameId) e.kSet }
    else if ¬ node.history.length < e.k then
      { e' with
        kSet := insert (stamp (LRUKNode.front node') frameId)
          (e.kSet.erase (stamp oldFront frameId)) }
    else e'
  else e'

def setEvictable (e : LRUKEvictor) (frameId : Nat) (evictable : Bool) : LRUKEvictor :=
  match e.nodeStore frameId with
  | none => e
  | some node =>
    if node.isEvictable = evictable then e
    else
      let x := stamp (LRUKNode.front node) frameId
      let e' := { e with
        nodeStore := Function.update e.nodeStore frameId (some { node with isEvictable := evictable }) }
      if evictable then
        if node.history.length < e.k then
          { e' with lessThanKSet := insert x e.lessThanKSet, evictableSize := e.evictableSize + 1 }
        else
          { e' with kSet := insert x e.kSet, evictableSize := e.evictableSize + 1 }
      else
        if node.history.length < e.k then
          { e' with lessThanKSet := e.lessThanKSet.erase x, evictableSize := e.evictableSize - 1 }
        else
          { e' with kSet := e.kSet.erase x, evictableSize := e.evictableSize - 1 }

def remove (e : LRUKEvictor) (frameId : Nat) : LRUKEvictor :=
  match e.nodeStore frameId with
  | none => e
  | some node =>
    let x := stamp (LRUKNode.front node) frameId
    let e' := { e with nodeStore := Function.update e.nodeStore frameId none }
    if node.isEvictable then
      if node.history.length < e.k then
        { e' with lessThanKSet := e.lessThanKSet.erase x, evictableSize := e.evictableSize - 1 }
      else
        { e' with kSet := e.kSet.erase x, evictableSize := e.evictableSize - 1 }
    else e'

def size (e : LRUKEvictor) : Nat := e.evictableSize

/-- The frame may be given up. -/
def Evictable (e : LRUKEvictor) (f : Nat) : Prop :=
  ∃ node, e.nodeStore f = some node ∧ node.isEvictable = true

end LRUKEvictor

/-! ### LRU-K -/

namespace Lruk

/-- A tracked frame: its accesses since it came in, oldest first. -/
structure Tracked where
  accesses : List Nat
  evictable : Bool

structure State where
  now : Nat := 0
  frames : Nat → Option Tracked := fun _ => none

/-- The time of the `k`-th most recent access. -/
def kthRecent (k : Nat) (accesses : List Nat) : Nat := (accesses.drop (accesses.length - k)).headD 0

def State.Evictable (s : State) (f : Nat) (t : Tracked) : Prop :=
  s.frames f = some t ∧ t.evictable = true

/-- The frame LRU-K gives up: the one first accessed earliest among those with fewer than `k`
accesses, or, when there is none, the one whose `k`-th most recent access is earliest. -/
def State.Victim (k : Nat) (s : State) (f : Nat) : Prop :=
  ∃ t, s.Evictable f t ∧
    ((t.accesses.length < k ∧ ∀ g u, g ≠ f → s.Evictable g u → u.accesses.length < k →
        t.accesses.headD 0 < u.accesses.headD 0) ∨
      ((∀ g u, s.Evictable g u → k ≤ u.accesses.length) ∧ ∀ g u, g ≠ f → s.Evictable g u →
        kthRecent k t.accesses < kthRecent k u.accesses))

inductive Op where
  | recordAccess (f : Nat)
  | setEvictable (f : Nat) (evictable : Bool)
  | remove (f : Nat)
  | evict

def State.forget (s : State) (f : Nat) : State := { s with frames := Function.update s.frames f none }

def State.access (s : State) (f : Nat) : State where
  now := s.now + 1
  frames := Function.update s.frames f <| match s.frames f with
    | some t => some { t with accesses := t.accesses ++ [s.now] }
    | none => some ⟨[s.now], false⟩

def State.mark (s : State) (f : Nat) (evictable : Bool) : State :=
  { s with frames := Function.update s.frames f ((s.frames f).map fun t => { t with evictable }) }

/-- What an operation may do, with the answer it gives. -/
inductive Step (k : Nat) : State → Op → Option Nat → State → Prop where
  | recordAccess (s : State) (f : Nat) : Step k s (.recordAccess f) none (s.access f)
  | setEvictable (s : State) (f : Nat) (b : Bool) : Step k s (.setEvictable f b) none (s.mark f b)
  | remove (s : State) (f : Nat) : Step k s (.remove f) none (s.forget f)
  | none (s : State) (h : ∀ f t, ¬ s.Evictable f t) : Step k s .evict none s
  | some (s : State) (f : Nat) (h : s.Victim k f) : Step k s .evict (some f) (s.forget f)

/-- A run, with the answers it gives. -/
inductive Run (k : Nat) : State → List (Op × Option Nat) → State → Prop where
  | nil (s : State) : Run k s [] s
  | cons {s t u : State} {op : Op} {r : Option Nat} {rest : List (Op × Option Nat)} :
      Step k s op r t → Run k t rest u → Run k s ((op, r) :: rest) u

/-- Every tracked frame was accessed, in the past, and no two at one time. -/
structure State.Tidy (s : State) : Prop where
  nonempty : ∀ f t, s.frames f = some t → t.accesses ≠ []
  past : ∀ f t, s.frames f = some t → ∀ a ∈ t.accesses, a < s.now
  apart : ∀ f g t u, f ≠ g → s.frames f = some t → s.frames g = some u →
    ∀ a ∈ t.accesses, a ∉ u.accesses

section Tidy

variable {s : State} {f : Nat}

theorem access_frames_of_ne {g : Nat} (h : g ≠ f) : (s.access f).frames g = s.frames g := by
  simp [State.access, h]

theorem access_frames_self : (s.access f).frames f =
    some ⟨((s.frames f).elim [] Tracked.accesses) ++ [s.now], (s.frames f).elim false Tracked.evictable⟩ := by
  cases h : s.frames f <;> simp [State.access, h]

theorem mark_frames_of_ne {g : Nat} {b : Bool} (h : g ≠ f) : (s.mark f b).frames g = s.frames g := by
  simp [State.mark, h]

theorem mark_frames_self {b : Bool} :
    (s.mark f b).frames f = (s.frames f).map fun t => { t with evictable := b } := by
  simp [State.mark]

theorem forget_frames_of_ne {g : Nat} (h : g ≠ f) : (s.forget f).frames g = s.frames g := by
  simp [State.forget, h]

theorem forget_frames_self : (s.forget f).frames f = none := by
  simp [State.forget]

theorem tidy_initial : State.Tidy {} := by
  constructor <;> intro _ _ h <;> simp_all

/-- What a frame has after an access, it had before or got just now. -/
theorem access_origin {g : Nat} {t : Tracked} (h : (s.access f).frames g = some t) {a : Nat}
    (ha : a ∈ t.accesses) :
    (∃ u, s.frames g = some u ∧ a ∈ u.accesses) ∨ (g = f ∧ a = s.now) := by
  by_cases hg : g = f
  · subst hg
    rw [access_frames_self] at h
    cases h
    simp only [List.mem_append, List.mem_singleton] at ha
    rcases ha with ha | ha
    · cases hf : s.frames g with
      | none => simp [hf] at ha
      | some u => exact .inl ⟨u, rfl, by simpa [hf] using ha⟩
    · exact .inr ⟨rfl, ha⟩
  · rw [access_frames_of_ne hg] at h
    exact .inl ⟨t, h, ha⟩

theorem State.Tidy.access (h : s.Tidy) (f : Nat) : (s.access f).Tidy := by
  constructor
  · intro g t ht
    by_cases hg : g = f
    · subst hg
      rw [access_frames_self] at ht
      cases ht
      simp
    · rw [access_frames_of_ne hg] at ht
      exact h.nonempty g t ht
  · intro g t ht a ha
    change a < s.now + 1
    rcases access_origin ht ha with ⟨u, hu, ha⟩ | ⟨-, rfl⟩
    · exact (h.past g u hu a ha).trans (Nat.lt_succ_self _)
    · exact Nat.lt_succ_self _
  · intro g g' t t' hne ht ht' a ha ha'
    rcases access_origin ht ha with ⟨u, hu, ha⟩ | ⟨rfl, rfl⟩
    · rcases access_origin ht' ha' with ⟨u', hu', ha'⟩ | ⟨rfl, rfl⟩
      · exact h.apart g g' u u' hne hu hu' a ha ha'
      · exact lt_irrefl _ (h.past g u hu _ ha)
    · rcases access_origin ht' ha' with ⟨u', hu', ha'⟩ | ⟨hg, -⟩
      · exact lt_irrefl _ (h.past g' u' hu' _ ha')
      · exact hne hg.symm

/-- A change that keeps the accesses of every frame it keeps. -/
theorem State.Tidy.of_accesses {s' : State} (h : s.Tidy) (hnow : s'.now = s.now)
    (hacc : ∀ g t, s'.frames g = some t → ∃ u, s.frames g = some u ∧ u.accesses = t.accesses) :
    s'.Tidy := by
  constructor
  · intro g t ht
    obtain ⟨u, hu, heq⟩ := hacc g t ht
    rw [← heq]
    exact h.nonempty g u hu
  · intro g t ht
    obtain ⟨u, hu, heq⟩ := hacc g t ht
    rw [← heq, hnow]
    exact h.past g u hu
  · intro g g' t t' hne ht ht'
    obtain ⟨u, hu, heq⟩ := hacc g t ht
    obtain ⟨u', hu', heq'⟩ := hacc g' t' ht'
    rw [← heq, ← heq']
    exact h.apart g g' u u' hne hu hu'

theorem State.Tidy.mark (h : s.Tidy) (f : Nat) (b : Bool) : (s.mark f b).Tidy := by
  apply h.of_accesses (by rfl)
  intro g t ht
  by_cases hg : g = f
  · subst hg
    rw [mark_frames_self, Option.map_eq_some_iff] at ht
    obtain ⟨u, hu, rfl⟩ := ht
    exact ⟨u, hu, rfl⟩
  · rw [mark_frames_of_ne hg] at ht
    exact ⟨t, ht, rfl⟩

theorem State.Tidy.forget (h : s.Tidy) (f : Nat) : (s.forget f).Tidy := by
  apply h.of_accesses (by rfl)
  intro g t ht
  by_cases hg : g = f
  · subst hg
    rw [forget_frames_self] at ht
    cases ht
  · rw [forget_frames_of_ne hg] at ht
    exact ⟨t, ht, rfl⟩

end Tidy

/-! ### The ordered sets -/

/-- An evictable frame with a number of accesses in `p`, under its `k`-th most recent access. -/
def Entry (k : Nat) (s : State) (p : Nat → Prop) (x : Stamp) : Prop :=
  ∃ t, s.Evictable (ofLex x).2 t ∧ p t.accesses.length ∧ (ofLex x).1 = kthRecent k t.accesses

/-- The set holds exactly those entries. -/
def Listed (k : Nat) (s : State) (p : Nat → Prop) (S : Finset Stamp) : Prop :=
  ∀ x, x ∈ S ↔ Entry k s p x

section Listed

variable {k f : Nat} {s s' : State} {p : Nat → Prop} {S : Finset Stamp} {t t' : Tracked}

theorem eq_stamp_iff {x : Stamp} {ts : Nat} : x = stamp ts f ↔ (ofLex x).1 = ts ∧ (ofLex x).2 = f := by
  constructor
  · rintro rfl
    exact ⟨rfl, rfl⟩
  · rintro ⟨rfl, rfl⟩
    rfl

theorem entry_congr {x : Stamp} (h : s'.frames (ofLex x).2 = s.frames (ofLex x).2) :
    Entry k s' p x ↔ Entry k s p x := by
  simp only [Entry, State.Evictable, h]

theorem entry_of_evictable {x : Stamp} (ht : s.Evictable (ofLex x).2 t) :
    Entry k s p x ↔ p t.accesses.length ∧ (ofLex x).1 = kthRecent k t.accesses := by
  constructor
  · rintro ⟨u, ⟨hu, -⟩, hp⟩
    have heq : u = t := Option.some_inj.mp (hu.symm.trans ht.1)
    rwa [heq] at hp
  · intro h
    exact ⟨t, ht, h⟩

/-- No frame `f` in the set. -/
def Unlisted (s : State) (p : Nat → Prop) (f : Nat) : Prop :=
  ∀ t, s.Evictable f t → ¬ p t.accesses.length

theorem Unlisted.not_entry (h : Unlisted s p f) {x : Stamp} (hx : (ofLex x).2 = f) :
    ¬ Entry k s p x := by
  rintro ⟨t, ht, hp, -⟩
  rw [hx] at ht
  exact h t ht hp

variable (hoff : ∀ g, g ≠ f → s'.frames g = s.frames g) (hS : Listed k s p S)
include hoff hS

theorem Listed.insert (hno : Unlisted s p f) (ht : s'.Evictable f t) (hp : p t.accesses.length) :
    Listed k s' p (Insert.insert (stamp (kthRecent k t.accesses) f) S) ∧
      (Insert.insert (stamp (kthRecent k t.accesses) f) S).card = S.card + 1 := by
  constructor
  · intro x
    rw [Finset.mem_insert, hS x, eq_stamp_iff]
    by_cases hx : (ofLex x).2 = f
    · have hnot := hno.not_entry (k := k) hx
      have hnew : s'.Evictable (ofLex x).2 t := by rwa [hx]
      rw [entry_of_evictable hnew]
      simp [hx, hnot, hp]
    · rw [entry_congr (hoff _ hx)]
      simp [hx]
  · apply Finset.card_insert_of_notMem
    rw [hS]
    exact hno.not_entry rfl

theorem Listed.erase (ht : s.Evictable f t) (hp : p t.accesses.length) (hno : Unlisted s' p f) :
    Listed k s' p (S.erase (stamp (kthRecent k t.accesses) f)) ∧
      (S.erase (stamp (kthRecent k t.accesses) f)).card + 1 = S.card := by
  constructor
  · intro x
    rw [Finset.mem_erase, hS x, ne_eq, eq_stamp_iff]
    by_cases hx : (ofLex x).2 = f
    · have hnot := hno.not_entry (k := k) hx
      have hold : s.Evictable (ofLex x).2 t := by rwa [hx]
      rw [entry_of_evictable hold]
      simp [hx, hnot, hp]
    · rw [entry_congr (hoff _ hx)]
      simp [hx]
  · apply Finset.card_erase_add_one
    rw [hS, entry_of_evictable ht]
    exact ⟨hp, rfl⟩

theorem Listed.unchanged (hno : Unlisted s p f) (hno' : Unlisted s' p f) : Listed k s' p S := by
  intro x
  rw [hS x]
  by_cases hx : (ofLex x).2 = f
  · exact iff_of_false (hno.not_entry hx) (hno'.not_entry hx)
  · exact (entry_congr (hoff _ hx)).symm

theorem Listed.same (ht : s.Evictable f t) (ht' : s'.Evictable f t')
    (hp : p t.accesses.length ↔ p t'.accesses.length)
    (hk : kthRecent k t'.accesses = kthRecent k t.accesses) : Listed k s' p S := by
  intro x
  rw [hS x]
  by_cases hx : (ofLex x).2 = f
  · have hold : s.Evictable (ofLex x).2 t := by rwa [hx]
    have hnew : s'.Evictable (ofLex x).2 t' := by rwa [hx]
    rw [entry_of_evictable hold, entry_of_evictable hnew, hp, hk]
  · exact (entry_congr (hoff _ hx)).symm

end Listed

/-! ### The code keeps to it -/

/-- The last `k` of the accesses: what the code keeps of them. -/
def lastK (k : Nat) (accesses : List Nat) : List Nat := accesses.drop (accesses.length - k)

theorem length_lastK (k : Nat) (l : List Nat) : (lastK k l).length = min k l.length := by
  rw [lastK, List.length_drop]
  omega

theorem length_lastK_lt {k : Nat} {l : List Nat} : (lastK k l).length < k ↔ l.length < k := by
  rw [length_lastK]
  omega

theorem lastK_concat (k a : Nat) (l : List Nat) : lastK k (l ++ [a]) =
    if (lastK k l ++ [a]).length > k then (lastK k l ++ [a]).tail else lastK k l ++ [a] := by
  have hlen : (lastK k l ++ [a]).length = min k l.length + 1 := by
    rw [List.length_append, length_lastK, List.length_singleton]
  rw [hlen]
  by_cases h : k ≤ l.length
  · have h1 : min k l.length + 1 > k := by omega
    have h2 : (l ++ [a]).length - k = l.length - k + 1 := by
      rw [List.length_append, List.length_singleton]
      omega
    rw [if_pos h1, lastK, h2, ← List.drop_drop, List.drop_one]
    rw [List.drop_append_of_le_length (by omega), lastK]
  · have h1 : ¬ min k l.length + 1 > k := by omega
    have h2 : (l ++ [a]).length - k = 0 := by
      rw [List.length_append, List.length_singleton]
      omega
    have h3 : l.length - k = 0 := by omega
    rw [if_neg h1, lastK, h2, lastK, h3, List.drop_zero, List.drop_zero]

/-- Below `k` accesses, a further one leaves the first in place. -/
theorem kthRecent_concat {k a : Nat} {l : List Nat} (hne : l ≠ []) (h : l.length + 1 < k) :
    kthRecent k (l ++ [a]) = kthRecent k l := by
  have h1 : (l ++ [a]).length - k = 0 := by
    rw [List.length_append, List.length_singleton]
    omega
  have h2 : l.length - k = 0 := by omega
  rw [kthRecent, kthRecent, h1, h2, List.drop_zero, List.drop_zero]
  cases l with
  | nil => exact absurd rfl hne
  | cons b l => rfl

theorem kthRecent_mem {k : Nat} {l : List Nat} (hk : 0 < k) (hne : l ≠ []) : kthRecent k l ∈ l := by
  have hlen : 0 < (l.drop (l.length - k)).length := by
    rw [List.length_drop]
    have := List.length_pos_of_ne_nil hne
    omega
  rw [kthRecent, List.headD_eq_head?_getD, List.head?_eq_getElem?, List.getElem?_eq_getElem hlen]
  exact List.mem_of_mem_drop (List.getElem_mem hlen)

def node (k : Nat) (t : Tracked) : LRUKNode := ⟨lastK k t.accesses, t.evictable⟩

/-- The evictor stands for `s`. -/
structure Sim (k : Nat) (e : LRUKEvictor) (s : State) : Prop where
  tidy : s.Tidy
  k_eq : e.k = k
  now_eq : e.currentTimestamp = s.now
  nodes : ∀ f, e.nodeStore f = (s.frames f).map (node k)
  less : Listed k s (· < k) e.lessThanKSet
  full : Listed k s (¬ · < k) e.kSet
  count : e.evictableSize = e.lessThanKSet.card + e.kSet.card

section Sim

variable {k f : Nat} {e : LRUKEvictor} {s : State} {t : Tracked}

theorem sim_initial (k : Nat) : Sim k { k := k } {} := by
  refine ⟨tidy_initial, rfl, rfl, fun _ => rfl, ?_, ?_, rfl⟩ <;>
    · intro x
      simp [Entry, State.Evictable]

theorem front_node (k : Nat) (t : Tracked) :
    LRUKEvictor.LRUKNode.front (node k t) = kthRecent k t.accesses := rfl

theorem unlisted_of_frame {p : Nat → Prop} (hf : s.frames f = some t)
    (h : t.evictable = true → ¬ p t.accesses.length) : Unlisted s p f := by
  rintro u ⟨hu, he⟩
  have heq : u = t := Option.some_inj.mp (hu.symm.trans hf)
  rw [heq] at he ⊢
  exact h he

theorem unlisted_of_none {p : Nat → Prop} (hf : s.frames f = none) : Unlisted s p f := by
  rintro u ⟨hu, -⟩
  rw [hf] at hu
  cases hu

theorem Sim.node_none (h : Sim k e s) (hf : s.frames f = none) : e.nodeStore f = none := by
  rw [h.nodes, hf]
  rfl

theorem Sim.node_some (h : Sim k e s) (hf : s.frames f = some t) :
    e.nodeStore f = some (node k t) := by
  rw [h.nodes, hf]
  rfl

theorem Sim.nodes_update {s' : State} (h : Sim k e s)
    (hoff : ∀ g, g ≠ f → s'.frames g = s.frames g) {o : Option LRUKNode}
    (ho : o = (s'.frames f).map (node k)) (g : Nat) :
    Function.update e.nodeStore f o g = (s'.frames g).map (node k) := by
  by_cases hg : g = f
  · subst hg
    rw [Function.update_self, ho]
  · rw [Function.update_of_ne hg, h.nodes, hoff g hg]

/-- `record_access` on a tracked frame, with what the kept history says put in terms of all of it. -/
theorem recordAccess_some (h : Sim k e s) (hf : s.frames f = some t) :
    e.recordAccess f =
      let t' : Tracked := { t with accesses := t.accesses ++ [s.now] }
      let e' := { e with
        currentTimestamp := s.now + 1
        nodeStore := Function.update e.nodeStore f (some (node k t')) }
      if t.evictable then
        if t.accesses.length < k ∧ ¬ t'.accesses.length < k then
          { e' with
            lessThanKSet := e.lessThanKSet.erase (stamp (kthRecent k t.accesses) f)
            kSet := insert (stamp (kthRecent k t'.accesses) f) e.kSet }
        else if ¬ t.accesses.length < k then
          { e' with
            kSet := insert (stamp (kthRecent k t'.accesses) f)
              (e.kSet.erase (stamp (kthRecent k t.accesses) f)) }
        else e'
      else e' := by
  have hpush : (if (lastK k t.accesses ++ [s.now]).length > k then
      (lastK k t.accesses ++ [s.now]).tail else lastK k t.accesses ++ [s.now]) =
      lastK k (t.accesses ++ [s.now]) := (lastK_concat k s.now t.accesses).symm
  simp only [LRUKEvictor.recordAccess, h.node_some hf, Option.getD_some, h.now_eq, h.k_eq, node,
    hpush, length_lastK_lt]
  rfl

theorem Sim.recordAccess (h : Sim k e s) (f : Nat) : Sim k (e.recordAccess f) (s.access f) := by
  have hoff : ∀ g, g ≠ f → (s.access f).frames g = s.frames g := fun g hg => access_frames_of_ne hg
  have htidy := h.tidy.access f
  have hself := access_frames_self (s := s) (f := f)
  cases hf : s.frames f with
  | none =>
    rw [hf] at hself
    have hnew : e.recordAccess f = { e with
        currentTimestamp := s.now + 1
        nodeStore := Function.update e.nodeStore f (some (node k ⟨[s.now], false⟩)) } := by
      have hpush := (lastK_concat k s.now []).symm
      rw [show lastK k [] = [] from List.drop_nil] at hpush
      simp only [LRUKEvictor.recordAccess, h.node_none hf, Option.getD_none, h.now_eq, h.k_eq, hpush]
      rfl
    rw [hnew]
    have hno : ∀ p, Unlisted s p f := fun p => unlisted_of_none hf
    have hno' : ∀ p, Unlisted (s.access f) p f :=
      fun p => unlisted_of_frame hself (fun he => absurd he Bool.false_ne_true)
    exact ⟨htidy, h.k_eq, rfl, h.nodes_update hoff (by rw [hself]; rfl),
      h.less.unchanged hoff (hno _) (hno' _), h.full.unchanged hoff (hno _) (hno' _), h.count⟩
  | some t =>
    rw [hf] at hself
    replace hself : (s.access f).frames f = some { t with accesses := t.accesses ++ [s.now] } := hself
    have hnodes := h.nodes_update (o := some (node k { t with accesses := t.accesses ++ [s.now] }))
      hoff (by rw [hself]; rfl)
    have hlen : (t.accesses ++ [s.now]).length = t.accesses.length + 1 := by simp
    rw [recordAccess_some h hf]
    simp only
    by_cases he : t.evictable = true
    swap
    · rw [if_neg he]
      have hno : ∀ p, Unlisted s p f := fun p => unlisted_of_frame hf (fun h => absurd h he)
      have hno' : ∀ p, Unlisted (s.access f) p f :=
        fun p => unlisted_of_frame hself (fun h => absurd h he)
      exact ⟨htidy, h.k_eq, rfl, hnodes, h.less.unchanged hoff (hno _) (hno' _),
        h.full.unchanged hoff (hno _) (hno' _), h.count⟩
    · rw [if_pos he]
      have hev : s.Evictable f t := ⟨hf, he⟩
      have hev' : (s.access f).Evictable f { t with accesses := t.accesses ++ [s.now] } := ⟨hself, he⟩
      by_cases hgrad : t.accesses.length < k ∧ ¬ (t.accesses ++ [s.now]).length < k
      · -- the frame graduates from one set to the other
        rw [if_pos hgrad]
        obtain ⟨hlt, hge⟩ := hgrad
        have hless := h.less.erase hoff hev hlt (unlisted_of_frame hself (fun _ => hge))
        have hfull := h.full.insert hoff (unlisted_of_frame hf (fun _ => not_not.mpr hlt)) hev' hge
        refine ⟨htidy, h.k_eq, rfl, hnodes, hless.1, hfull.1, ?_⟩
        have hcount := h.count
        have hcards := hless.2
        change e.evictableSize = (e.lessThanKSet.erase (stamp (kthRecent k t.accesses) f)).card + _
        rw [hfull.2]
        omega
      · rw [if_neg hgrad]
        by_cases hlt : t.accesses.length < k
        · -- still short of `k`: the first access stays the key
          have hlt' : (t.accesses ++ [s.now]).length < k := by
            by_contra hge
            exact hgrad ⟨hlt, hge⟩
          rw [if_neg (not_not.mpr hlt)]
          rw [hlen] at hlt'
          have hkey := kthRecent_concat (a := s.now) (h.tidy.nonempty f t hf) hlt'
          refine ⟨htidy, h.k_eq, rfl, hnodes, h.less.same hoff hev hev' ?_ hkey,
            h.full.same hoff hev hev' ?_ hkey, h.count⟩
          · simp only [hlen, hlt, hlt']
          · simp only [hlen, hlt, hlt']
        · rw [if_pos hlt]
          have hge : ¬ (t.accesses ++ [s.now]).length < k := by
            rw [hlen]
            omega
          have hforget : Listed k (s.forget f) (¬ · < k) _ ∧ _ := h.full.erase
            (fun g hg => forget_frames_of_ne hg) hev hlt (unlisted_of_none forget_frames_self)
          have hfull : Listed k (s.access f) (¬ · < k) _ ∧ _ := hforget.1.insert
            (fun g hg => by rw [hoff g hg, forget_frames_of_ne hg])
            (unlisted_of_none forget_frames_self) hev' hge
          refine ⟨htidy, h.k_eq, rfl, hnodes, h.less.unchanged hoff
            (unlisted_of_frame hf (fun _ => hlt)) (unlisted_of_frame hself (fun _ => hge)), hfull.1, ?_⟩
          change e.evictableSize = _
          rw [hfull.2, hforget.2]
          exact h.count

theorem mark_eq_self {b : Bool} (h : ∀ t, s.frames f = some t → t.evictable = b) :
    s.mark f b = s := by
  have hsame : (s.frames f).map (fun t => { t with evictable := b }) = s.frames f := by
    cases hf : s.frames f with
    | none => rfl
    | some t => rw [Option.map_some, ← h t hf]
  rw [State.mark, hsame, Function.update_eq_self]

theorem forget_eq_self (h : s.frames f = none) : s.forget f = s := by
  rw [State.forget, ← h, Function.update_eq_self]

theorem Sim.setEvictable (h : Sim k e s) (f : Nat) (b : Bool) :
    Sim k (e.setEvictable f b) (s.mark f b) := by
  obtain rfl := h.k_eq
  have hoff : ∀ g, g ≠ f → (s.mark f b).frames g = s.frames g := fun g hg => mark_frames_of_ne hg
  have htidy := h.tidy.mark f b
  cases hf : s.frames f with
  | none =>
    have hnode := h.node_none hf
    rw [mark_eq_self (fun t ht => by rw [hf] at ht; cases ht)]
    simpa only [LRUKEvictor.setEvictable, hnode] using h
  | some t =>
    have hnode := h.node_some hf
    have hself : (s.mark f b).frames f = some { t with evictable := b } := by
      rw [mark_frames_self, hf]
      rfl
    by_cases hb : t.evictable = b
    · rw [mark_eq_self (fun u hu => by rw [hf] at hu; cases hu; exact hb)]
      simpa only [LRUKEvictor.setEvictable, hnode, node, hb, if_true] using h
    · have hnodes := h.nodes_update (o := some (node e.k { t with evictable := b })) hoff
        (by rw [hself]; rfl)
      simp only [LRUKEvictor.setEvictable, hnode, node, hb, if_false, length_lastK_lt]
      have hcount := h.count
      cases b with
      | true =>
        have hno : ∀ p, Unlisted s p f := fun p => unlisted_of_frame hf (fun ht => absurd ht hb)
        have hev' : (s.mark f true).Evictable f { t with evictable := true } := ⟨hself, rfl⟩
        by_cases hlt : t.accesses.length < e.k
        · have hless := h.less.insert hoff (hno _) hev' hlt
          simp only [hlt, if_true]
          refine ⟨htidy, rfl, h.now_eq, hnodes, hless.1, h.full.unchanged hoff (hno _)
            (unlisted_of_frame hself (fun _ => not_not.mpr hlt)), ?_⟩
          have hcards : (insert (stamp (kthRecent e.k t.accesses) f) e.lessThanKSet).card = _ := hless.2
          change e.evictableSize + 1 =
            (insert (stamp (kthRecent e.k t.accesses) f) e.lessThanKSet).card + e.kSet.card
          omega
        · have hfull := h.full.insert hoff (hno _) hev' hlt
          simp only [hlt, if_true, if_false]
          refine ⟨htidy, rfl, h.now_eq, hnodes, h.less.unchanged hoff (hno _)
            (unlisted_of_frame hself (fun _ => hlt)), hfull.1, ?_⟩
          have hcards : (insert (stamp (kthRecent e.k t.accesses) f) e.kSet).card = _ := hfull.2
          change e.evictableSize + 1 =
            e.lessThanKSet.card + (insert (stamp (kthRecent e.k t.accesses) f) e.kSet).card
          omega
      | false =>
        have hev : s.Evictable f t := ⟨hf, by simpa using hb⟩
        have hno' : ∀ p, Unlisted (s.mark f false) p f :=
          fun p => unlisted_of_frame hself (fun ht => absurd ht Bool.false_ne_true)
        by_cases hlt : t.accesses.length < e.k
        · have hless := h.less.erase hoff hev hlt (hno' _)
          simp only [hlt, if_true, Bool.false_eq_true, if_false]
          refine ⟨htidy, rfl, h.now_eq, hnodes, hless.1,
            h.full.unchanged hoff (unlisted_of_frame hf (fun _ => not_not.mpr hlt)) (hno' _), ?_⟩
          have hcards := hless.2
          change e.evictableSize - 1 = (e.lessThanKSet.erase (stamp (kthRecent e.k t.accesses) f)).card +
            e.kSet.card
          omega
        · have hfull := h.full.erase hoff hev hlt (hno' _)
          simp only [hlt, Bool.false_eq_true, if_false]
          refine ⟨htidy, rfl, h.now_eq, hnodes,
            h.less.unchanged hoff (unlisted_of_frame hf (fun _ => hlt)) (hno' _), hfull.1, ?_⟩
          have hcards := hfull.2
          change e.evictableSize - 1 = e.lessThanKSet.card +
            (e.kSet.erase (stamp (kthRecent e.k t.accesses) f)).card
          omega

/-- An evictable frame leaves, from the set it is in. -/
theorem Sim.forget_less (h : Sim k e s) (hev : s.Evictable f t) (hlt : t.accesses.length < k) :
    Sim k { e with
      lessThanKSet := e.lessThanKSet.erase (stamp (kthRecent k t.accesses) f)
      nodeStore := Function.update e.nodeStore f none
      evictableSize := e.evictableSize - 1 } (s.forget f) := by
  have hoff : ∀ g, g ≠ f → (s.forget f).frames g = s.frames g := fun g hg => forget_frames_of_ne hg
  have hself := forget_frames_self (s := s) (f := f)
  have hless := h.less.erase hoff hev hlt (unlisted_of_none hself)
  refine ⟨h.tidy.forget f, h.k_eq, h.now_eq, h.nodes_update hoff (by rw [hself]; rfl), hless.1,
    h.full.unchanged hoff (unlisted_of_frame hev.1 (fun _ => not_not.mpr hlt))
      (unlisted_of_none hself), ?_⟩
  have hcount := h.count
  have hcards := hless.2
  change e.evictableSize - 1 =
    (e.lessThanKSet.erase (stamp (kthRecent k t.accesses) f)).card + e.kSet.card
  omega

theorem Sim.forget_full (h : Sim k e s) (hev : s.Evictable f t) (hge : ¬ t.accesses.length < k) :
    Sim k { e with
      kSet := e.kSet.erase (stamp (kthRecent k t.accesses) f)
      nodeStore := Function.update e.nodeStore f none
      evictableSize := e.evictableSize - 1 } (s.forget f) := by
  have hoff : ∀ g, g ≠ f → (s.forget f).frames g = s.frames g := fun g hg => forget_frames_of_ne hg
  have hself := forget_frames_self (s := s) (f := f)
  have hfull := h.full.erase hoff hev hge (unlisted_of_none hself)
  refine ⟨h.tidy.forget f, h.k_eq, h.now_eq, h.nodes_update hoff (by rw [hself]; rfl),
    h.less.unchanged hoff (unlisted_of_frame hev.1 (fun _ => hge)) (unlisted_of_none hself),
    hfull.1, ?_⟩
  have hcount := h.count
  have hcards := hfull.2
  change e.evictableSize - 1 =
    e.lessThanKSet.card + (e.kSet.erase (stamp (kthRecent k t.accesses) f)).card
  omega

theorem Sim.remove (h : Sim k e s) (f : Nat) : Sim k (e.remove f) (s.forget f) := by
  obtain rfl := h.k_eq
  cases hf : s.frames f with
  | none =>
    have hnode := h.node_none hf
    rw [forget_eq_self hf]
    simpa only [LRUKEvictor.remove, hnode] using h
  | some t =>
    simp only [LRUKEvictor.remove, h.node_some hf, node, length_lastK_lt]
    by_cases he : t.evictable = true
    · by_cases hlt : t.accesses.length < e.k
      · rw [if_pos he, if_pos hlt]
        exact h.forget_less ⟨hf, he⟩ hlt
      · rw [if_pos he, if_neg hlt]
        exact h.forget_full ⟨hf, he⟩ hlt
    · rw [if_neg he]
      have hoff : ∀ g, g ≠ f → (s.forget f).frames g = s.frames g :=
        fun g hg => forget_frames_of_ne hg
      have hself := forget_frames_self (s := s) (f := f)
      have hno : ∀ p, Unlisted s p f := fun p => unlisted_of_frame hf (fun ht => absurd ht he)
      exact ⟨h.tidy.forget f, rfl, h.now_eq, h.nodes_update hoff (by rw [hself]; rfl),
        h.less.unchanged hoff (hno _) (unlisted_of_none hself),
        h.full.unchanged hoff (hno _) (unlisted_of_none hself), h.count⟩

theorem begin_eq_none {S : Finset Stamp} : LRUKEvictor.begin? S = none ↔ S = ∅ := by
  rw [LRUKEvictor.begin?, dite_eq_right_iff, ← Finset.not_nonempty_iff_eq_empty]
  simp

theorem begin_eq_some {S : Finset Stamp} {x : Stamp} (h : LRUKEvictor.begin? S = some x) :
    x ∈ S ∧ ∀ y ∈ S, x ≤ y := by
  rw [LRUKEvictor.begin?] at h
  split at h
  · cases h
    exact ⟨Finset.min'_mem _ _, fun y hy => Finset.min'_le _ y hy⟩
  · cases h

/-- Frames are told apart by the times they were accessed at. -/
theorem State.Tidy.kthRecent_ne (h : s.Tidy) (hk : 0 < k) {g : Nat} {u : Tracked} (hne : g ≠ f)
    (ht : s.frames f = some t) (hu : s.frames g = some u) :
    kthRecent k t.accesses ≠ kthRecent k u.accesses := by
  intro heq
  have hmem := kthRecent_mem hk (h.nonempty f t ht)
  have hmem' := kthRecent_mem hk (h.nonempty g u hu)
  rw [← heq] at hmem'
  exact h.apart f g t u (Ne.symm hne) ht hu _ hmem hmem'

/-- The least entry of a set is the one with the earliest time. -/
theorem Listed.earliest {p : Nat → Prop} {S : Finset Stamp} {x : Stamp} (hS : Listed k s p S)
    (htidy : s.Tidy) (hk : 0 < k) (hx : LRUKEvictor.begin? S = some x) :
    ∃ t, s.Evictable (ofLex x).2 t ∧ p t.accesses.length ∧
      x = stamp (kthRecent k t.accesses) (ofLex x).2 ∧
      ∀ g u, g ≠ (ofLex x).2 → s.Evictable g u → p u.accesses.length →
        kthRecent k t.accesses < kthRecent k u.accesses := by
  obtain ⟨hmem, hmin⟩ := begin_eq_some hx
  obtain ⟨t, ht, hp, hts⟩ := (hS x).mp hmem
  refine ⟨t, ht, hp, eq_stamp_iff.mpr ⟨hts, rfl⟩, ?_⟩
  intro g u hg hu hpu
  have hle := hmin (stamp (kthRecent k u.accesses) g) ((hS _).mpr ⟨u, hu, hpu, rfl⟩)
  rw [Prod.Lex.le_iff, hts] at hle
  rcases hle with hlt | ⟨heq, -⟩
  · exact hlt
  · exact absurd heq (htidy.kthRecent_ne hk hg ht.1 hu.1)

theorem kthRecent_of_lt {l : List Nat} (h : l.length < k) : kthRecent k l = l.headD 0 := by
  have h0 : l.length - k = 0 := by omega
  rw [kthRecent, h0, List.drop_zero]

theorem Sim.evictable_iff (h : Sim k e s) : e.Evictable f ↔ ∃ t, s.Evictable f t := by
  simp only [LRUKEvictor.Evictable, h.nodes, Option.map_eq_some_iff]
  constructor
  · rintro ⟨_, ⟨t, ht, rfl⟩, hev⟩
    exact ⟨t, ht, hev⟩
  · rintro ⟨t, ht, hev⟩
    exact ⟨_, ⟨t, ht, rfl⟩, hev⟩

/-- Nothing in the sets, nothing evictable. -/
theorem Sim.empty_iff (h : Sim k e s) : e.evictableSize = 0 ↔ ∀ f t, ¬ s.Evictable f t := by
  rw [h.count]
  constructor
  · intro hzero f t ht
    have hless : e.lessThanKSet = ∅ := Finset.card_eq_zero.mp (by omega)
    have hfull : e.kSet = ∅ := Finset.card_eq_zero.mp (by omega)
    by_cases hlt : t.accesses.length < k
    · have hmem := (h.less (stamp (kthRecent k t.accesses) f)).mpr ⟨t, ht, hlt, rfl⟩
      simp [hless] at hmem
    · have hmem := (h.full (stamp (kthRecent k t.accesses) f)).mpr ⟨t, ht, hlt, rfl⟩
      simp [hfull] at hmem
  · intro hnone
    have hless : e.lessThanKSet = ∅ := by
      apply Finset.eq_empty_of_forall_notMem
      intro x hx
      obtain ⟨t, ht, -⟩ := (h.less x).mp hx
      exact hnone _ t ht
    have hfull : e.kSet = ∅ := by
      apply Finset.eq_empty_of_forall_notMem
      intro x hx
      obtain ⟨t, ht, -⟩ := (h.full x).mp hx
      exact hnone _ t ht
    rw [hless, hfull, Finset.card_empty]

theorem Sim.evict (h : Sim k e s) (hk : 0 < k) :
    ∃ s', Step k s .evict e.evict.1 s' ∧ Sim k e.evict.2 s' := by
  rw [LRUKEvictor.evict]
  by_cases hzero : e.evictableSize = 0
  · rw [if_pos hzero]
    exact ⟨s, .none s (h.empty_iff.mp hzero), h⟩
  · rw [if_neg hzero]
    cases hless : LRUKEvictor.begin? e.lessThanKSet with
    | some x =>
      obtain ⟨t, ht, hlt, hx, hmin⟩ := h.less.earliest h.tidy hk hless
      refine ⟨s.forget (ofLex x).2, .some s _ ⟨t, ht, .inl ⟨hlt, ?_⟩⟩, ?_⟩
      · intro g u hg hu hltu
        have hfirst := hmin g u hg hu hltu
        rwa [kthRecent_of_lt hlt, kthRecent_of_lt hltu] at hfirst
      · have hsim := h.forget_less ht hlt
        rw [← hx] at hsim
        exact hsim
    | none =>
      have hempty := begin_eq_none.mp hless
      have hnoless : ∀ g u, s.Evictable g u → ¬ u.accesses.length < k := by
        intro g u hu hltu
        have hmem := (h.less (stamp (kthRecent k u.accesses) g)).mpr ⟨u, hu, hltu, rfl⟩
        simp [hempty] at hmem
      cases hfull : LRUKEvictor.begin? e.kSet with
      | some x =>
        obtain ⟨t, ht, hge, hx, hmin⟩ := h.full.earliest h.tidy hk hfull
        refine ⟨s.forget (ofLex x).2, .some s _ ⟨t, ht, .inr ⟨?_, ?_⟩⟩, ?_⟩
        · intro g u hu
          exact Nat.le_of_not_lt (hnoless g u hu)
        · intro g u hg hu
          exact hmin g u hg hu (hnoless g u hu)
        · have hsim := h.forget_full ht hge
          rw [← hx] at hsim
          exact hsim
      | none =>
        have hcount := h.count
        rw [hempty, begin_eq_none.mp hfull, Finset.card_empty] at hcount
        exact absurd hcount hzero

/-- The size is the number of tracked evictable frames. -/
theorem Sim.size_eq (h : Sim k e s) : e.size = {f | ∃ t, s.Evictable f t}.ncard := by
  have hdisj : Disjoint e.lessThanKSet e.kSet := by
    rw [Finset.disjoint_left]
    intro x hx hx'
    obtain ⟨t, ht, hlt, -⟩ := (h.less x).mp hx
    obtain ⟨u, hu, hge, -⟩ := (h.full x).mp hx'
    have heq : u = t := Option.some_inj.mp (hu.1.symm.trans ht.1)
    rw [heq] at hge
    exact hge hlt
  have hmem : ∀ x, x ∈ e.lessThanKSet ∪ e.kSet ↔ Entry k s (fun _ => True) x := by
    intro x
    rw [Finset.mem_union, h.less, h.full]
    constructor
    · rintro (⟨t, ht, -, hx⟩ | ⟨t, ht, -, hx⟩) <;> exact ⟨t, ht, trivial, hx⟩
    · rintro ⟨t, ht, -, hx⟩
      by_cases hlt : t.accesses.length < k
      · exact .inl ⟨t, ht, hlt, hx⟩
      · exact .inr ⟨t, ht, hlt, hx⟩
  have hset : {f | ∃ t, s.Evictable f t} =
      ((e.lessThanKSet ∪ e.kSet).image (fun x => (ofLex x).2) : Finset Nat) := by
    ext f
    simp only [Set.mem_ofPred_eq, Finset.coe_image, Set.mem_image, Finset.mem_coe]
    constructor
    · rintro ⟨t, ht⟩
      exact ⟨stamp (kthRecent k t.accesses) f, (hmem _).mpr ⟨t, ht, trivial, rfl⟩, rfl⟩
    · rintro ⟨x, hx, rfl⟩
      obtain ⟨t, ht, -⟩ := (hmem x).mp hx
      exact ⟨t, ht⟩
  rw [hset, Set.ncard_coe_finset, Finset.card_image_of_injOn, Finset.card_union_of_disjoint hdisj]
  · exact h.count
  · -- a frame has one entry
    intro x hx y hy hxy
    obtain ⟨t, ht, -, hts⟩ := (hmem x).mp hx
    obtain ⟨u, hu, -, hus⟩ := (hmem y).mp hy
    replace hxy : (ofLex x).2 = (ofLex y).2 := hxy
    rw [hxy] at ht
    have heq : u = t := Option.some_inj.mp (hu.1.symm.trans ht.1)
    rw [heq] at hus
    exact Prod.ext (hts.trans hus.symm) hxy

end Sim

/-- One operation of the code, with the answer it gives. -/
def Op.run (e : LRUKEvictor) : Op → Option Nat × LRUKEvictor
  | .recordAccess f => (none, e.recordAccess f)
  | .setEvictable f b => (none, e.setEvictable f b)
  | .remove f => (none, e.remove f)
  | .evict => e.evict

def Op.runAll : LRUKEvictor → List Op → List (Op × Option Nat) × LRUKEvictor
  | e, [] => ([], e)
  | e, op :: ops =>
    let (r, e) := op.run e
    let (rs, e) := Op.runAll e ops
    ((op, r) :: rs, e)

theorem Sim.run {k : Nat} {e : LRUKEvictor} {s : State} (h : Sim k e s) (hk : 0 < k) (op : Op) :
    ∃ s', Step k s op (op.run e).1 s' ∧ Sim k (op.run e).2 s' := by
  cases op with
  | recordAccess f => exact ⟨_, .recordAccess s f, h.recordAccess f⟩
  | setEvictable f b => exact ⟨_, .setEvictable s f b, h.setEvictable f b⟩
  | remove f => exact ⟨_, .remove s f, h.remove f⟩
  | evict => exact h.evict hk

theorem Sim.runAll {k : Nat} {e : LRUKEvictor} {s : State} (h : Sim k e s) (hk : 0 < k)
    (ops : List Op) :
    ∃ s', Run k s (Op.runAll e ops).1 s' ∧ Sim k (Op.runAll e ops).2 s' := by
  induction ops generalizing e s with
  | nil => exact ⟨s, .nil s, h⟩
  | cons op ops ih =>
    obtain ⟨s', hstep, hsim⟩ := h.run hk op
    obtain ⟨s'', hrun, hsim'⟩ := ih hsim
    exact ⟨s'', .cons hstep hrun, hsim'⟩

/-- The evictor implements LRU-K: the answers of every run are answers LRU-K may give, and the
size is the number of tracked evictable frames. -/
theorem runAll_lruk (k : Nat) (hk : 1 ≤ k) (ops : List Op) :
    ∃ s, Run k {} (Op.runAll { k := k } ops).1 s ∧
      (Op.runAll { k := k } ops).2.size = {f | ∃ t, s.Evictable f t}.ncard := by
  obtain ⟨s, hrun, hsim⟩ := (sim_initial k).runAll hk ops
  exact ⟨s, hrun, hsim.size_eq⟩

theorem runAll_lruk_two : ∃ s, Run 2 {} (Op.runAll { k := 2 }
    [.recordAccess 0, .recordAccess 1, .setEvictable 0 true, .evict]).1 s ∧
      (Op.runAll { k := 2 } [.recordAccess 0, .recordAccess 1, .setEvictable 0 true, .evict]).2.size =
        {f | ∃ t, s.Evictable f t}.ncard :=
  runAll_lruk 2 (by decide) _

end Lruk

end Cpplite
