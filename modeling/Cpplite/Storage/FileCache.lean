import Cpplite.Base
import Cpplite.Lib.Chain
import Cpplite.Lib.Recency

/-!
The cache of open files: `filecache.h` and `filecache.cpp`.

The nodes live in a heap under their addresses; address 0 is `nullptr`. The map, the
doubly linked list and the counter are kept by hand on every path, and one path
forgets the map: `put` of a key that is cached already.
-/
namespace Cpplite

open Exec Linked Recency

/-- A table and one of its segments. -/
abbrev FileKey := Nat × Nat

/-- `MAX_CACHE_SIZE` -/
def maxCacheSize : Nat := 10

structure FileNode (F : Type) where
  key : FileKey
  file : F
  prev : Nat
  next : Nat

/-- `closed` collects the files that were closed, in order. -/
structure FileCache (F : Type) where
  heap : Nat → Option (FileNode F) := fun _ => none
  brk : Nat := 1
  filecache : FileKey → Option Nat := fun _ => none
  head : Nat := 0
  tail : Nat := 0
  size : Nat := 0
  closed : List F := []

abbrev FileCacheM (F : Type) := EStateM Error (FileCache F)

namespace FileCache

variable {F : Type}

/-- `*node` -/
def deref (a : Nat) : FileCacheM F (FileNode F) := do
  let c ← get
  match c.heap a with
  | some node => return node
  | none => throw .undefined

/-- An assignment through a pointer. -/
def store (a : Nat) (f : FileNode F → FileNode F) : FileCacheM F Unit := do
  let node ← deref a
  modify fun c => { c with heap := Function.update c.heap a (some (f node)) }

variable [Build]

def insertNode (a : Nat) : FileCacheM F Unit := do
  assert (a ≠ 0)
  store a fun node => { node with prev := 0, next := 0 }
  let c ← get
  if c.head = 0 then do
    assert (c.tail = 0)
    modify fun c => { c with head := a, tail := a }
  else do
    store a fun node => { node with next := c.head }
    store c.head fun node => { node with prev := a }
    modify fun c => { c with head := a }

def deleteNode (key : FileKey) : FileCacheM F Unit := do
  let c ← get
  match c.filecache key with
  | none => return
  | some a => do
    assert (a ≠ 0)
    let node ← deref a
    when (node.prev ≠ 0) (store node.prev fun p => { p with next := node.next })
    when (node.next ≠ 0) (store node.next fun n => { n with prev := node.prev })
    let node ← deref a
    modify fun c => { c with
      head := if c.head = a then node.next else c.head
      tail := if c.tail = a then node.prev else c.tail
      filecache := Function.update c.filecache key none }

/-- `exists` -/
def cached (key : FileKey) : FileCacheM F Bool := do
  let c ← get
  return (c.filecache key).isSome

def get (key : FileKey) : FileCacheM F (Option F) := do
  let c ← MonadState.get
  match c.filecache key with
  | none => return none
  | some a => do
    assert (a ≠ 0)
    deleteNode key
    insertNode a
    modify fun c => { c with filecache := Function.update c.filecache key (some a) }
    let node ← deref a
    return some node.file

/-- Closing, unlinking and freeing the last node of the list. -/
def evictLast : FileCacheM F Unit := do
  let c ← MonadState.get
  assert (c.tail ≠ 0)
  let node ← deref c.tail
  modify fun c => { c with closed := c.closed ++ [node.file] }
  deleteNode node.key
  modify fun d => { d with heap := Function.update d.heap c.tail none, size := d.size - 1 }

/-- `new FileNode` -/
def allocate (node : FileNode F) : FileCacheM F Nat := do
  let c ← MonadState.get
  set { c with heap := Function.update c.heap c.brk (some node), brk := c.brk + 1 }
  return c.brk

def put (key : FileKey) (file : F) : FileCacheM F Unit := do
  let c ← MonadState.get
  match c.filecache key with
  | some a => do
    deleteNode key
    insertNode a
  | none => do
    when (c.size = maxCacheSize) evictLast
    let a ← allocate ⟨key, file, 0, 0⟩
    insertNode a
    modify fun c => { c with
      size := c.size + 1
      filecache := Function.update c.filecache key (some a) }

end FileCache

/-! ### An LRU map -/

/-- What the cache is for: the files under the most recently put or got keys, and the files that
were closed. -/
structure LruMap (F : Type) where
  recency : Uses FileKey F := []
  closed : List F := []

namespace LruMap

variable {F : Type}

def find (m : LruMap F) (key : FileKey) : Option F := lookup maxCacheSize key m.recency

def get (m : LruMap F) (key : FileKey) : Option F × LruMap F :=
  match m.find key with
  | some file => (some file, { m with recency := touch key file m.recency })
  | none => (none, m)

/-- A cached key keeps its file; for a new one the least recently used file of a full cache is closed. -/
def put (m : LruMap F) (key : FileKey) (file : F) : LruMap F :=
  match m.find key with
  | some old => { m with recency := touch key old m.recency }
  | none =>
    { recency := touch key file m.recency
      closed := m.closed ++ (m.recency[maxCacheSize - 1]?.map Prod.snd).toList }

end LruMap

/-! ### The linked list -/

namespace FileCache

variable {F : Type}

abbrev Heap (F : Type) := Nat → Option (FileNode F)

def Heap.links (h : Heap F) (a : Nat) : Option (Nat × Nat) := (h a).map fun n => (n.prev, n.next)

/-- What a node is about, apart from its links. -/
def Heap.entry (h : Heap F) (a : Nat) : Option (FileKey × F) := (h a).map fun n => (n.key, n.file)

def Heap.setNext (h : Heap F) (p x : Nat) : Heap F :=
  fun q => if q = p then (h q).map fun n => { n with next := x } else h q

def Heap.setPrev (h : Heap F) (p x : Nat) : Heap F :=
  fun q => if q = p then (h q).map fun n => { n with prev := x } else h q

section Heap

variable {h : Heap F} {p x q a : Nat} {node : FileNode F}

theorem links_setNext : (h.setNext p x).links q =
    if q = p then (h.links q).map (fun e => (e.1, x)) else h.links q := by
  by_cases hq : q = p <;> simp [Heap.setNext, Heap.links, hq, Function.comp_def]

theorem links_setPrev : (h.setPrev p x).links q =
    if q = p then (h.links q).map (fun e => (x, e.2)) else h.links q := by
  by_cases hq : q = p <;> simp [Heap.setPrev, Heap.links, hq, Function.comp_def]

theorem entry_setNext : (h.setNext p x).entry q = h.entry q := by
  by_cases hq : q = p <;> simp [Heap.setNext, Heap.entry, hq, Function.comp_def]

theorem entry_setPrev : (h.setPrev p x).entry q = h.entry q := by
  by_cases hq : q = p <;> simp [Heap.setPrev, Heap.entry, hq, Function.comp_def]

theorem setNext_eq_update (hp : h p = some node) :
    h.setNext p x = Function.update h p (some { node with next := x }) := by
  funext q
  by_cases hq : q = p
  · subst hq
    simp [Heap.setNext, hp]
  · simp [Heap.setNext, hq]

theorem setPrev_eq_update (hp : h p = some node) :
    h.setPrev p x = Function.update h p (some { node with prev := x }) := by
  funext q
  by_cases hq : q = p
  · subst hq
    simp [Heap.setPrev, hp]
  · simp [Heap.setPrev, hq]

theorem setNext_of_none (hp : h p = none) : h.setNext p x = h := by
  funext q
  by_cases hq : q = p
  · subst hq
    simp [Heap.setNext, hp]
  · simp [Heap.setNext, hq]

theorem setPrev_of_none (hp : h p = none) : h.setPrev p x = h := by
  funext q
  by_cases hq : q = p
  · subst hq
    simp [Heap.setPrev, hp]
  · simp [Heap.setPrev, hq]

end Heap

/-- The nodes `as` are the list, first to last. -/
structure Ring (c : FileCache F) (as : List Nat) : Prop where
  null : c.heap 0 = none
  segment : Segment (Heap.links c.heap) 0 as 0
  nodup : as.Nodup
  head_eq : c.head = as.headD 0
  tail_eq : c.tail = as.getLastD 0

section Ring

variable {c : FileCache F} {as l₁ l₂ : List Nat} {a : Nat} {key : FileKey} {node : FileNode F}

theorem node_of_links {h : Heap F} {e : Nat × Nat} (hl : h.links a = some e) :
    ∃ n, h a = some n ∧ n.prev = e.1 ∧ n.next = e.2 := by
  obtain ⟨n, hn, heq⟩ := Option.map_eq_some_iff.mp hl
  exact ⟨n, hn, congrArg Prod.fst heq, congrArg Prod.snd heq⟩

theorem Ring.mem_heap (h : Ring c as) (ha : a ∈ as) : ∃ n, c.heap a = some n := by
  obtain ⟨e, he⟩ := h.segment.of_mem ha
  obtain ⟨n, hn, -⟩ := node_of_links he
  exact ⟨n, hn⟩

theorem Ring.ne_zero (h : Ring c as) (ha : a ∈ as) : a ≠ 0 := by
  rintro rfl
  obtain ⟨n, hn⟩ := h.mem_heap ha
  rw [h.null] at hn
  cases hn

theorem deref_ok (hn : c.heap a = some node) : deref a c = .ok node c := by
  simp only [deref, bind_ok get_ok, hn]
  rfl

theorem store_ok {f : FileNode F → FileNode F} (hn : c.heap a = some node) :
    store a f c = .ok () { c with heap := Function.update c.heap a (some (f node)) } := by
  rw [store, bind_ok (deref_ok hn)]
  rfl

/-- A guarded store to a neighbour's link. -/
theorem storeNext_ok {x : Nat} (h0 : c.heap 0 = none) (h : a = 0 ∨ ∃ n, c.heap a = some n) :
    when (a ≠ 0) (store a fun p => { p with next := x }) c =
      .ok () { c with heap := Heap.setNext c.heap a x } := by
  by_cases ha : a = 0
  · subst ha
    rw [when, if_neg (by simp), setNext_of_none h0]
    rfl
  · obtain ⟨n, hn⟩ := h.resolve_left ha
    rw [when, if_pos ha, store_ok hn, setNext_eq_update hn]

theorem storePrev_ok {x : Nat} (h0 : c.heap 0 = none) (h : a = 0 ∨ ∃ n, c.heap a = some n) :
    when (a ≠ 0) (store a fun p => { p with prev := x }) c =
      .ok () { c with heap := Heap.setPrev c.heap a x } := by
  by_cases ha : a = 0
  · subst ha
    rw [when, if_neg (by simp), setPrev_of_none h0]
    rfl
  · obtain ⟨n, hn⟩ := h.resolve_left ha
    rw [when, if_pos ha, store_ok hn, setPrev_eq_update hn]

theorem getLastD_notMem_right (hnd : (l₁ ++ a :: l₂).Nodup) (h0 : 0 ∉ l₁ ++ a :: l₂) :
    l₁.getLastD 0 ∉ a :: l₂ := by
  intro hmem
  rcases getLastD_mem_or l₁ 0 with hz | hm
  · rw [hz] at hmem
    exact h0 (List.mem_append_right _ hmem)
  · exact (List.nodup_append.mp hnd).2.2 _ hm _ hmem rfl

theorem headD_notMem_left (hnd : (l₁ ++ a :: l₂).Nodup) (h0 : 0 ∉ l₁ ++ a :: l₂) :
    l₂.headD 0 ∉ l₁ ++ [a] := by
  intro hmem
  rcases headD_mem_or l₂ 0 with hz | hm
  · rw [hz] at hmem
    exact h0 (by simp only [List.mem_append, List.mem_cons] at hmem ⊢; tauto)
  · have hnd' : ((l₁ ++ [a]) ++ l₂).Nodup := by simpa using hnd
    exact (List.nodup_append.mp hnd').2.2 _ hmem _ hm rfl

/-- A node linked out. -/
def Heap.unlink (h : Heap F) (prev next : Nat) : Heap F := (h.setNext prev next).setPrev next prev

theorem Ring.unlink (h : Ring c (l₁ ++ a :: l₂)) :
    Segment (Heap.links (Heap.unlink c.heap (l₁.getLastD 0) (l₂.headD 0))) 0 (l₁ ++ l₂) 0 := by
  obtain ⟨hl, hr⟩ := segment_append.mp h.segment
  have hzero : 0 ∉ l₁ ++ a :: l₂ := fun hm => h.ne_zero hm rfl
  have hprev := getLastD_notMem_right h.nodup hzero
  have hnext := headD_notMem_left h.nodup hzero
  have hnd₁ : l₁.Nodup := (List.nodup_append.mp h.nodup).1
  have hnd₂ : l₂.Nodup := (List.nodup_cons.mp (List.nodup_append.mp h.nodup).2.1).2
  rw [segment_append]
  constructor
  · have hseg : Segment (Heap.links (Heap.setNext c.heap (l₁.getLastD 0) (l₂.headD 0))) 0 l₁
        (l₂.headD 0) := hl.relink_next (z := 0) hnd₁ (fun q _ => links_setNext)
    refine (segment_congr ?_).mpr hseg
    intro q hq
    rw [Heap.unlink, links_setPrev, if_neg]
    rintro rfl
    exact hnext (List.mem_append_left _ hq)
  · refine hr.2.relink_prev (z := 0) hnd₂ (fun q hq => ?_)
    rw [Heap.unlink, links_setPrev, links_setNext, if_neg (c := q = l₁.getLastD 0)]
    rintro rfl
    exact hprev (List.mem_cons_of_mem _ hq)

/-- `delete_node` on a cached key: its node is linked out and the key is forgotten. -/
theorem deleteNode_ok [Build] (h : Ring c (l₁ ++ a :: l₂)) (hk : c.filecache key = some a) :
    deleteNode key c = .ok () { c with
      heap := Heap.unlink c.heap (l₁.getLastD 0) (l₂.headD 0)
      head := (l₁ ++ l₂).headD 0
      tail := (l₁ ++ l₂).getLastD 0
      filecache := Function.update c.filecache key none } := by
  have hmem : a ∈ l₁ ++ a :: l₂ := by simp
  have hzero : 0 ∉ l₁ ++ a :: l₂ := fun hm => h.ne_zero hm rfl
  have hprev := getLastD_notMem_right h.nodup hzero
  have hnext := headD_notMem_left h.nodup hzero
  obtain ⟨n, hn, hnp, hnn⟩ := node_of_links (segment_append.mp h.segment).2.1
  have hne : a ≠ l₁.getLastD 0 := by
    intro heq
    rw [← heq] at hprev
    exact hprev (List.mem_cons_self)
  have hne' : a ≠ l₂.headD 0 := by
    intro heq
    rw [← heq] at hnext
    exact hnext (List.mem_append_right _ List.mem_cons_self)
  have hleft : l₁.getLastD 0 = 0 ∨ ∃ n, c.heap (l₁.getLastD 0) = some n :=
    (getLastD_mem_or l₁ 0).imp_right (fun hm => h.mem_heap (List.mem_append_left _ hm))
  have hright : l₂.headD 0 = 0 ∨
      ∃ n, Heap.setNext c.heap (l₁.getLastD 0) (l₂.headD 0) (l₂.headD 0) = some n := by
    refine (headD_mem_or l₂ 0).imp_right (fun hm => ?_)
    obtain ⟨n, hn⟩ := h.mem_heap (List.mem_append_right _ (List.mem_cons_of_mem _ hm))
    rw [Heap.setNext, hn]
    split <;> exact ⟨_, rfl⟩
  have hnull : Heap.setNext c.heap (l₁.getLastD 0) (l₂.headD 0) 0 = none := by
    rw [Heap.setNext, h.null]
    split <;> rfl
  have hstay : Heap.unlink c.heap (l₁.getLastD 0) (l₂.headD 0) a = some n := by
    rw [Heap.unlink, Heap.setPrev, if_neg hne', Heap.setNext, if_neg hne, hn]
  have hhead : (if c.head = a then n.next else c.head) = (l₁ ++ l₂).headD 0 := by
    rw [h.head_eq, hnn]
    cases l₁ with
    | nil => simp
    | cons b l₁ =>
      have hb : b ≠ a := by
        rintro rfl
        exact (List.nodup_cons.mp h.nodup).1 (by simp)
      simp [hb]
  have htail : (if c.tail = a then n.prev else c.tail) = (l₁ ++ l₂).getLastD 0 := by
    rw [h.tail_eq, hnp]
    rcases List.eq_nil_or_concat' l₂ with rfl | ⟨l, b, rfl⟩
    · simp
    · have hb : b ≠ a := by
        rintro rfl
        have hnd := (List.nodup_append.mp h.nodup).2.1
        exact (List.nodup_cons.mp hnd).1 (by simp)
      rw [show l₁ ++ a :: (l ++ [b]) = (l₁ ++ a :: l) ++ [b] by simp, ← List.append_assoc,
        List.getLastD_concat, List.getLastD_concat, if_neg hb]
  rw [deleteNode, bind_ok get_ok]
  simp only [hk]
  rw [bind_ok (assert_ok (.inr (h.ne_zero hmem))), bind_ok (deref_ok hn), hnp, hnn,
    bind_ok (storeNext_ok h.null hleft), bind_ok (storePrev_ok hnull hright)]
  rw [bind_ok (deref_ok hstay)]
  simp only [← hhead, ← htail]
  rfl

/-- `insert_node` puts a node that is not in the list before the others. -/
theorem insertNode_ok [Build] (h : Ring c as) (ha : a ∉ as) (h0 : a ≠ 0) {n : FileNode F}
    (hn : c.heap a = some n) : ∃ heap, insertNode a c =
      .ok () { c with heap := heap, head := a, tail := (a :: as).getLastD 0 } ∧
      Segment (Heap.links heap) 0 (a :: as) 0 ∧ (∀ x, Heap.entry heap x = Heap.entry c.heap x) ∧
      ∀ x, heap x = none ↔ c.heap x = none := by
  have hstore := store_ok (f := fun n => { n with prev := 0, next := 0 }) hn
  have hentry : ∀ p q x, Heap.entry (Function.update c.heap a (some { n with prev := p, next := q })) x =
      Heap.entry c.heap x := by
    intro p q x
    by_cases hx : x = a
    · subst hx
      simp [Heap.entry, hn]
    · simp [Heap.entry, hx]
  cases as with
  | nil =>
    refine ⟨_, ?_, ⟨?_, trivial⟩, hentry 0 0, ?_⟩
    · rw [insertNode, bind_ok (assert_ok (.inr h0)), bind_ok hstore, bind_ok get_ok]
      have hhead : c.head = 0 := h.head_eq
      have htail : c.tail = 0 := h.tail_eq
      simp only [hhead, if_true]
      rw [bind_ok (assert_ok (.inr htail))]
      rfl
    · simp [Heap.links]
    · intro x
      by_cases hx : x = a
      · subst hx
        simp [hn]
      · simp [hx]
  | cons b rest =>
    have hb0 : b ≠ 0 := h.ne_zero (by simp)
    have hba : b ≠ a := by
      rintro rfl
      exact ha (by simp)
    obtain ⟨nb, hnb⟩ := h.mem_heap (a := b) (by simp)
    have hlink : Function.update (Function.update c.heap a (some { n with prev := 0, next := 0 })) a
        (some { n with prev := 0, next := b }) =
        Function.update c.heap a (some { n with prev := 0, next := b }) := Function.update_idem _ _ _
    have hnb' : Function.update c.heap a (some { n with prev := 0, next := b }) b = some nb := by
      rw [Function.update_of_ne hba, hnb]
    refine ⟨Heap.setPrev (Function.update c.heap a (some { n with prev := 0, next := b })) b a,
      ?_, ⟨?_, ?_⟩, ?_, ?_⟩
    · have hhead : c.head = b := h.head_eq
      have hagain : store a (fun n => { n with next := b })
          { c with heap := Function.update c.heap a (some { n with prev := 0, next := 0 }) } =
          .ok () { c with heap := Function.update c.heap a (some { n with prev := 0, next := b }) } := by
        rw [store_ok (Function.update_self _ _ _)]
        simp only [hlink]
      have hprev := store_ok (f := fun n => { n with prev := a })
        (c := { c with heap := Function.update c.heap a (some { n with prev := 0, next := b }) }) hnb'
      rw [insertNode, bind_ok (assert_ok (.inr h0)), bind_ok hstore, bind_ok get_ok]
      simp only [hhead, hb0, if_false] at hagain hprev ⊢
      rw [bind_ok hagain, bind_ok hprev, setPrev_eq_update hnb']
      have htail : c.tail = (a :: b :: rest).getLastD 0 := by
        rw [h.tail_eq]
        rfl
      simp only [← htail]
      rfl
    · rw [links_setPrev, if_neg (Ne.symm hba)]
      simp [Heap.links]
    · refine h.segment.relink_prev (z := 0) h.nodup (fun q hq => ?_)
      have hqa : q ≠ a := by
        rintro rfl
        exact ha hq
      rw [links_setPrev]
      simp [Heap.links, hqa]
    · intro x
      rw [entry_setPrev, hentry]
    · intro x
      have hmap : Heap.setPrev (Function.update c.heap a (some { n with prev := 0, next := b })) b a x =
          none ↔ Function.update c.heap a (some { n with prev := 0, next := b }) x = none := by
        rw [Heap.setPrev]
        split <;> simp
      rw [hmap]
      by_cases hx : x = a
      · subst hx
        simp [hn]
      · rw [Function.update_of_ne hx]

end Ring

/-! ### The list and the map -/

/-- The list shows the entries `l`, and the map leads to exactly its nodes. -/
structure Lists (c : FileCache F) (as : List Nat) (l : Uses FileKey F) : Prop where
  ring : Ring c as
  entries : List.Forall₂ (fun a e => Heap.entry c.heap a = some e) as l
  mapped : ∀ key a, c.filecache key = some a ↔
    a ∈ as ∧ ∃ file, Heap.entry c.heap a = some (key, file)

/-- What an operation on the list leaves alone. -/
structure Frame (c c' : FileCache F) : Prop where
  entry_eq : ∀ x, Heap.entry c'.heap x = Heap.entry c.heap x
  none_iff : ∀ x, c'.heap x = none ↔ c.heap x = none
  brk_eq : c'.brk = c.brk
  size_eq : c'.size = c.size
  closed_eq : c'.closed = c.closed

theorem Frame.trans {c c' c'' : FileCache F} (h : Frame c c') (h' : Frame c' c'') : Frame c c'' :=
  ⟨fun x => (h'.entry_eq x).trans (h.entry_eq x), fun x => (h'.none_iff x).trans (h.none_iff x),
    h'.brk_eq.trans h.brk_eq, h'.size_eq.trans h.size_eq, h'.closed_eq.trans h.closed_eq⟩

section Lists

variable {c : FileCache F} {as a₁ a₂ : List Nat} {a : Nat} {l l₁ l₂ : Uses FileKey F}
  {k : FileKey} {f : F}

theorem forall₂_cut {R : Nat → FileKey × F → Prop} {e : FileKey × F}
    (h : List.Forall₂ R as (l₁ ++ e :: l₂)) :
    ∃ a₁ a a₂, as = a₁ ++ a :: a₂ ∧ List.Forall₂ R a₁ l₁ ∧ R a e ∧ List.Forall₂ R a₂ l₂ := by
  induction l₁ generalizing as with
  | nil =>
    cases h with
    | cons hr hrest => exact ⟨[], _, _, rfl, .nil, hr, hrest⟩
  | cons d l₁ ih =>
    cases h with
    | cons hr hrest =>
      obtain ⟨a₁, a, a₂, rfl, h₁, hr', h₂⟩ := ih hrest
      exact ⟨_ :: a₁, a, a₂, rfl, .cons hr h₁, hr', h₂⟩

theorem Lists.entry_mem (h : Lists c as l) (ha : a ∈ as) :
    ∃ e ∈ l, Heap.entry c.heap a = some e := by
  have hentries := h.entries
  clear h
  induction hentries with
  | nil => cases ha
  | cons hr _ ih =>
    rcases List.mem_cons.mp ha with rfl | ha
    · exact ⟨_, by simp, hr⟩
    · obtain ⟨e, he, hr⟩ := ih ha
      exact ⟨e, by simp [he], hr⟩

theorem keys_cut (hnd : (keys (l₁ ++ (k, f) :: l₂)).Nodup) : k ∉ keys (l₁ ++ l₂) := by
  simp only [keys, List.map_append, List.map_cons] at hnd ⊢
  exact (List.nodup_middle.mp hnd |> List.nodup_cons.mp).1

/-- `delete_node` takes the key out of the map and its node out of the list. -/
theorem Lists.deleteNode [Build] (h : Lists c (a₁ ++ a :: a₂) (l₁ ++ (k, f) :: l₂))
    (h₁ : List.Forall₂ (fun a e => Heap.entry c.heap a = some e) a₁ l₁)
    (ha : Heap.entry c.heap a = some (k, f))
    (h₂ : List.Forall₂ (fun a e => Heap.entry c.heap a = some e) a₂ l₂) :
    ∃ c', FileCache.deleteNode k c = .ok () c' ∧ Lists c' (a₁ ++ a₂) (l₁ ++ l₂) ∧ Frame c c' := by
  have hk : c.filecache k = some a := (h.mapped k a).mpr ⟨by simp, f, ha⟩
  have hentry : ∀ x, Heap.entry (Heap.unlink c.heap (a₁.getLastD 0) (a₂.headD 0)) x =
      Heap.entry c.heap x := by
    intro x
    rw [Heap.unlink, entry_setPrev, entry_setNext]
  have hnone : ∀ x, Heap.unlink c.heap (a₁.getLastD 0) (a₂.headD 0) x = none ↔ c.heap x = none := by
    intro x
    have hx := congrArg Option.isNone (hentry x)
    simp only [Heap.entry, Option.isNone_map] at hx
    rw [← Option.isNone_iff_eq_none, hx, Option.isNone_iff_eq_none]
  have hentries : List.Forall₂ (fun x e =>
      Heap.entry (Heap.unlink c.heap (a₁.getLastD 0) (a₂.headD 0)) x = some e) (a₁ ++ a₂) (l₁ ++ l₂) := by
    simp only [hentry]
    exact List.rel_append h₁ h₂
  refine ⟨_, deleteNode_ok h.ring hk, ⟨⟨?_, h.ring.unlink, ?_, rfl, rfl⟩, hentries, ?_⟩,
    ⟨hentry, hnone, rfl, rfl, rfl⟩⟩
  · exact (hnone 0).mpr h.ring.null
  · exact h.ring.nodup.sublist ((List.Sublist.refl a₁).append (List.sublist_cons_self a a₂))
  · intro key x
    have hcut := (List.nodup_middle.mp h.ring.nodup |> List.nodup_cons.mp).1
    simp only [hentry]
    by_cases hkey : key = k
    · subst hkey
      rw [Function.update_self]
      refine iff_of_false (by simp) ?_
      rintro ⟨hx, file, hfile⟩
      have hx' : x ∈ a₁ ++ a :: a₂ := by
        simp only [List.mem_append, List.mem_cons] at hx ⊢
        tauto
      have hsame := (h.mapped key x).mpr ⟨hx', file, hfile⟩
      rw [hk] at hsame
      cases hsame
      exact hcut hx
    · rw [Function.update_of_ne hkey, h.mapped]
      constructor
      · rintro ⟨hx, file, hfile⟩
        refine ⟨?_, file, hfile⟩
        simp only [List.mem_append, List.mem_cons] at hx ⊢
        rcases hx with hx | rfl | hx
        · exact .inl hx
        · rw [ha] at hfile
          cases hfile
          exact absurd rfl hkey
        · exact .inr hx
      · rintro ⟨hx, file, hfile⟩
        refine ⟨?_, file, hfile⟩
        simp only [List.mem_append, List.mem_cons] at hx ⊢
        tauto

/-- `insert_node` and the map's entry put a node before the others. -/
theorem Lists.insertNode [Build] (h : Lists c as l) (ha : a ∉ as) (h0 : a ≠ 0)
    (hentry : Heap.entry c.heap a = some (k, f)) (hk : k ∉ keys l) :
    ∃ c', FileCache.insertNode a c = .ok () c' ∧ Frame c c' ∧ c'.filecache = c.filecache ∧
      Lists { c' with filecache := Function.update c'.filecache k (some a) } (a :: as)
        ((k, f) :: l) := by
  obtain ⟨n, hn, -⟩ := Option.map_eq_some_iff.mp hentry
  obtain ⟨heap, hrun, hseg, hsame, hnone⟩ := insertNode_ok h.ring ha h0 hn
  refine ⟨_, hrun, ⟨hsame, hnone, rfl, rfl, rfl⟩, rfl, ⟨⟨?_, hseg, ?_, rfl, rfl⟩, ?_, ?_⟩⟩
  · exact (hnone 0).mpr h.ring.null
  · exact List.nodup_cons.mpr ⟨ha, h.ring.nodup⟩
  · simp only [hsame]
    exact .cons hentry h.entries
  · intro key x
    simp only [hsame]
    by_cases hkey : key = k
    · subst hkey
      rw [Function.update_self]
      constructor
      · intro hx
        cases hx
        exact ⟨by simp, f, hentry⟩
      · rintro ⟨hx, file, hfile⟩
        rcases List.mem_cons.mp hx with rfl | hx
        · rfl
        · obtain ⟨e, he, hx'⟩ := h.entry_mem hx
          rw [hfile] at hx'
          cases hx'
          exact absurd (List.mem_map_of_mem he) hk
    · rw [Function.update_of_ne hkey, h.mapped]
      constructor
      · rintro ⟨hx, hfile⟩
        exact ⟨List.mem_cons_of_mem _ hx, hfile⟩
      · rintro ⟨hx, file, hfile⟩
        rcases List.mem_cons.mp hx with rfl | hx
        · rw [hentry] at hfile
          cases hfile
          exact absurd rfl hkey
        · exact ⟨hx, file, hfile⟩

/-- The list only sees its own nodes. -/
theorem Lists.elsewhere {c' : FileCache F} (h : Lists c as l)
    (hheap : ∀ x ∈ as, c'.heap x = c.heap x) (h0 : c'.heap 0 = none) (hhead : c'.head = c.head)
    (htail : c'.tail = c.tail) (hmap : c'.filecache = c.filecache) : Lists c' as l := by
  have hentry : ∀ x ∈ as, Heap.entry c'.heap x = Heap.entry c.heap x := by
    intro x hx
    rw [Heap.entry, hheap x hx, Heap.entry]
  refine ⟨⟨h0, ?_, h.ring.nodup, hhead.trans h.ring.head_eq, htail.trans h.ring.tail_eq⟩, ?_, ?_⟩
  · refine (segment_congr ?_).mpr h.ring.segment
    intro x hx
    rw [Heap.links, hheap x hx, Heap.links]
  · have hentries := h.entries
    clear h h0 hhead htail hmap hheap
    induction hentries with
    | nil => exact .nil
    | cons hr _ ih =>
      exact .cons ((hentry _ (by simp)).trans hr) (ih (fun x hx => hentry x (by simp [hx])))
  · intro key a
    rw [hmap, h.mapped]
    constructor
    · rintro ⟨ha, hfile⟩
      exact ⟨ha, by rwa [hentry a ha]⟩
    · rintro ⟨ha, hfile⟩
      exact ⟨ha, by rwa [hentry a ha] at hfile⟩

/-- The last entry of the list is closed, unlinked and freed. -/
theorem Lists.evictLast [Build] (h : Lists c as (l ++ [(k, f)])) :
    ∃ as' c', FileCache.evictLast c = .ok () c' ∧ Lists c' as' l ∧ c'.closed = c.closed ++ [f] ∧
      c'.size = c.size - 1 ∧ c'.brk = c.brk ∧ ∀ x, c.heap x = none → c'.heap x = none := by
  obtain ⟨a₁, a, a₂, rfl, h₁, ha, h₂⟩ := forall₂_cut h.entries
  cases h₂
  have htail : c.tail = a := by rw [h.ring.tail_eq, List.getLastD_concat]
  have ha0 : a ≠ 0 := h.ring.ne_zero (by simp)
  obtain ⟨n, hn, hnf⟩ := Option.map_eq_some_iff.mp ha
  obtain ⟨rfl, rfl⟩ : n.key = k ∧ n.file = f :=
    ⟨congrArg Prod.fst hnf, congrArg Prod.snd hnf⟩
  have hclosed : Lists { c with closed := c.closed ++ [n.file] } (a₁ ++ [a]) (l ++ [(n.key, n.file)]) :=
    h.elsewhere (fun _ _ => rfl) h.ring.null rfl rfl rfl
  obtain ⟨c₁, hdel, hl₁, hf₁⟩ := hclosed.deleteNode h₁ ha .nil
  rw [List.append_nil, List.append_nil] at hl₁
  have hnotin : a ∉ a₁ := by
    have hnd := (List.nodup_cons.mp (List.nodup_middle.mp h.ring.nodup)).1
    rwa [List.append_nil] at hnd
  refine ⟨a₁, { c₁ with heap := Function.update c₁.heap a none, size := c₁.size - 1 }, ?_, ?_,
    hf₁.closed_eq, by rw [hf₁.size_eq], hf₁.brk_eq, ?_⟩
  · have htail0 : c.tail ≠ 0 := by rwa [htail]
    rw [FileCache.evictLast, bind_ok get_ok, bind_ok (assert_ok (.inr htail0))]
    simp only [htail]
    rw [bind_ok (deref_ok hn)]
    exact bind_ok hdel
  · refine hl₁.elsewhere ?_ ?_ rfl rfl rfl
    · intro x hx
      refine Function.update_of_ne ?_ _ _
      rintro rfl
      exact hnotin hx
    · exact (Function.update_of_ne (Ne.symm ha0) _ _).trans hl₁.ring.null
  · intro x hx
    by_cases hxa : x = a
    · subst hxa
      exact Function.update_self _ _ _
    · change Function.update c₁.heap a none x = none
      rw [Function.update_of_ne hxa]
      exact (hf₁.none_iff x).mpr hx

end Lists

/-- The cache stands for the LRU map: the list shows the most recently used keys in their order,
the map has the same keys, and the counter counts them. -/
structure Holds (c : FileCache F) (m : LruMap F) : Prop where
  keys_nodup : (keys m.recency).Nodup
  lists : ∃ as, Lists c as (m.recency.take maxCacheSize)
  size_eq : c.size = (m.recency.take maxCacheSize).length
  closed_eq : c.closed = m.closed
  brk_pos : 0 < c.brk
  fresh : ∀ a, c.brk ≤ a → c.heap a = none

section Holds

variable {c : FileCache F} {m : LruMap F} {key : FileKey} {file : F}

theorem holds_empty : Holds ({} : FileCache F) {} := by
  refine ⟨List.nodup_nil, ⟨[], ⟨rfl, trivial, List.nodup_nil, rfl, rfl⟩, .nil, ?_⟩, rfl, rfl,
    Nat.one_pos, fun _ _ => rfl⟩
  intro key a
  simp

theorem Holds.filecache_none (h : Holds c m) (hm : m.find key = none) : c.filecache key = none := by
  obtain ⟨as, hl⟩ := h.lists
  cases hc : c.filecache key with
  | none => rfl
  | some a =>
    obtain ⟨ha, file, hfile⟩ := (hl.mapped key a).mp hc
    obtain ⟨e, he, hx⟩ := hl.entry_mem ha
    rw [hfile] at hx
    cases hx
    exact absurd (List.mem_map_of_mem he) (lookup_eq_none.mp hm)

/-- A cached key, with the cut of the list at its node. -/
theorem Holds.hit (h : Holds c m) (hm : m.find key = some file) :
    ∃ a₁ a a₂ l₁ l₂, m.recency.take maxCacheSize = l₁ ++ (key, file) :: l₂ ∧
      Lists c (a₁ ++ a :: a₂) (l₁ ++ (key, file) :: l₂) ∧
      List.Forall₂ (fun a e => Heap.entry c.heap a = some e) a₁ l₁ ∧
      Heap.entry c.heap a = some (key, file) ∧
      List.Forall₂ (fun a e => Heap.entry c.heap a = some e) a₂ l₂ ∧
      c.filecache key = some a := by
  obtain ⟨as, hl⟩ := h.lists
  obtain ⟨l₁, l₂, hcut, -⟩ := exists_cut_of_lookup hm
  rw [hcut] at hl
  obtain ⟨a₁, a, a₂, rfl, h₁, ha, h₂⟩ := forall₂_cut hl.entries
  exact ⟨a₁, a, a₂, l₁, l₂, hcut, hl, h₁, ha, h₂, (hl.mapped key a).mpr ⟨by simp, file, ha⟩⟩

theorem Holds.cached_iff (h : Holds c m) (key : FileKey) :
    (c.filecache key).isSome = (m.find key).isSome := by
  cases hm : m.find key with
  | none =>
    rw [h.filecache_none hm]
    rfl
  | some file =>
    obtain ⟨a₁, a, a₂, l₁, l₂, -, -, -, -, -, hc⟩ := h.hit hm
    rw [hc]
    rfl

theorem Holds.keys_take (h : Holds c m) : (keys (m.recency.take maxCacheSize)).Nodup :=
  h.keys_nodup.sublist ((List.take_sublist _ _).map _)

variable [Build]

/-- `get`: a cached file, and its key is now the last used. -/
theorem Holds.get (h : Holds c m) (key : FileKey) :
    ∃ c', FileCache.get key c = .ok (m.get key).1 c' ∧ Holds c' (m.get key).2 := by
  cases hm : m.find key with
  | none =>
    refine ⟨c, ?_, ?_⟩
    · rw [FileCache.get, bind_ok get_ok]
      simp only [h.filecache_none hm, LruMap.get, hm]
      rfl
    · simpa only [LruMap.get, hm] using h
  | some file =>
    obtain ⟨a₁, a, a₂, l₁, l₂, hcut, hl, h₁, ha, h₂, hc⟩ := h.hit hm
    have ha0 : a ≠ 0 := hl.ring.ne_zero (by simp)
    have hnd := h.keys_take
    rw [hcut] at hnd
    obtain ⟨c₁, hdel, hl₁, hf₁⟩ := hl.deleteNode h₁ ha h₂
    have hnotin : a ∉ a₁ ++ a₂ := (List.nodup_cons.mp (List.nodup_middle.mp hl.ring.nodup)).1
    obtain ⟨c₂, hins, hf₂, -, hl₂⟩ := hl₁.insertNode hnotin ha0 ((hf₁.entry_eq a).trans ha) (keys_cut hnd)
    have hf := hf₁.trans hf₂
    obtain ⟨n, hn, hnf⟩ := Option.map_eq_some_iff.mp ((hf.entry_eq a).trans ha)
    refine ⟨{ c₂ with filecache := Function.update c₂.filecache key (some a) }, ?_, ?_⟩
    · rw [FileCache.get, bind_ok get_ok]
      simp only [hc, LruMap.get, hm]
      rw [bind_ok (assert_ok (.inr ha0)), bind_ok hdel, bind_ok hins]
      have hfile : n.file = file := congrArg Prod.snd hnf
      have hlast : deref a { c₂ with filecache := Function.update c₂.filecache key (some a) } =
          .ok n { c₂ with filecache := Function.update c₂.filecache key (some a) } := deref_ok hn
      rw [← hfile]
      exact bind_ok hlast
    · have htake := take_touch_of_hit (n := 9) (v := file) h.keys_nodup hcut
      simp only [LruMap.get, hm]
      refine ⟨nodup_touch h.keys_nodup _ _, ⟨a :: (a₁ ++ a₂), ?_⟩, ?_, ?_, ?_, ?_⟩
      · change Lists _ _ ((touch key file m.recency).take (9 + 1))
        rw [htake]
        exact hl₂
      · change c₂.size = ((touch key file m.recency).take (9 + 1)).length
        rw [htake, hf.size_eq, h.size_eq, hcut]
        simp
        omega
      · exact hf.closed_eq.trans h.closed_eq
      · exact hf.brk_eq ▸ h.brk_pos
      · intro x hx
        exact (hf.none_iff x).mpr (h.fresh x (hf.brk_eq ▸ hx))

/-- `put` of a key that is not cached. -/
theorem Holds.put (h : Holds c m) (hm : m.find key = none) (file : F) :
    ∃ c', FileCache.put key file c = .ok () c' ∧ Holds c' (m.put key file) := by
  have hmiss := lookup_eq_none.mp hm
  have hkeys : key ∉ keys (m.recency.take 9) := by
    intro hmem
    exact hmiss (((List.take_prefix_take_left (by decide)).sublist.map _).subset hmem)
  -- room is made if there is none
  have hroom : ∃ as c₁, when (c.size = maxCacheSize) evictLast c = .ok () c₁ ∧
      Lists c₁ as (m.recency.take 9) ∧ c₁.closed = (m.put key file).closed ∧
      c₁.size = (m.recency.take 9).length ∧ c₁.brk = c.brk ∧
      ∀ x, c.heap x = none → c₁.heap x = none := by
    obtain ⟨as, hl⟩ := h.lists
    have hsize := h.size_eq
    simp only [LruMap.put, hm]
    by_cases hfull : c.size = maxCacheSize
    · have hlen : 9 < m.recency.length := by
        rw [hfull, List.length_take] at hsize
        simp only [maxCacheSize] at hsize
        omega
      obtain ⟨⟨k, f⟩, hlast⟩ : ∃ e, m.recency[9]? = some e := ⟨_, List.getElem?_eq_getElem hlen⟩
      have hcut : m.recency.take maxCacheSize = m.recency.take 9 ++ [(k, f)] := by
        rw [maxCacheSize, List.take_add_one, hlast]
        rfl
      rw [hcut] at hl hsize
      obtain ⟨as', c₁, hrun, hl₁, hclosed, hsz, hbrk, hnone⟩ := hl.evictLast
      refine ⟨as', c₁, by rw [when, if_pos hfull, hrun], hl₁, ?_, ?_, hbrk, hnone⟩
      · rw [hclosed, h.closed_eq]
        change _ = _ ++ (m.recency[9]?.map Prod.snd).toList
        rw [hlast]
        rfl
      · rw [hsz, hsize, List.length_append]
        rfl
    · have hlen : m.recency.length ≤ 9 := by
        rw [hsize, List.length_take] at hfull
        simp only [maxCacheSize] at hfull
        omega
      have hall : m.recency.take maxCacheSize = m.recency.take 9 := by
        rw [List.take_of_length_le hlen, List.take_of_length_le (hlen.trans (by decide))]
      rw [hall] at hl hsize
      refine ⟨as, c, by rw [when, if_neg hfull]; rfl, hl, ?_, hsize, rfl, fun _ hx => hx⟩
      have hout : m.recency[9]? = none := List.getElem?_eq_none hlen
      change _ = _ ++ (m.recency[9]?.map Prod.snd).toList
      rw [hout, h.closed_eq]
      exact (List.append_nil _).symm
  obtain ⟨as, c₁, hrun, hl, hclosed, hsize, hbrk, hnone⟩ := hroom
  -- the new node
  have hfree : c₁.heap c₁.brk = none := hnone _ (h.fresh _ (by rw [hbrk]))
  have hnotin : c₁.brk ∉ as := by
    intro hmem
    obtain ⟨n, hn⟩ := hl.ring.mem_heap hmem
    rw [hfree] at hn
    cases hn
  have hpos : c₁.brk ≠ 0 := by
    have := h.brk_pos
    omega
  have hnew : Lists { c₁ with heap := Function.update c₁.heap c₁.brk (some ⟨key, file, 0, 0⟩)
                              brk := c₁.brk + 1 } as (m.recency.take 9) := by
    refine hl.elsewhere ?_ ?_ rfl rfl rfl
    · intro x hx
      refine Function.update_of_ne ?_ _ _
      rintro rfl
      exact hnotin hx
    · exact (Function.update_of_ne (Ne.symm hpos) _ _).trans hl.ring.null
  obtain ⟨c₂, hins, hf, hmap, hl₂⟩ := hnew.insertNode hnotin hpos (k := key) (f := file)
    (by simp [Heap.entry]) hkeys
  refine ⟨{ c₂ with size := c₂.size + 1
                    filecache := Function.update c₂.filecache key (some c₁.brk) }, ?_, ?_⟩
  · rw [FileCache.put, bind_ok get_ok]
    simp only [h.filecache_none hm]
    rw [bind_ok hrun]
    exact bind_ok hins
  · have htake : (touch key file m.recency).take (9 + 1) = _ := take_touch_of_miss hmiss
    have hrec : (m.put key file).recency = touch key file m.recency := by
      simp only [LruMap.put, hm]
    refine ⟨?_, ⟨c₁.brk :: as, ?_⟩, ?_, ?_, ?_, ?_⟩
    · rw [hrec]
      exact nodup_touch h.keys_nodup _ _
    · rw [hrec]
      change Lists _ _ ((touch key file m.recency).take (9 + 1))
      rw [htake]
      exact hl₂.elsewhere (fun _ _ => rfl) hl₂.ring.null rfl rfl rfl
    · rw [hrec]
      change c₂.size + 1 = ((touch key file m.recency).take (9 + 1)).length
      rw [htake, hf.size_eq, List.length_cons, ← hsize]
    · exact hf.closed_eq.trans hclosed
    · rw [hf.brk_eq]
      exact Nat.succ_pos _
    · intro x hx
      have hbrk₂ : c₂.brk = c₁.brk + 1 := hf.brk_eq
      replace hx : c₂.brk ≤ x := hx
      refine (hf.none_iff x).mpr ?_
      change Function.update c₁.heap c₁.brk _ x = none
      rw [Function.update_of_ne (by omega)]
      exact hnone x (h.fresh x (by omega))

end Holds

/-! ### Runs -/

inductive Op (F : Type) where
  | put (key : FileKey) (file : F)
  | get (key : FileKey)
  | cached (key : FileKey)

inductive Answer (F : Type) where
  | done
  | file (o : Option F)
  | cached (b : Bool)

def Op.run [Build] : Op F → FileCacheM F (Answer F)
  | .put key file => do
    FileCache.put key file
    return .done
  | .get key => do
    let o ← FileCache.get key
    return .file o
  | .cached key => do
    let b ← FileCache.cached key
    return .cached b

def runAll [Build] : List (Op F) → FileCacheM F (List (Answer F))
  | [] => return []
  | op :: ops => do
    let r ← op.run
    let rs ← runAll ops
    return r :: rs

/-- The same operation on the LRU map. -/
def Op.apply (m : LruMap F) : Op F → Answer F × LruMap F
  | .put key file => (.done, m.put key file)
  | .get key => (.file (m.get key).1, (m.get key).2)
  | .cached key => (.cached (m.find key).isSome, m)

def applyAll (m : LruMap F) : List (Op F) → List (Answer F) × LruMap F
  | [] => ([], m)
  | op :: ops =>
    let (r, m) := op.apply m
    let (rs, m) := applyAll m ops
    (r :: rs, m)

/-- A `put` meets a key that is not cached. -/
def Op.Misses (c : FileCache F) : Op F → Prop
  | .put key _ => c.filecache key = none
  | _ => True

/-- So does every `put` of the run. -/
def MissesAll [Build] (c : FileCache F) : List (Op F) → Prop
  | [] => True
  | op :: ops => op.Misses c ∧ MissesAll (after op.run c) ops

/-- The files that the run hands to `put`. -/
def putFiles : List (Op F) → List F
  | [] => []
  | .put _ file :: ops => file :: putFiles ops
  | _ :: ops => putFiles ops

/-- The files in the cache. -/
def cachedFiles (m : LruMap F) : List F := (m.recency.take maxCacheSize).map Prod.snd

section Runs

variable [Build] {c : FileCache F} {m : LruMap F}

theorem Holds.run (h : Holds c m) {op : Op F} (hop : op.Misses c) :
    ∃ c', op.run c = .ok (op.apply m).1 c' ∧ Holds c' (op.apply m).2 := by
  cases op with
  | put key file =>
    have hm : m.find key = none := by
      have hiff := h.cached_iff key
      rw [hop] at hiff
      simpa using hiff.symm
    obtain ⟨c', hrun, hc'⟩ := h.put hm file
    exact ⟨c', bind_ok hrun, hc'⟩
  | get key =>
    obtain ⟨c', hrun, hc'⟩ := h.get key
    exact ⟨c', bind_ok hrun, hc'⟩
  | cached key =>
    refine ⟨c, ?_, h⟩
    simp only [Op.run, Op.apply, ← h.cached_iff key]
    rfl

theorem Holds.runAll (h : Holds c m) {ops : List (Op F)} (hops : MissesAll c ops) :
    ∃ c', FileCache.runAll ops c = .ok (applyAll m ops).1 c' ∧ Holds c' (applyAll m ops).2 := by
  induction ops generalizing c m with
  | nil => exact ⟨c, rfl, h⟩
  | cons op ops ih =>
    obtain ⟨c₁, hrun, hc₁⟩ := h.run hops.1
    have hrest := hops.2
    rw [show after op.run c = c₁ by simp [after, hrun]] at hrest
    obtain ⟨c₂, hrun₂, hc₂⟩ := ih hc₁ hrest
    refine ⟨c₂, ?_, hc₂⟩
    rw [FileCache.runAll, bind_ok hrun, bind_ok hrun₂]
    rfl

omit [Build] in
theorem putFiles_cons (op : Op F) (ops : List (Op F)) :
    putFiles (op :: ops) = putFiles [op] ++ putFiles ops := by
  cases op <;> rfl

omit [Build] in
/-- Every file handed to the cache is in it or was closed, once. -/
theorem Holds.files (h : Holds c m) {op : Op F} (hop : op.Misses c) :
    ((op.apply m).2.closed ++ cachedFiles (op.apply m).2).Perm
      (putFiles [op] ++ (m.closed ++ cachedFiles m)) := by
  cases op with
  | put key file =>
    have hm : m.find key = none := by
      have hiff := h.cached_iff key
      rw [hop] at hiff
      simpa using hiff.symm
    have htake : (touch key file m.recency).take maxCacheSize = _ :=
      take_touch_of_miss (n := 9) (lookup_eq_none.mp hm)
    have hcut : m.recency.take maxCacheSize = m.recency.take 9 ++ m.recency[9]?.toList :=
      List.take_add_one
    have hlast : (m.recency[9]?.map Prod.snd).toList = m.recency[9]?.toList.map Prod.snd := by
      cases m.recency[9]? <;> rfl
    simp only [Op.apply, LruMap.put, hm, cachedFiles, htake, putFiles]
    change (m.closed ++ (m.recency[9]?.map Prod.snd).toList ++ _).Perm _
    rw [hlast, hcut, List.map_append, List.map_cons, List.append_assoc, List.singleton_append]
    refine (List.Perm.append_left _ List.perm_middle).trans (List.perm_middle.trans (.cons _ ?_))
    exact List.Perm.append_left _ List.perm_append_comm
  | get key =>
    cases hm : m.find key with
    | none =>
      simp only [Op.apply, LruMap.get, hm]
      exact .refl _
    | some file =>
      obtain ⟨a₁, a, a₂, l₁, l₂, hcut, -⟩ := h.hit hm
      have htake : (touch key file m.recency).take maxCacheSize = _ :=
        take_touch_of_hit (n := 9) h.keys_nodup hcut
      simp only [Op.apply, LruMap.get, hm, cachedFiles, htake, hcut, putFiles, List.nil_append]
      exact (List.perm_middle.symm.map _).append_left _
  | cached key => exact .refl _

theorem Holds.filesAll (h : Holds c m) {ops : List (Op F)} (hops : MissesAll c ops) :
    ((applyAll m ops).2.closed ++ cachedFiles (applyAll m ops).2).Perm
      (putFiles ops ++ (m.closed ++ cachedFiles m)) := by
  induction ops generalizing c m with
  | nil => exact .refl _
  | cons op ops ih =>
    obtain ⟨c₁, hrun, hc₁⟩ := h.run hops.1
    have hrest := hops.2
    rw [show after op.run c = c₁ by simp [after, hrun]] at hrest
    refine (ih hc₁ hrest).trans (((h.files hops.1).append_left _).trans ?_)
    rw [putFiles_cons op ops, ← List.append_assoc]
    exact List.perm_append_comm.append_right _

/-- Where no `put` meets a cached key, the cache is an LRU map of capacity `MAX_CACHE_SIZE`: it
answers as one, its list and its map show the most recently used keys, and of the files it was
given, each is still cached or was closed, once. -/
theorem runAll_lru (ops : List (Op F)) (hops : MissesAll {} ops) :
    ∃ c, FileCache.runAll ops {} = .ok (applyAll {} ops).1 c ∧ Holds c (applyAll {} ops).2 ∧
      c.size ≤ maxCacheSize ∧ (c.closed ++ cachedFiles (applyAll {} ops).2).Perm (putFiles ops) := by
  obtain ⟨c, hrun, hc⟩ := holds_empty.runAll hops
  refine ⟨c, hrun, hc, ?_, ?_⟩
  · rw [hc.size_eq]
    exact List.length_take_le _ _
  · have hfiles := holds_empty.filesAll hops
    rw [← hc.closed_eq] at hfiles
    simpa [cachedFiles] using hfiles

end Runs

theorem runAll_lru_two :
    letI : Build := ⟨false⟩
    ∃ c, FileCache.runAll [.put (0, 0) 7, .put (0, 1) 8, .get (0, 0)] ({} : FileCache Nat) =
      .ok [.done, .done, .file (some 7)] c ∧ c.size ≤ maxCacheSize := by
  let _ : Build := ⟨false⟩
  have hnew : (after (Op.put (0, 0) 7).run ({} : FileCache Nat)).filecache (0, 1) = none := rfl
  obtain ⟨c, hrun, -, hsize, -⟩ := runAll_lru [.put (0, 0) 7, .put (0, 1) 8, .get (0, 0)]
    ⟨rfl, hnew, trivial, trivial⟩
  exact ⟨c, hrun, hsize⟩

/-- After a second `put` of its key, a cached file is no longer found. -/
theorem runAll_lru_fails :
    letI : Build := ⟨false⟩
    ¬ ∀ ops : List (Op Nat), ∃ c, FileCache.runAll ops {} = .ok (applyAll {} ops).1 c := by
  let _ : Build := ⟨false⟩
  intro h
  obtain ⟨c, hrun⟩ := h [.put (0, 0) 7, .put (0, 0) 8, .cached (0, 0)]
  have hcode : ∃ c', FileCache.runAll [.put (0, 0) 7, .put (0, 0) 8, .cached (0, 0)]
      ({} : FileCache Nat) = .ok [.done, .done, .cached false] c' := ⟨_, rfl⟩
  obtain ⟨c', hcode⟩ := hcode
  have hlru : (applyAll {} [.put (0, 0) 7, .put (0, 0) 8, .cached (0, 0)]).1 =
      ([.done, .done, .cached true] : List (Answer Nat)) := rfl
  rw [hcode, hlru] at hrun
  cases hrun

end FileCache

end Cpplite
