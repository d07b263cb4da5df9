import Mathlib.Tactic

/-!
Multiway search trees indexed by their height, so that all leaves of a tree are at
the same depth by construction.

A leaf holds cells; a node holds pairs of a separator and the subtree left of it, and
a last subtree. Both carry an address. A context is a tree with one subtree taken out,
read from the hole up to the root, which is how an update climbs. Whatever is read off
a tree from left to right (cells, separators, addresses) is one fold, and a fold of a
plugged context is the part left of the hole, the subtree's own, and the part right of it.
-/
namespace HeightTree

variable {K P V X : Type}

structure Leaf (P V : Type) where
  id : P
  cells : List V

structure Node (K P α : Type) where
  id : P
  cells : List (K × α)
  right : α

/-- The children from left to right. -/
def Node.kids {α : Type} (t : Node K P α) : List α := t.cells.map (·.2) ++ [t.right]

/-- Trees of height `n`. -/
@[reducible] def Tree (K P V : Type) : Nat → Type
  | 0 => Leaf P V
  | n + 1 => Node K P (Tree K P V n)

/-- The address of the root. -/
def Tree.id : {n : Nat} → Tree K P V n → P
  | 0, (t : Leaf P V) => t.id
  | _ + 1, t => Node.id t

/-! ### Folds -/

/-- Left to right: the node's own contribution, each child before its separator, the last child. -/
def Node.fold {α : Type} (g : α → List X) (fk : K → List X) (fn : P → List X)
    (t : Node K P α) : List X :=
  fn t.id ++ t.cells.flatMap (fun c => g c.2 ++ fk c.1) ++ g t.right

def Tree.fold (fl : Leaf P V → List X) (fk : K → List X) (fn : P → List X) :
    {n : Nat} → Tree K P V n → List X
  | 0, (t : Leaf P V) => fl t
  | _ + 1, t => Node.fold (Tree.fold fl fk fn) fk fn t

section Join

variable {α : Type} {g : α → List X} {fk : K → List X} {i j m : P} {as bs : List (K × α)}
  {k : K} {c r : α}

/-- Cutting a node at a separator, or joining two nodes over one, moves nothing. -/
theorem Node.fold_join :
    (⟨i, as ++ (k, c) :: bs, r⟩ : Node K P α).fold g fk (fun _ => []) =
      (⟨j, as, c⟩ : Node K P α).fold g fk (fun _ => []) ++ fk k ++
        (⟨m, bs, r⟩ : Node K P α).fold g fk (fun _ => []) := by
  simp [Node.fold]

end Join

/-- All addresses, a node before its children. -/
def Tree.ids {n : Nat} (t : Tree K P V n) : List P :=
  t.fold (fun l => [l.id]) (fun _ => []) (fun p => [p])

/-- The leaves and separators from left to right. -/
def Tree.spine {n : Nat} (t : Tree K P V n) : List (Leaf P V ⊕ K) :=
  t.fold (fun l => [.inl l]) (fun k => [.inr k]) (fun _ => [])

theorem Node.flatMap_fold {α Y : Type} (h : X → List Y) (g : α → List X) (fk : K → List X)
    (fn : P → List X) (t : Node K P α) : (t.fold g fk fn).flatMap h =
      t.fold (fun a => (g a).flatMap h) (fun k => (fk k).flatMap h) (fun p => (fn p).flatMap h) := by
  simp [Node.fold, List.flatMap_assoc]

/-- Whatever ignores the nodes' own addresses is read off the spine. -/
theorem Tree.fold_eq_spine (fl : Leaf P V → List X) (fk : K → List X) :
    ∀ {n : Nat} (t : Tree K P V n), t.fold fl fk (fun _ => []) = t.spine.flatMap (Sum.elim fl fk)
  | 0, t => (List.append_nil (fl t)).symm
  | n + 1, (t : Node K P (Tree K P V n)) => by
    have ih := funext (Tree.fold_eq_spine fl fk (n := n))
    have hs : Tree.spine (n := n + 1) t = Node.fold Tree.spine (fun k => [.inr k]) (fun _ => []) t :=
      rfl
    rw [hs, Node.flatMap_fold, ← ih]
    simp only [List.flatMap_singleton, List.flatMap_nil, Sum.elim_inr]
    rfl

/-- The leaves' addresses in a spine. -/
def leafIds (l : List (Leaf P V ⊕ K)) : List P :=
  l.flatMap (Sum.elim (fun l => [l.id]) (fun _ => []))

/-- The cells in a spine. -/
def entries (l : List (Leaf P V ⊕ K)) : List V := l.flatMap (Sum.elim Leaf.cells (fun _ => []))

/-- The separators in a spine. -/
def seps (l : List (Leaf P V ⊕ K)) : List K := l.flatMap (Sum.elim (fun _ => []) (fun k => [k]))

section Spines

variable {l l' : List (Leaf P V ⊕ K)} {x : Leaf P V} {k : K}

@[simp] theorem leafIds_append : leafIds (l ++ l') = leafIds l ++ leafIds l' := by simp [leafIds]

@[simp] theorem leafIds_leaf : leafIds (.inl x :: l) = x.id :: leafIds l := rfl

@[simp] theorem leafIds_sep : leafIds (.inr k :: l) = leafIds l := rfl

@[simp] theorem leafIds_nil : leafIds ([] : List (Leaf P V ⊕ K)) = [] := rfl

@[simp] theorem entries_append : entries (l ++ l') = entries l ++ entries l' := by simp [entries]

@[simp] theorem entries_leaf : entries (.inl x :: l) = x.cells ++ entries l := rfl

@[simp] theorem entries_sep : entries (.inr k :: l) = entries l := rfl

@[simp] theorem entries_nil : entries ([] : List (Leaf P V ⊕ K)) = [] := rfl

theorem entries_mono (h : ∀ e ∈ l, e ∈ l') {v : V} (hv : v ∈ entries l) : v ∈ entries l' := by
  obtain ⟨e, he, hv⟩ := List.mem_flatMap.mp hv
  exact List.mem_flatMap.mpr ⟨e, h e he, hv⟩

end Spines

section Sublist

variable {fl fl' : Leaf P V → List X} {fk fk' : K → List X} {fn fn' : P → List X}

theorem Node.fold_sublist {α : Type} {g g' : α → List X} (hg : ∀ a, (g a).Sublist (g' a))
    (hk : ∀ k, (fk k).Sublist (fk' k)) (hn : ∀ p, (fn p).Sublist (fn' p)) (t : Node K P α) :
    (t.fold g fk fn).Sublist (t.fold g' fk' fn') := by
  refine ((hn t.id).append ?_).append (hg t.right)
  induction t.cells with
  | nil => exact List.Sublist.refl _
  | cons c cs ih => exact ((hg c.2).append (hk c.1)).append ih

theorem Tree.fold_sublist (hl : ∀ l, (fl l).Sublist (fl' l)) (hk : ∀ k, (fk k).Sublist (fk' k))
    (hn : ∀ p, (fn p).Sublist (fn' p)) :
    ∀ {n : Nat} (t : Tree K P V n), (t.fold fl fk fn).Sublist (t.fold fl' fk' fn')
  | 0, t => hl t
  | _ + 1, t => Node.fold_sublist (Tree.fold_sublist hl hk hn) hk hn t

theorem Tree.leafIds_sublist {n : Nat} (t : Tree K P V n) : (leafIds t.spine).Sublist t.ids := by
  rw [leafIds, ← Tree.fold_eq_spine]
  exact Tree.fold_sublist (fun _ => .refl _) (fun _ => .refl _) (fun _ => List.nil_sublist _) t

end Sublist

theorem Tree.ids_node {n : Nat} (t : Tree K P V (n + 1)) :
    t.ids = t.id :: (Node.kids t).flatMap Tree.ids := by
  have h : t.ids = Node.fold Tree.ids (fun _ => []) (fun p => [p]) t := rfl
  rw [h]
  simp [Node.fold, Node.kids, List.flatMap_map, Tree.id]

theorem Tree.id_mem_ids {n : Nat} (t : Tree K P V n) : t.id ∈ t.ids := by
  cases n with
  | zero => exact List.mem_singleton.mpr rfl
  | succ n =>
    rw [Tree.ids_node]
    exact List.mem_cons_self

/-- A path from the root to a leaf meets one address on each level. -/
theorem Tree.height_lt_length_ids : ∀ {n : Nat} (t : Tree K P V n), n < t.ids.length
  | 0, t => by
    have h := List.length_pos_of_mem t.id_mem_ids
    exact h
  | n + 1, t => by
    have h := Tree.height_lt_length_ids (Node.right t)
    rw [Tree.ids_node]
    simp only [Node.kids, List.flatMap_append, List.flatMap_cons, List.flatMap_nil, List.append_nil,
      List.length_cons, List.length_append]
    omega

/-! ### Contexts -/

/-- A node with one child taken out: the last one, or the one left of `key`. -/
inductive Frame (K P α : Type) where
  | last (id : P) (pre : List (K × α))
  | mid (id : P) (pre : List (K × α)) (key : K) (post : List (K × α)) (right : α)

namespace Frame

variable {α : Type}

def id : Frame K P α → P
  | last p _ => p
  | mid p _ _ _ _ => p

/-- The cells left of the hole. -/
def pre : Frame K P α → List (K × α)
  | last _ as => as
  | mid _ as _ _ _ => as

/-- How many cells the whole node has. -/
def size : Frame K P α → Nat
  | last _ as => as.length
  | mid _ as _ bs _ => as.length + 1 + bs.length

def plug : Frame K P α → α → Node K P α
  | last p as, t => ⟨p, as, t⟩
  | mid p as k bs r, t => ⟨p, as ++ (k, t) :: bs, r⟩

/-- Two subtrees and a separator in the place of one. -/
def plug₂ : Frame K P α → α → K → α → Node K P α
  | last p as, t, k, u => ⟨p, as ++ [(k, t)], u⟩
  | mid p as k' bs r, t, k, u => ⟨p, as ++ (k, t) :: (k', u) :: bs, r⟩

/-- What follows the cells left of the hole when `t` stands in it, and the last child. -/
def rest : Frame K P α → α → List (K × α) × α
  | last _ _, t => ([], t)
  | mid _ _ k bs r, t => ((k, t) :: bs, r)

def foldL (g : α → List X) (fk : K → List X) (fn : P → List X) (f : Frame K P α) : List X :=
  fn f.id ++ f.pre.flatMap (fun c => g c.2 ++ fk c.1)

def foldR (g : α → List X) (fk : K → List X) : Frame K P α → List X
  | last _ _ => []
  | mid _ _ k bs r => fk k ++ bs.flatMap (fun c => g c.2 ++ fk c.1) ++ g r

/-- The remaining children. -/
def siblings : Frame K P α → List α
  | last _ as => as.map (·.2)
  | mid _ as _ bs r => as.map (·.2) ++ bs.map (·.2) ++ [r]

variable {g : α → List X} {fk : K → List X} {fn : P → List X} {f : Frame K P α} {t u : α} {k : K}

theorem plug_eq : f.plug t = ⟨f.id, f.pre ++ (f.rest t).1, (f.rest t).2⟩ := by
  cases f <;> simp [plug, id, pre, rest]

theorem plug₂_eq : f.plug₂ t k u = ⟨f.id, f.pre ++ (k, t) :: (f.rest u).1, (f.rest u).2⟩ := by
  cases f <;> simp [plug₂, id, pre, rest]

/-- A node has one frame around each child. -/
theorem plug_inj {f' : Frame K P α} {t' : α} (h : f.plug t = f'.plug t')
    (hl : f.pre.length = f'.pre.length) : f = f' ∧ t = t' := by
  rw [plug_eq, plug_eq] at h
  obtain ⟨hid, hcells, hright⟩ := Node.mk.inj h
  obtain ⟨hpre, hrest⟩ := List.append_inj hcells hl
  cases f <;> cases f' <;> simp_all [Frame.id, Frame.pre, Frame.rest]

@[simp] theorem plug_id : (f.plug t).id = f.id := by cases f <;> rfl

@[simp] theorem plug₂_id : (f.plug₂ t k u).id = f.id := by cases f <;> rfl

@[simp] theorem length_plug_cells : (f.plug t).cells.length = f.size := by
  cases f <;> simp [plug, size]
  omega

@[simp] theorem length_plug₂_cells : (f.plug₂ t k u).cells.length = f.size + 1 := by
  cases f <;> simp [plug₂, size]
  omega

theorem fold_plug : (f.plug t).fold g fk fn = f.foldL g fk fn ++ g t ++ f.foldR g fk := by
  cases f <;> simp [plug, Node.fold, foldL, foldR, id, pre]

theorem fold_plug₂ : (f.plug₂ t k u).fold g fk fn =
    f.foldL g fk fn ++ g t ++ fk k ++ g u ++ f.foldR g fk := by
  cases f <;> simp [plug₂, Node.fold, foldL, foldR, id, pre]

theorem kids_plug : (f.plug t).kids.Perm (t :: f.siblings) := by
  cases f with
  | last p as =>
    simp only [plug, Node.kids, siblings]
    exact List.perm_append_singleton _ _
  | mid p as k bs r =>
    simp only [plug, Node.kids, siblings, List.map_append, List.map_cons, List.append_assoc,
      List.cons_append]
    exact List.perm_middle

theorem kids_plug₂ : (f.plug₂ t k u).kids.Perm (t :: u :: f.siblings) := by
  have h := kids_plug (f := f) (t := u)
  refine List.Perm.trans ?_ (h.cons t)
  cases f with
  | last p as => simp [plug, plug₂, Node.kids]
  | mid p as k' bs r => simp [plug, plug₂, Node.kids]

/-- The child just left of the hole. -/
def left? (f : Frame K P α) : Option α := f.pre.getLast?.map (·.2)

/-- The child just right of the hole. -/
def right? : Frame K P α → Option α
  | last _ _ => none
  | mid _ _ _ bs r => some ((bs.map (·.2)).headD r)

theorem pre_length_le : f.pre.length ≤ f.size := by
  cases f <;> simp [pre, size]
  omega

/-- A child with a left neighbour is the second of a pair. -/
theorem left_pair {u : α} (h : f.left? = some u) : ∃ (f' : Frame K P α) (k : K),
    (∀ t, f.plug t = f'.plug₂ u k t) ∧ f.siblings.Perm (u :: f'.siblings) ∧ f'.id = f.id ∧
      f'.pre.length + 1 = f.pre.length ∧ f'.size + 1 = f.size := by
  obtain ⟨⟨k, u'⟩, hk, rfl⟩ := Option.map_eq_some_iff.mp h
  obtain ⟨as, has⟩ := List.getLast?_eq_some_iff.mp hk
  cases f with
  | last p pre =>
    obtain rfl : pre = as ++ [(k, u')] := has
    refine ⟨last p as, k, fun _ => rfl, ?_, rfl, by simp [Frame.pre], by simp [size]⟩
    simp [siblings]
  | mid p pre k' bs r =>
    obtain rfl : pre = as ++ [(k, u')] := has
    refine ⟨mid p as k' bs r, k, ?_, ?_, rfl, by simp [Frame.pre], by simp [size]; omega⟩
    · intro t
      simp [plug, plug₂]
    · simp [siblings]

/-- A child with a right neighbour is the first of a pair. -/
theorem right_pair {u : α} (h : f.right? = some u) : ∃ (f' : Frame K P α) (k : K),
    (∀ t, f.plug t = f'.plug₂ t k u) ∧ f.siblings.Perm (u :: f'.siblings) ∧ f'.id = f.id ∧
      f'.pre.length = f.pre.length ∧ f'.size + 1 = f.size := by
  cases f with
  | last p pre => cases h
  | mid p pre k bs r =>
    cases bs with
    | nil =>
      obtain rfl : r = u := by simpa [right?] using h
      refine ⟨last p pre, k, fun _ => rfl, ?_, rfl, rfl, by simp [size]⟩
      simp [siblings]
    | cons b bs =>
      obtain ⟨k', u'⟩ := b
      obtain rfl : u' = u := by simpa [right?] using h
      refine ⟨mid p pre k' bs r, k, fun _ => rfl, ?_, rfl, rfl, by simp [size]; omega⟩
      simp [siblings]

theorem left_mem {u : α} (h : f.left? = some u) : u ∈ f.siblings := by
  obtain ⟨f', k, -, hs, -⟩ := left_pair h
  exact hs.mem_iff.mpr List.mem_cons_self

theorem right_mem {u : α} (h : f.right? = some u) : u ∈ f.siblings := by
  obtain ⟨f', k, -, hs, -⟩ := right_pair h
  exact hs.mem_iff.mpr List.mem_cons_self

theorem left_ne_none (h : 0 < f.pre.length) : f.left? ≠ none := by
  simp only [left?, ne_eq, Option.map_eq_none_iff, List.getLast?_eq_none_iff]
  exact List.ne_nil_of_length_pos h

theorem right_ne_none (h : f.pre.length < f.size) : f.right? ≠ none := by
  cases f with
  | last p as => exact absurd h (lt_irrefl _)
  | mid p as k bs r => simp [right?]

theorem pre_lt_size {u : α} (h : f.right? = some u) : f.pre.length < f.size := by
  obtain ⟨f', k, -, -, -, hpre, hsize⟩ := right_pair h
  have hle := f'.pre_length_le
  omega

/-- The spine left of the hole. -/
def spineL {n : Nat} (f : Frame K P (Tree K P V n)) : List (Leaf P V ⊕ K) :=
  f.foldL Tree.spine (fun k => [.inr k]) (fun _ => [])

/-- The spine right of the hole. -/
def spineR {n : Nat} (f : Frame K P (Tree K P V n)) : List (Leaf P V ⊕ K) :=
  f.foldR Tree.spine (fun k => [.inr k])

theorem spine_plug {n : Nat} {f : Frame K P (Tree K P V n)} {t : Tree K P V n} :
    Tree.spine (n := n + 1) (f.plug t) = f.spineL ++ t.spine ++ f.spineR := by
  have h : (f.plug t).fold Tree.spine (fun k => [.inr k]) (fun _ => []) = _ := fold_plug
  exact h

theorem spine_sibling {n : Nat} {f : Frame K P (Tree K P V n)} {u : Tree K P V n}
    (hu : u ∈ f.siblings) : ∀ e ∈ u.spine, e ∈ f.spineL ∨ e ∈ f.spineR := by
  have hpre : ∀ as : List (K × Tree K P V n), u ∈ as.map (·.2) → ∀ e ∈ u.spine,
      e ∈ as.flatMap (fun c => c.2.spine ++ [.inr c.1]) := by
    intro as hu e he
    obtain ⟨c, hc, rfl⟩ := List.mem_map.mp hu
    exact List.mem_flatMap.mpr ⟨c, hc, List.mem_append_left _ he⟩
  intro e he
  cases f with
  | last p as => exact .inl (hpre as hu e he)
  | mid p as k bs r =>
    rcases List.mem_append.mp hu with hu | hu
    · rcases List.mem_append.mp hu with hu | hu
      · exact .inl (hpre as hu e he)
      · exact .inr (List.mem_append_left _ (List.mem_append_right _ (hpre bs hu e he)))
    · rw [List.mem_singleton.mp hu] at he
      exact .inr (List.mem_append_right _ he)

theorem spine_plug₂ {n : Nat} {f : Frame K P (Tree K P V n)} {t u : Tree K P V n} :
    Tree.spine (n := n + 1) (f.plug₂ t k u) =
      f.spineL ++ t.spine ++ [.inr k] ++ u.spine ++ f.spineR := by
  have h : (f.plug₂ t k u).fold Tree.spine (fun k => [.inr k]) (fun _ => []) = _ := fold_plug₂
  exact h

/-- The child at a cell index, the index past the cells being the last child. -/
theorem exists_frame (n : Node K P α) (i : Nat) (hi : i ≤ n.cells.length) :
    ∃ (f : Frame K P α) (t : α), n = f.plug t ∧ f.pre.length = i ∧
      f.pre = n.cells.take i := by
  obtain ⟨p, cells, r⟩ := n
  rcases hi.eq_or_lt with heq | hlt
  · exact ⟨.last p cells, r, rfl, heq.symm, by simp [pre, heq]⟩
  · refine ⟨.mid p (cells.take i) cells[i].1 (cells.drop (i + 1)) r, cells[i].2, ?_, ?_, rfl⟩
    · simp [plug]
    · have := hlt.le
      simpa [pre] using this

end Frame

/-- From a hole of height `n` up to a root of height `m`. -/
inductive Ctx (K P V : Type) (m : Nat) : Nat → Type where
  | top : Ctx K P V m m
  | step {n : Nat} (f : Frame K P (Tree K P V n)) (up : Ctx K P V m (n + 1)) : Ctx K P V m n

namespace Ctx

variable {m : Nat}

def plug : {n : Nat} → Ctx K P V m n → Tree K P V n → Tree K P V m
  | _, top, t => t
  | _, step f up, t => up.plug (f.plug t)

theorem height_le : ∀ {n : Nat}, Ctx K P V m n → n ≤ m
  | _, top => le_rfl
  | _, step _ up => (Nat.le_succ _).trans up.height_le

/-- A hole as high as the whole tree is its root. -/
theorem eq_top : (c : Ctx K P V m m) → c = top
  | top => rfl
  | step _ up => absurd up.height_le (Nat.not_succ_le_self m)

/-- The addresses and child indices from the hole up: the path to it. -/
def path : {n : Nat} → Ctx K P V m n → List (P × Nat)
  | _, top => []
  | _, step f up => (f.id, f.pre.length) :: up.path

/-- The address of the root, with `hole` as the address of what stands in the hole. -/
def rootId : {n : Nat} → Ctx K P V m n → P → P
  | _, top, hole => hole
  | _, step f up, _ => up.rootId f.id

theorem id_plug : ∀ {n : Nat} (c : Ctx K P V m n) (t : Tree K P V n),
    (c.plug t).id = c.rootId t.id
  | _, top, _ => rfl
  | n, step f up, t => by
    have hid : Tree.id (n := n + 1) (f.plug t) = f.id := Frame.plug_id
    rw [plug, id_plug up (f.plug t), hid, rootId]

def foldL (fl : Leaf P V → List X) (fk : K → List X) (fn : P → List X) :
    {n : Nat} → Ctx K P V m n → List X
  | _, top => []
  | _, step f up => up.foldL fl fk fn ++ f.foldL (Tree.fold fl fk fn) fk fn

def foldR (fl : Leaf P V → List X) (fk : K → List X) (fn : P → List X) :
    {n : Nat} → Ctx K P V m n → List X
  | _, top => []
  | _, step f up => f.foldR (Tree.fold fl fk fn) fk ++ up.foldR fl fk fn

variable {fl : Leaf P V → List X} {fk : K → List X} {fn : P → List X}

theorem fold_plug : ∀ {n : Nat} (c : Ctx K P V m n) (t : Tree K P V n),
    (c.plug t).fold fl fk fn = c.foldL fl fk fn ++ t.fold fl fk fn ++ c.foldR fl fk fn
  | _, top, t => by simp [plug, foldL, foldR]
  | n, step f up, t => by
    have h : Tree.fold fl fk fn (n := n + 1) (f.plug t) =
        f.foldL (Tree.fold fl fk fn) fk fn ++ Tree.fold fl fk fn t ++
          f.foldR (Tree.fold fl fk fn) fk := Frame.fold_plug
    rw [plug, fold_plug up (f.plug t), h, foldL, foldR]
    simp only [List.append_assoc]

/-- The spine left of the hole. -/
def spineL {n : Nat} (c : Ctx K P V m n) : List (Leaf P V ⊕ K) :=
  c.foldL (fun l => [.inl l]) (fun k => [.inr k]) (fun _ => [])

/-- The spine right of the hole. -/
def spineR {n : Nat} (c : Ctx K P V m n) : List (Leaf P V ⊕ K) :=
  c.foldR (fun l => [.inl l]) (fun k => [.inr k]) (fun _ => [])

theorem spineL_step {n : Nat} {f : Frame K P (Tree K P V n)} {up : Ctx K P V m (n + 1)} :
    (step f up).spineL = up.spineL ++ f.spineL := rfl

theorem spineR_step {n : Nat} {f : Frame K P (Tree K P V n)} {up : Ctx K P V m (n + 1)} :
    (step f up).spineR = f.spineR ++ up.spineR := rfl

theorem spine_plug {n : Nat} (c : Ctx K P V m n) (t : Tree K P V n) :
    (c.plug t).spine = c.spineL ++ t.spine ++ c.spineR :=
  fold_plug c t

theorem spine_plug_leaf (c : Ctx K P V m 0) (l : Leaf P V) :
    (c.plug l).spine = c.spineL ++ .inl l :: c.spineR := by
  rw [spine_plug, List.append_assoc]
  rfl

/-- The addresses in the context. -/
def ids {n : Nat} (c : Ctx K P V m n) : List P :=
  c.foldL (fun l => [l.id]) (fun _ => []) (fun p => [p]) ++
    c.foldR (fun l => [l.id]) (fun _ => []) (fun p => [p])

theorem ids_plug {n : Nat} (c : Ctx K P V m n) (t : Tree K P V n) :
    (c.plug t).ids.Perm (c.ids ++ t.ids) := by
  rw [Tree.ids, fold_plug, ids, List.append_assoc, List.append_assoc]
  exact List.Perm.append_left _ List.perm_append_comm

theorem ids_step {n : Nat} (f : Frame K P (Tree K P V n)) (up : Ctx K P V m (n + 1)) :
    (step f up).ids.Perm (f.id :: f.siblings.flatMap Tree.ids ++ up.ids) := by
  have hf : f.foldL Tree.ids (fun _ => []) (fun p => [p]) ++ f.foldR Tree.ids (fun _ => []) =
      f.id :: f.siblings.flatMap Tree.ids := by
    cases f <;> simp [Frame.foldL, Frame.foldR, Frame.id, Frame.pre, Frame.siblings,
      List.flatMap_map]
  rw [← hf, ids, ids, foldL, foldR]
  change (_ ++ f.foldL Tree.ids _ _ ++ (f.foldR Tree.ids _ ++ _)).Perm _
  simp only [List.append_assoc]
  refine List.perm_append_comm_assoc _ _ _ |>.trans (List.Perm.append_left _ ?_)
  exact List.perm_append_comm_assoc _ _ _

end Ctx

/-! ### Conditions on every page of a tree -/

section All

variable {α β : Type}

def Node.map (h : α → β) (t : Node K P α) : Node K P β :=
  ⟨t.id, t.cells.map (fun c => (c.1, h c.2)), h t.right⟩

def Frame.map (h : α → β) : Frame K P α → Frame K P β
  | .last p as => .last p (as.map (fun c => (c.1, h c.2)))
  | .mid p as k bs r =>
    .mid p (as.map (fun c => (c.1, h c.2))) k (bs.map (fun c => (c.1, h c.2))) (h r)

@[simp] theorem Frame.map_id {h : α → β} {f : Frame K P α} : (f.map h).id = f.id := by
  cases f <;> rfl

@[simp] theorem Frame.map_size {h : α → β} {f : Frame K P α} : (f.map h).size = f.size := by
  cases f <;> simp [Frame.map, Frame.size]

@[simp] theorem Frame.length_map_pre {h : α → β} {f : Frame K P α} :
    (f.map h).pre.length = f.pre.length := by
  cases f <;> simp [Frame.map, Frame.pre]

theorem Frame.map_plug {h : α → β} {f : Frame K P α} {t : α} :
    (f.plug t).map h = (f.map h).plug (h t) := by
  cases f <;> simp [Frame.map, Frame.plug, Node.map]

theorem Frame.map_plug₂ {h : α → β} {f : Frame K P α} {t u : α} {k : K} :
    (f.plug₂ t k u).map h = (f.map h).plug₂ (h t) k (h u) := by
  cases f <;> simp [Frame.map, Frame.plug₂, Node.map]

/-- `pn` of the node with its children reduced to their addresses, and `pa` of every child. -/
def Node.All (pa : α → Prop) (addr : α → P) (pn : Node K P P → Prop) (t : Node K P α) : Prop :=
  pn (t.map addr) ∧ ∀ u ∈ t.kids, pa u

def Tree.All (pl : Leaf P V → Prop) (pn : Node K P P → Prop) : {n : Nat} → Tree K P V n → Prop
  | 0, t => pl t
  | _ + 1, t => Node.All (Tree.All pl pn) Tree.id pn t

theorem Frame.forall_kids {Q : α → Prop} {f : Frame K P α} {t : α} :
    (∀ u ∈ (f.plug t).kids, Q u) ↔ Q t ∧ ∀ u ∈ f.siblings, Q u := by
  simp only [Frame.kids_plug.mem_iff, List.forall_mem_cons]

theorem Frame.forall_kids₂ {Q : α → Prop} {f : Frame K P α} {t u : α} {k : K} :
    (∀ v ∈ (f.plug₂ t k u).kids, Q v) ↔ Q t ∧ Q u ∧ ∀ v ∈ f.siblings, Q v := by
  simp only [Frame.kids_plug₂.mem_iff, List.forall_mem_cons]

/-- The context's own pages, with `hole` as the address of whatever stands in it. -/
def Ctx.All (pl : Leaf P V → Prop) (pn : Node K P P → Prop) {m : Nat} :
    {n : Nat} → Ctx K P V m n → P → Prop
  | _, .top, _ => True
  | _, .step f up, hole =>
    pn ((f.map Tree.id).plug hole) ∧ (∀ u ∈ f.siblings, u.All pl pn) ∧ up.All pl pn f.id

variable {pl pl' : Leaf P V → Prop} {pn pn' : Node K P P → Prop}

theorem Tree.all_plug {n : Nat} {f : Frame K P (Tree K P V n)} {t : Tree K P V n} :
    Tree.All pl pn (n := n + 1) (f.plug t) ↔ pn ((f.map Tree.id).plug t.id) ∧ t.All pl pn ∧
      ∀ u ∈ f.siblings, u.All pl pn := by
  rw [← Frame.map_plug, ← Frame.forall_kids (f := f) (t := t)]
  rfl

theorem Tree.all_plug₂ {n : Nat} {f : Frame K P (Tree K P V n)} {t u : Tree K P V n} {k : K} :
    Tree.All pl pn (n := n + 1) (f.plug₂ t k u) ↔ pn ((f.map Tree.id).plug₂ t.id k u.id) ∧
      t.All pl pn ∧ u.All pl pn ∧ ∀ v ∈ f.siblings, v.All pl pn := by
  rw [← Frame.map_plug₂, ← Frame.forall_kids₂ (f := f) (t := t) (k := k)]
  rfl

theorem Ctx.all_plug {m : Nat} : ∀ {n : Nat} (c : Ctx K P V m n) (t : Tree K P V n),
    (c.plug t).All pl pn ↔ c.All pl pn t.id ∧ t.All pl pn
  | _, .top, t => by simp [Ctx.plug, Ctx.All]
  | n, .step f up, t => by
    have h := Ctx.all_plug up (f.plug t)
    have hid : Tree.id (n := n + 1) (f.plug t) = f.id := Frame.plug_id
    rw [Ctx.plug, h, Tree.all_plug, hid, Ctx.All]
    tauto

/-- A condition may be traded for another that it implies at the tree's own addresses. -/
theorem Tree.All.imp : ∀ {n : Nat} {t : Tree K P V n}, t.All pl pn →
    (∀ l : Leaf P V, l.id ∈ t.ids → pl l → pl' l) →
    (∀ s : Node K P P, s.id ∈ t.ids → pn s → pn' s) → t.All pl' pn'
  | 0, t, h, hl, _ => hl t (Tree.id_mem_ids (n := 0) t) h
  | n + 1, t, ⟨h, hk⟩, hl, hn => by
    refine ⟨hn _ (Tree.id_mem_ids (n := n + 1) t) h, ?_⟩
    intro u hu
    have hsub : ∀ p ∈ u.ids, p ∈ Tree.ids (n := n + 1) t := by
      intro p hp
      rw [Tree.ids_node]
      exact List.mem_cons_of_mem _ (List.mem_flatMap.mpr ⟨u, hu, hp⟩)
    exact (hk u hu).imp (fun l hi => hl l (hsub _ hi)) (fun s hi => hn s (hsub _ hi))

theorem Tree.All.forall_ids {q : P → Prop} (hl : ∀ l, pl l → q l.id) (hn : ∀ s, pn s → q s.id) :
    ∀ {n : Nat} {t : Tree K P V n}, t.All pl pn → ∀ p ∈ t.ids, q p
  | 0, t, h, p, hp => by
    rw [List.mem_singleton.mp hp]
    exact hl t h
  | n + 1, t, ⟨h, hk⟩, p, hp => by
    rw [Tree.ids_node] at hp
    rcases List.mem_cons.mp hp with rfl | hp
    · exact hn _ h
    · obtain ⟨u, hu, hp⟩ := List.mem_flatMap.mp hp
      exact (hk u hu).forall_ids hl hn p hp

section CtxIds

variable {m n : Nat} {f : Frame K P (Tree K P V n)} {up : Ctx K P V m (n + 1)} {p : P}

theorem Ctx.mem_ids_step : p ∈ (Ctx.step f up).ids ↔
    p = f.id ∨ (∃ u ∈ f.siblings, p ∈ u.ids) ∨ p ∈ up.ids := by
  rw [(Ctx.ids_step f up).mem_iff]
  simp

theorem Ctx.rootId_mem : ∀ {n : Nat} (c : Ctx K P V m n) (hole : P),
    c.rootId hole = hole ∨ c.rootId hole ∈ c.ids
  | _, .top, _ => .inl rfl
  | _, .step f up, _ => by
    refine .inr (Ctx.mem_ids_step.mpr ?_)
    exact (Ctx.rootId_mem up f.id).imp_right .inr

/-- Above a frame, the root's address is one of the context's own. -/
theorem Ctx.rootId_mem_ids {hole : P} : (Ctx.step f up).rootId hole ∈ (Ctx.step f up).ids :=
  Ctx.mem_ids_step.mpr ((Ctx.rootId_mem up f.id).imp_right .inr)

end CtxIds

theorem Ctx.All.imp {m : Nat} : ∀ {n : Nat} {c : Ctx K P V m n} {hole : P}, c.All pl pn hole →
    (∀ l : Leaf P V, l.id ∈ c.ids → pl l → pl' l) →
    (∀ s : Node K P P, s.id ∈ c.ids → pn s → pn' s) → c.All pl' pn' hole
  | _, .top, _, _, _, _ => trivial
  | _, .step f up, hole, hc, hl, hn => by
    obtain ⟨h, hs, hu⟩ := hc
    have hsib : ∀ u ∈ f.siblings, ∀ p ∈ u.ids, p ∈ (Ctx.step f up).ids :=
      fun u hm p hp => Ctx.mem_ids_step.mpr (.inr (.inl ⟨u, hm, hp⟩))
    have hup : ∀ p ∈ up.ids, p ∈ (Ctx.step f up).ids :=
      fun p hp => Ctx.mem_ids_step.mpr (.inr (.inr hp))
    refine ⟨hn _ (Ctx.mem_ids_step.mpr (.inl (by simp))) h, ?_, ?_⟩
    · intro u hm
      exact (hs u hm).imp (fun l hi => hl l (hsib u hm _ hi)) (fun s hi => hn s (hsib u hm _ hi))
    · exact hu.imp (fun l hi => hl l (hup _ hi)) (fun s hi => hn s (hup _ hi))

theorem Ctx.All.forall_ids {q : P → Prop} (hl : ∀ l, pl l → q l.id) (hn : ∀ s, pn s → q s.id)
    {m : Nat} : ∀ {n : Nat} {c : Ctx K P V m n} {hole : P}, c.All pl pn hole → ∀ p ∈ c.ids, q p
  | _, .top, _, _, p, hp => by simp [Ctx.ids, Ctx.foldL, Ctx.foldR] at hp
  | _, .step f up, hole, hc, p, hp => by
    obtain ⟨h, hs, hu⟩ := hc
    rcases Ctx.mem_ids_step.mp hp with rfl | ⟨u, hm, hp⟩ | hp
    · simpa using hn _ h
    · exact (hs u hm).forall_ids hl hn p hp
    · exact hu.forall_ids hl hn p hp

end All

/-! ### Occupancy -/

/-- Bounds on the number of cells of leaves and nodes. -/
structure Bounds where
  leafMin : Nat
  leafMax : Nat
  nodeMin : Nat
  nodeMax : Nat

section Filled

variable (b : Bounds) {m : Nat}

/-- Every leaf and node within its bounds. -/
def Tree.Filled {n : Nat} (t : Tree K P V n) : Prop :=
  t.All (fun l => b.leafMin ≤ l.cells.length ∧ l.cells.length ≤ b.leafMax)
    (fun s => b.nodeMin ≤ s.cells.length ∧ s.cells.length ≤ b.nodeMax)

/-- Within bounds below a root that needs only one cell, or none if it is a leaf. -/
def Tree.RootFilled : {n : Nat} → Tree K P V n → Prop
  | 0, (t : Leaf P V) => t.cells.length ≤ b.leafMax
  | _ + 1, t => 1 ≤ (Node.cells t).length ∧ (Node.cells t).length ≤ b.nodeMax ∧
    ∀ u ∈ Node.kids t, u.Filled b

/-- The least number of cells a node in the hole may have. -/
def Ctx.lower : {n : Nat} → Ctx K P V m n → Nat
  | _, .top => 1
  | _, .step _ _ => b.nodeMin

def Ctx.Filled : {n : Nat} → Ctx K P V m n → Prop
  | _, .top => True
  | _, .step f up => up.lower b ≤ f.size ∧ f.size ≤ b.nodeMax ∧
    (∀ u ∈ f.siblings, u.Filled b) ∧ up.Filled

/-- What a subtree needs to stand in the hole. -/
def Ctx.HoleFilled : {n : Nat} → Ctx K P V m n → Tree K P V n → Prop
  | _, .top, t => t.RootFilled b
  | _, .step _ _, t => t.Filled b

variable {b}

theorem Tree.filled_node {n : Nat} {t : Node K P (Tree K P V n)} :
    Tree.Filled b (n := n + 1) t ↔ b.nodeMin ≤ t.cells.length ∧ t.cells.length ≤ b.nodeMax ∧
      ∀ u ∈ t.kids, u.Filled b := by
  have h : Tree.Filled b (n := n + 1) t ↔ (b.nodeMin ≤ (t.map Tree.id).cells.length ∧
      (t.map Tree.id).cells.length ≤ b.nodeMax) ∧ ∀ u ∈ t.kids, u.Filled b := Iff.rfl
  rw [h]
  simp only [Node.map, List.length_map, and_assoc]

/-- A node in the hole: its size against the hole's bound, and its children filled. -/
theorem Ctx.holeFilled_node {n : Nat} {c : Ctx K P V m (n + 1)} {t : Node K P (Tree K P V n)} :
    c.HoleFilled b t ↔ c.lower b ≤ t.cells.length ∧ t.cells.length ≤ b.nodeMax ∧
      ∀ u ∈ t.kids, u.Filled b := by
  cases c with
  | top => rfl
  | step f up => exact Tree.filled_node

/-- A leaf in the hole: the lower bound counts below the root only. -/
theorem Ctx.holeFilled_leaf {c : Ctx K P V m 0} {l : Leaf P V} : c.HoleFilled b l ↔
    (c.path ≠ [] → b.leafMin ≤ l.cells.length) ∧ l.cells.length ≤ b.leafMax := by
  cases c with
  | top => simp [Ctx.path, Ctx.HoleFilled, Tree.RootFilled]
  | step f up =>
    simp only [Ctx.path, ne_eq, List.cons_ne_nil, not_false_eq_true, forall_const]
    rfl

theorem Tree.Filled.rootFilled {n : Nat} {t : Tree K P V n} (h : t.Filled b) (hb : 1 ≤ b.nodeMin) :
    t.RootFilled b := by
  cases n with
  | zero => exact h.2
  | succ n =>
    obtain ⟨h1, h2, h3⟩ := Tree.filled_node.mp h
    exact ⟨hb.trans h1, h2, h3⟩

theorem Ctx.rootFilled_plug : ∀ {n : Nat} (c : Ctx K P V m n) (t : Tree K P V n),
    (c.plug t).RootFilled b ↔ c.Filled b ∧ c.HoleFilled b t
  | _, .top, t => by simp [Ctx.plug, Ctx.Filled, Ctx.HoleFilled]
  | n, .step f up, t => by
    have hk := Frame.forall_kids (Q := fun u => u.Filled b) (f := f) (t := t)
    rw [Ctx.plug, Ctx.rootFilled_plug up (f.plug t), Ctx.holeFilled_node, Frame.length_plug_cells,
      hk, Ctx.Filled, Ctx.HoleFilled]
    tauto

end Filled

end HeightTree
