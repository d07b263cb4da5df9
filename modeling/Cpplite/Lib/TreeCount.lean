import Cpplite.Lib.HeightTree

/-!
How many leaves, entries and addresses a tree of a height has.

Occupancy bounds say how many children each node has. The number of leaves lies between two powers
of these, the number of entries between the leaves' bounds, and since a node has two children or
more there are fewer nodes than leaves.
-/
namespace HeightTree

/-! ### Sums over lists -/

section Sums

variable {α β γ : Type} {l : List α} {f : α → List β} {g : α → List γ} {a c : Nat}

theorem length_flatMap_le (h : ∀ x ∈ l, (f x).length + a ≤ c * (g x).length) :
    (l.flatMap f).length + l.length * a ≤ c * (l.flatMap g).length := by
  induction l with
  | nil => simp
  | cons x l ih =>
    have hx := h x List.mem_cons_self
    have hl := ih fun y hy => h y (List.mem_cons_of_mem x hy)
    simp only [List.flatMap_cons, List.length_append, List.length_cons, Nat.mul_add, Nat.add_mul]
    omega

theorem le_length_flatMap (h : ∀ x ∈ l, c * (g x).length ≤ (f x).length) :
    c * (l.flatMap g).length ≤ (l.flatMap f).length := by
  induction l with
  | nil => simp
  | cons x l ih =>
    have hx := h x List.mem_cons_self
    have hl := ih fun y hy => h y (List.mem_cons_of_mem x hy)
    simp only [List.flatMap_cons, List.length_append, Nat.mul_add]
    omega

/-- Every part within a bound. -/
theorem length_flatMap_le_mul (h : ∀ x ∈ l, (f x).length ≤ c) :
    (l.flatMap f).length ≤ c * l.length := by
  have hone := length_flatMap_le (l := l) (f := f) (g := fun x => [x]) (a := 0) (c := c)
    (by simpa using h)
  simpa using hone

theorem mul_le_length_flatMap (h : ∀ x ∈ l, c ≤ (f x).length) :
    c * l.length ≤ (l.flatMap f).length := by
  have hone := le_length_flatMap (l := l) (f := f) (g := fun x => [x]) (c := c) (by simpa using h)
  simpa using hone

end Sums

variable {K P V : Type} {b : Bounds}

/-! ### A node and its children -/

section Nodes

variable {n : Nat} {t : Tree K P V (n + 1)}

theorem Node.length_kids {α : Type} (t : Node K P α) : t.kids.length = t.cells.length + 1 := by
  simp [Node.kids]

theorem Tree.leafIds_node :
    leafIds t.spine = (Node.kids t).flatMap fun u => leafIds u.spine := by
  have hspine : t.spine = Node.fold Tree.spine (fun k => [.inr k]) (fun _ => []) t := rfl
  rw [leafIds, hspine, Node.flatMap_fold]
  simp [Node.fold, Node.kids, List.flatMap_map, leafIds]

theorem Tree.entries_node :
    entries t.spine = (Node.kids t).flatMap fun u => entries u.spine := by
  have hspine : t.spine = Node.fold Tree.spine (fun k => [.inr k]) (fun _ => []) t := rfl
  rw [entries, hspine, Node.flatMap_fold]
  simp [Node.fold, Node.kids, List.flatMap_map, entries]

end Nodes

/-- A leaf is a tree with one leaf. -/
theorem Tree.length_leafIds {t : Tree K P V 0} (c : Nat) : c * (leafIds t.spine).length = c :=
  Nat.mul_one c

theorem Tree.entries_leaf {t : Tree K P V 0} : entries t.spine = Leaf.cells t :=
  List.append_nil _

/-! ### Leaves -/

theorem Tree.Filled.le_leaves : ∀ {n : Nat} {t : Tree K P V n}, t.Filled b →
    (b.nodeMin + 1) ^ n ≤ (leafIds t.spine).length
  | 0, _, _ => le_rfl
  | n + 1, t, h => by
    obtain ⟨hmin, -, hkids⟩ := Tree.filled_node.mp h
    have hall := mul_le_length_flatMap fun u hu => (hkids u hu).le_leaves
    rw [← Tree.leafIds_node, Node.length_kids] at hall
    refine (Nat.mul_le_mul_left _ (Nat.succ_le_succ hmin)).trans ?_
    exact hall

theorem Tree.Filled.leaves_le : ∀ {n : Nat} {t : Tree K P V n}, t.Filled b →
    (leafIds t.spine).length ≤ (b.nodeMax + 1) ^ n
  | 0, _, _ => le_rfl
  | n + 1, t, h => by
    obtain ⟨-, hmax, hkids⟩ := Tree.filled_node.mp h
    have hall := length_flatMap_le_mul fun u hu => (hkids u hu).leaves_le
    rw [← Tree.leafIds_node, Node.length_kids] at hall
    exact hall.trans (Nat.mul_le_mul_left _ (Nat.succ_le_succ hmax))

/-- A root may have as few as two children. -/
theorem Tree.RootFilled.le_leaves {n : Nat} {t : Tree K P V (n + 1)} (h : t.RootFilled b) :
    2 * (b.nodeMin + 1) ^ n ≤ (leafIds t.spine).length := by
  obtain ⟨hone, -, hkids⟩ := h
  have hall := mul_le_length_flatMap fun u hu => (hkids u hu).le_leaves
  rw [← Tree.leafIds_node, Node.length_kids] at hall
  rw [Nat.mul_comm]
  exact (Nat.mul_le_mul_left _ (Nat.succ_le_succ hone)).trans hall

theorem Tree.RootFilled.leaves_le : ∀ {n : Nat} {t : Tree K P V n}, t.RootFilled b →
    (leafIds t.spine).length ≤ (b.nodeMax + 1) ^ n
  | 0, _, _ => le_rfl
  | n + 1, t, ⟨_, hmax, hkids⟩ => by
    have hall := length_flatMap_le_mul fun u hu => (hkids u hu).leaves_le
    rw [← Tree.leafIds_node, Node.length_kids] at hall
    exact hall.trans (Nat.mul_le_mul_left _ (Nat.succ_le_succ hmax))

/-! ### Entries -/

theorem Tree.Filled.le_entries : ∀ {n : Nat} {t : Tree K P V n}, t.Filled b →
    b.leafMin * (leafIds t.spine).length ≤ (entries t.spine).length
  | 0, t, h => by
    rw [Tree.length_leafIds, Tree.entries_leaf]
    exact h.1
  | n + 1, t, h => by
    obtain ⟨-, -, hkids⟩ := Tree.filled_node.mp h
    rw [Tree.leafIds_node, Tree.entries_node]
    exact le_length_flatMap fun u hu => (hkids u hu).le_entries

theorem Tree.Filled.entries_le : ∀ {n : Nat} {t : Tree K P V n}, t.Filled b →
    (entries t.spine).length ≤ b.leafMax * (leafIds t.spine).length
  | 0, t, h => by
    rw [Tree.length_leafIds, Tree.entries_leaf]
    exact h.2
  | n + 1, t, h => by
    obtain ⟨-, -, hkids⟩ := Tree.filled_node.mp h
    have hall := length_flatMap_le (a := 0) fun u hu => (hkids u hu).entries_le
    rw [Tree.leafIds_node, Tree.entries_node]
    exact hall

theorem Tree.RootFilled.le_entries {n : Nat} {t : Tree K P V (n + 1)} (h : t.RootFilled b) :
    b.leafMin * (leafIds t.spine).length ≤ (entries t.spine).length := by
  rw [Tree.leafIds_node, Tree.entries_node]
  exact le_length_flatMap fun u hu => (h.2.2 u hu).le_entries

theorem Tree.RootFilled.entries_le : ∀ {n : Nat} {t : Tree K P V n}, t.RootFilled b →
    (entries t.spine).length ≤ b.leafMax * (leafIds t.spine).length
  | 0, t, h => by
    rw [Tree.length_leafIds, Tree.entries_leaf]
    exact h
  | n + 1, t, ⟨_, _, hkids⟩ => by
    have hall := length_flatMap_le (a := 0) fun u hu => (hkids u hu).entries_le
    rw [Tree.leafIds_node, Tree.entries_node]
    exact hall

/-! ### Addresses -/

/-- Two children or more for every node. -/
theorem Tree.length_ids_node {n : Nat} {t : Tree K P V (n + 1)} (hone : 1 ≤ (Node.cells t).length)
    (hkids : ∀ u ∈ Node.kids t, u.ids.length + 1 ≤ 2 * (leafIds u.spine).length) :
    t.ids.length + 1 ≤ 2 * (leafIds t.spine).length := by
  have hall := length_flatMap_le hkids
  have hlen := Node.length_kids t
  rw [Tree.ids_node, Tree.leafIds_node, List.length_cons]
  omega

theorem Tree.Filled.length_ids (hb : 1 ≤ b.nodeMin) : ∀ {n : Nat} {t : Tree K P V n}, t.Filled b →
    t.ids.length + 1 ≤ 2 * (leafIds t.spine).length
  | 0, _, _ => le_rfl
  | n + 1, t, h => by
    obtain ⟨hmin, -, hkids⟩ := Tree.filled_node.mp h
    exact Tree.length_ids_node (hb.trans hmin) fun u hu => (hkids u hu).length_ids hb

theorem Tree.RootFilled.length_ids (hb : 1 ≤ b.nodeMin) : ∀ {n : Nat} {t : Tree K P V n},
    t.RootFilled b → t.ids.length + 1 ≤ 2 * (leafIds t.spine).length
  | 0, _, _ => le_rfl
  | _ + 1, _, ⟨hone, _, hkids⟩ =>
    Tree.length_ids_node hone fun u hu => (hkids u hu).length_ids hb

/-- A path has a step for every level. -/
theorem Ctx.length_path {m : Nat} : ∀ {n : Nat} (c : Ctx K P V m n), c.path.length + n = m
  | _, .top => by simp [Ctx.path]
  | n, .step f up => by
    have h := up.length_path
    rw [Ctx.path, List.length_cons]
    omega

end HeightTree
