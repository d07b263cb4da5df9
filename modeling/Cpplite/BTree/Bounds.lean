import Cpplite.Lib.TreeCount
import Cpplite.BTree.Forest

/-!
How deep and how large the trees of a forest are.

A tree's height is between two logarithms of the number of its keys, and so is the length of the
stack of a cursor on it. Removals give pages back: below a root that is not a leaf there are never
more pages than twice the keys by the least number a leaf has.
-/
namespace Cpplite

open Exec Search Linked HeightTree

/-- How many keys and pages go with a height. -/
structure Sized (cfg : BTreeConfig) (n keys pages : Nat) : Prop where
  most : keys ≤ (cfg.nodeMaxCells + 1) ^ n * cfg.leafMaxCells
  least : n ≠ 0 → 2 * (cfg.nodeMinCells + 1) ^ (n - 1) * cfg.leafMinCells ≤ keys
  leaf : n = 0 → pages = 1
  pages : n ≠ 0 → cfg.leafMinCells * (pages + 1) ≤ 2 * keys

section Counts

variable {n : Nat} {d : Disk} {cur : BTreeCursor} {t : BTree n} {m : Contents}

/-- A key for every entry. -/
theorem Holds.ncard_keys (h : Holds d cur t m) :
    Set.ncard {k | (m k).isSome} = (entries t.spine).length := by
  have hnodup : ((entries t.spine).map LeafCell.key).Nodup :=
    List.pairwise_map.mpr (h.planted.ordered.keySorted_entries.imp fun hlt => hlt.ne)
  have hset : {k | (m k).isSome} = (((entries t.spine).map LeafCell.key).toFinset : Set DefaultPagerKey) := by
    ext k
    simp [h.spells.isSome_iff]
  rw [hset, Set.ncard_coe_finset, List.toFinset_card_of_nodup hnodup, List.length_map]

/-- The pages of the tree. -/
theorem Holds.ncard_pages (h : Holds d cur t m) :
    Set.ncard {p | d.Reaches cur.rootPgno p} = t.ids.length := by
  have hset : {p | d.Reaches cur.rootPgno p} = (t.ids.toFinset : Set Nat) := by
    ext p
    rw [← h.planted.root_eq]
    simp [h.planted.stored.reaches_iff]
  rw [hset, Set.ncard_coe_finset, List.toFinset_card_of_nodup h.planted.nodup]

theorem sized_of_filled {cfg : BTreeConfig} (h : t.RootFilled cfg.bounds)
    (hmin : 1 ≤ cfg.nodeMinCells) : Sized cfg n (entries t.spine).length t.ids.length := by
  constructor
  · rw [Nat.mul_comm]
    exact h.entries_le.trans (Nat.mul_le_mul_left _ h.leaves_le)
  · intro hn
    obtain ⟨n, rfl⟩ := Nat.exists_eq_succ_of_ne_zero hn
    rw [Nat.mul_comm]
    exact (Nat.mul_le_mul_left _ h.le_leaves).trans h.le_entries
  · rintro rfl
    rfl
  · intro hn
    obtain ⟨n, rfl⟩ := Nat.exists_eq_succ_of_ne_zero hn
    calc cfg.leafMinCells * (t.ids.length + 1)
        ≤ cfg.leafMinCells * (2 * (leafIds t.spine).length) :=
          Nat.mul_le_mul_left _ (h.length_ids hmin)
      _ = 2 * (cfg.leafMinCells * (leafIds t.spine).length) := Nat.mul_left_comm _ _ _
      _ ≤ 2 * (entries t.spine).length := Nat.mul_le_mul_left _ h.le_entries

theorem Holds.sized (h : Holds d cur t m) : Sized cur.config n (Set.ncard {k | (m k).isSome})
    (Set.ncard {p | d.Reaches cur.rootPgno p}) := by
  rw [h.ncard_keys, h.ncard_pages]
  exact sized_of_filled h.planted.filled h.valid.node_min

/-- A stack that leads to a leaf has an element for every level. -/
theorem length_stack {c : BTreeCtx n 0} {top : Nat × Nat} : (top :: c.path).length = n + 1 := by
  exact congrArg (· + 1) c.length_path

theorem Placed.length_cursor (h : Placed cur t) : cur.cursor = [] ∨ cur.cursor.length = n + 1 := by
  refine h.imp_right ?_
  rintro ⟨c, l, i, -, hcur⟩
  rw [hcur, length_stack]

theorem Holds.moveToKey_depth [Build] {pager : Pager} (h : Holds pager.disk cur t m)
    (k : DefaultPagerKey) :
    Returns (Cpplite.moveToKey k) ⟨pager, cur⟩ (fun _ s => s.self.cursor.length = n + 1) := by
  refine (moveToKey_runs (k := k) h.good h.planted ⟨pager, cur⟩ rfl rfl).mono ?_
  rintro found u ⟨-, c, l, i, harr⟩
  rw [harr.cursor, length_stack]

end Counts

/-- Whatever was inserted and removed, in whichever trees, each tree is as deep and as large as its
keys ask for. -/
theorem Forest.reached_sized [Build] (hb : Build.ndebug = true) {f : Forest} (h : Reached f) {i : Nat}
    {cur : BTreeCursor} (hi : f.cursors[i]? = some cur) : ∃ (m : Contents) (n : Nat),
    Represents ⟨f.pager, cur⟩ m ∧
    Sized cur.config n (Set.ncard {k | (m k).isSome}) (Set.ncard {p | f.TreePage i p}) ∧
    (cur.cursor = [] ∨ cur.cursor.length = n + 1) ∧
    ∀ k, Returns (moveToKey k) ⟨f.pager, cur⟩ (fun _ s => s.self.cursor.length = n + 1) := by
  obtain ⟨xs, hxs⟩ := h.grown hb
  obtain ⟨x, -, hh⟩ := hxs.plot hi
  have hpages : {p | f.TreePage i p} = {p | f.pager.disk.Reaches cur.rootPgno p} := by
    ext p
    simp [TreePage, hi]
  refine ⟨x.contents, x.height, Holds.represents (s := ⟨f.pager, cur⟩) hh, ?_,
    hh.placed.length_cursor, hh.moveToKey_depth⟩
  rw [hpages]
  exact hh.sized

/-- Two trees, and a key in the second. -/
def twoTrees : Forest :=
  let _ : Build := ⟨true⟩
  after (Forest.Op.on 1 (.insert 5 [1, 2])).run
    (after (Forest.Op.createTree {}).run (after (Forest.Op.createTree {}).run Forest.fresh))

theorem twoTrees_reached : @Forest.Reached ⟨true⟩ twoTrees := by
  have h₁ := @Forest.Reached.step ⟨true⟩ _ (.createTree {}) (@Forest.Reached.fresh ⟨true⟩) default_valid trivial
  have h₂ := @Forest.Reached.step ⟨true⟩ _ (.createTree {}) h₁ default_valid trivial
  exact @Forest.Reached.step ⟨true⟩ _ (.on 1 (.insert 5 [1, 2])) h₂ (fun _ _ => trivial)
    (show 2 ≤ 2 ^ 32 - 4096 by decide)

theorem twoTrees_second : twoTrees.cursors[1]?.isSome = true := by
  decide +kernel

theorem Forest.reached_sized_two : ∃ (_ : Build) (cur : BTreeCursor) (m : Contents) (n : Nat),
    Represents ⟨twoTrees.pager, cur⟩ m ∧
      Sized cur.config n (Set.ncard {k | (m k).isSome}) (Set.ncard {p | twoTrees.TreePage 1 p}) := by
  obtain ⟨cur, hcur⟩ := Option.isSome_iff_exists.mp twoTrees_second
  obtain ⟨m, n, hm, hsized, -⟩ := @reached_sized ⟨true⟩ rfl _ twoTrees_reached _ _ hcur
  exact ⟨⟨true⟩, cur, m, n, hm, hsized⟩

end Cpplite
