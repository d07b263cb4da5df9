import Cpplite.BTree.Contents

/-!
The tree as a map, over whole runs of one cursor: whatever was inserted and removed,
lookups answer as the map that the same changes make of the empty one.
-/
namespace Cpplite

open Exec Search Linked HeightTree

/-- What a client of the tree asks for. -/
inductive MapOp where
  | insert (key : DefaultPagerKey) (value : List Byte)
  | remove (key : DefaultPagerKey)

/-- The map a tree starts with. -/
def Contents.empty : Contents := fun _ => none

namespace MapOp

/-- The change to the map. -/
def apply (m : Contents) : MapOp → Contents
  | .insert k value => Function.update m k (some value)
  | .remove k => Function.update m k none

/-- A new key and a value short enough to be chunked; any key may be removed. -/
def Fits (m : Contents) : MapOp → Prop
  | .insert k value => m k = none ∧ value.length ≤ 2 ^ 32 - 4096
  | .remove _ => True

/-- The calls on the cursor; `remove` is for a key that was found. -/
def run [Build] : MapOp → BTreeM Unit
  | .insert k value => Cpplite.insert k value
  | .remove k => do
    let found ← moveToKey k
    when (found = true) Cpplite.remove

/-- One change after the other. -/
def runAll [Build] : List MapOp → BTreeM Unit
  | [] => pure ()
  | op :: ops => do
    op.run
    runAll ops

/-- Every change fits the map it meets. -/
def FitsAll : Contents → List MapOp → Prop
  | _, [] => True
  | m, op :: ops => op.Fits m ∧ FitsAll (op.apply m) ops

end MapOp

/-- The cursor answers every lookup from `m`. -/
def Represents [Build] (s : BTreeState) (m : Contents) : Prop :=
  ∀ k, Returns (moveToKey k) s (fun found t => (found = true ↔ (m k).isSome) ∧
    ∀ value, m k = some value →
      Returns currentKey t (fun k' _ => k' = k) ∧ Returns currentValue t (fun v _ => v = value))

section

variable {n : Nat} {d : Disk} {cur : BTreeCursor} {t : BTree n} {m : Contents} [Build]

omit [Build] in
theorem le_chainLimit {value : List Byte} (h : value.length ≤ 2 ^ 32 - 4096) :
    value.length ≤ chainLimit := by
  rw [chainLimit_eq]
  omega

theorem Holds.represents {s : BTreeState} (h : Holds s.pager.disk s.self t m) : Represents s m := by
  intro k
  refine (h.moveToKey k s rfl rfl).mono ?_
  rintro found u ⟨hu, -, hh, hfound, hstand⟩
  refine ⟨hfound, ?_⟩
  intro value hm
  have hk := hstand (hfound.mpr (by rw [hm]; rfl))
  exact ⟨(hh.currentKey hk u hu rfl).mono (fun a _ ha => ha.1),
    (hh.currentValue hk hm u hu rfl).mono (fun a _ ha => ha.1)⟩

/-- One change keeps the cursor over a tree that stands for the changed map. -/
theorem Holds.run (h : Holds d cur t m) (hb : Build.ndebug = true) {op : MapOp} (hf : op.Fits m) :
    Runs op.run d cur (fun _ d' cur' => ∃ (n' : Nat) (t' : BTree n'),
      Holds d' cur' t' (op.apply m)) := by
  cases op with
  | insert k value =>
    refine (h.insert hf.1 (le_chainLimit hf.2)).mono ?_
    rintro _ d' cur' ⟨n', t', -, -, -, -, hh⟩
    exact ⟨n', t', hh⟩
  | remove k =>
    refine (h.moveToKey k).bind ?_
    rintro found d' cur' ⟨rfl, -, hh, hfound, hstand⟩
    refine Runs.when ?_ ?_
    · intro hfd
      refine (hh.remove (hstand hfd) hb).mono ?_
      rintro _ d' cur' ⟨n', t', -, -, hh'⟩
      exact ⟨n', t', hh'⟩
    · intro hfd
      have hnone : m k = none := by
        rw [← Option.not_isSome_iff_eq_none, ← hfound]
        exact hfd
      rw [MapOp.apply, ← hnone, Function.update_eq_self]
      exact ⟨n, t, hh⟩

theorem Holds.runAll (hb : Build.ndebug = true) (ops : List MapOp) : ∀ {n : Nat} {d : Disk}
    {cur : BTreeCursor} {t : BTree n} {m : Contents}, Holds d cur t m → MapOp.FitsAll m ops →
    Runs (MapOp.runAll ops) d cur (fun _ d' cur' => ∃ (n' : Nat) (t' : BTree n'),
      Holds d' cur' t' (ops.foldl MapOp.apply m)) := by
  induction ops with
  | nil => exact fun h _ => Runs.pure ⟨_, _, h⟩
  | cons op ops ih =>
    intro n d cur t m h hf
    refine (h.run hb hf.1).bind ?_
    rintro _ d' cur' ⟨n', t', h'⟩
    exact ih h' hf.2

end

section Refinement

variable {s : BTreeState} [Build]

/-- A new root is an empty leaf past the end of the file. -/
theorem createRoot_returns {s : Pager} (hg : s.disk.Good) :
    Returns (createPage .leafPage) s (fun root t => root = s.disk.total + 1 ∧
      t.disk.page root = .leaf [] nullPage nullPage ∧ t.disk.total = s.disk.total + 1 ∧
      s.disk.Evolves t.disk []) := by
  obtain ⟨hd, h1⟩ := hg.sound.first
  refine (createLeafPage_yields hg.sound h1).mono ?_
  rintro root t ⟨rfl, ht⟩
  rw [ht]
  exact ⟨rfl, hg.sound.create_page_new, rfl, .create hg h1⟩

omit [Build] in
theorem default_valid : ({} : BTreeConfig).Valid := by
  constructor <;> decide

/-- A run over a tree that starts empty ends in the map of its changes. -/
theorem runAll_represents (hb : Build.ndebug = true) (hv : s.self.config.Valid)
    (hg : s.pager.disk.Good) (hcur : s.self.cursor = [])
    (hroot : s.pager.disk.page s.self.rootPgno = .leaf [] nullPage nullPage) {ops : List MapOp}
    (hf : MapOp.FitsAll .empty ops) :
    Returns (MapOp.runAll ops) s (fun _ t => Represents t (ops.foldl MapOp.apply .empty)) := by
  refine ((holds_empty hg hv hcur hroot).runAll hb ops hf s rfl rfl).mono ?_
  rintro _ u ⟨n', t', h⟩
  exact h.represents

end Refinement

theorem runAll_represents_fresh :
    letI : Build := ⟨true⟩
    Returns (createPage .leafPage) Pager.fresh (fun root t =>
      Returns (MapOp.runAll [.insert 5 [1, 2], .insert 3 [], .remove 5])
        ⟨t, [], root, {}⟩ (fun _ u =>
          Represents u (Function.update Contents.empty 3 (some [])))) := by
  let _ : Build := ⟨true⟩
  refine (createRoot_returns fresh_good).mono ?_
  rintro root t ⟨-, hpage, -, hev⟩
  have hf : MapOp.FitsAll .empty [.insert 5 [1, 2], .insert 3 [], .remove 5] := by
    simp [MapOp.FitsAll, MapOp.Fits, MapOp.apply, Contents.empty]
  have hmap : ([.insert 5 [1, 2], .insert 3 [], .remove 5] : List MapOp).foldl MapOp.apply .empty =
      Function.update Contents.empty 3 (some []) := by
    funext k
    by_cases h5 : k = 5
    · subst h5
      rfl
    · by_cases h3 : k = 3 <;> simp [MapOp.apply, Contents.empty, h5, h3]
  rw [← hmap]
  exact runAll_represents (s := ⟨t, [], root, {}⟩) rfl default_valid hev.good rfl hpage hf

end Cpplite
