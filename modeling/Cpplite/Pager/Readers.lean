import Cpplite.Pager.Pager

/-! The calls of the pager that only read: whatever they find, the file is as it was. -/
namespace Cpplite

open Exec Search

variable {p : Nat}

theorem readPage_leaves {msg : String} : Leaves id (readPage p msg) :=
  leaves_throw.ite (leaves_get.bind (fun _ => leaves_pure))

theorem firstPageManager_load_leaves : Leaves id FirstPageManager.load := by
  refine leaves_get.bind ?_
  intro s
  cases s.file.read 1 with
  | first h => exact leaves_pure
  | _ => exact leaves_throw

variable [Build]

/-- Where a page of the wrong kind is read, an assertion stands before the undefined behaviour. -/
theorem refuse_leaves {α : Type} : Leaves id (do assert False; throw .undefined : PagerM α) :=
  leaves_assert.bind (fun _ => leaves_throw)

theorem freePageManager_load_leaves : Leaves id (FreePageManager.load p) := by
  refine readPage_leaves.bind ?_
  intro page
  cases page with
  | free h => exact leaves_pure
  | blank => exact leaves_throw
  | _ => exact leaves_assert.bind (fun _ => leaves_pure)

theorem overflowPageManager_load_leaves : Leaves id (OverflowPageManager.load p) := by
  refine readPage_leaves.bind ?_
  intro page
  cases page with
  | overflow h content => exact leaves_pure
  | blank => exact leaves_throw
  | _ => exact refuse_leaves

theorem nodePageManager_load_leaves : Leaves id (NodePageManager.load p) := by
  refine readPage_leaves.bind ?_
  intro page
  cases page with
  | node h area => exact leaves_pure
  | blank => exact leaves_throw
  | _ => exact refuse_leaves

theorem leafPageManager_load_leaves : Leaves id (LeafPageManager.load p) := by
  refine readPage_leaves.bind ?_
  intro page
  cases page with
  | leaf h area => exact leaves_pure
  | blank => exact leaves_throw
  | _ => exact refuse_leaves

theorem seekPage_leaves : Leaves id (seekPage p) := by
  refine (firstPageManager_load_leaves.bind (fun _ => leaves_pure)).ite ?_
  refine readPage_leaves.bind ?_
  intro page
  cases page with
  | first h => exact firstPageManager_load_leaves.bind (fun _ => leaves_pure)
  | node h area => exact nodePageManager_load_leaves.bind (fun _ => leaves_pure)
  | leaf h area => exact leafPageManager_load_leaves.bind (fun _ => leaves_pure)
  | overflow h content => exact overflowPageManager_load_leaves.bind (fun _ => leaves_pure)
  | _ => exact freePageManager_load_leaves.bind (fun _ => leaves_pure)

theorem getPageType_leaves : Leaves id (getPageType p) := by
  refine leaves_assert.bind ?_
  intro _
  refine readPage_leaves.bind ?_
  intro page
  cases page with
  | blank => exact leaves_throw
  | _ => exact leaves_pure

omit [Build] in
theorem getNode_leaves {pm : PageManager} : Leaves id pm.getNode := by
  cases pm with
  | node npm => exact leaves_pure
  | _ => exact leaves_throw

omit [Build] in
theorem getLeaf_leaves {pm : PageManager} : Leaves id pm.getLeaf := by
  cases pm with
  | leaf lpm => exact leaves_pure
  | _ => exact leaves_throw

end Cpplite
