import Cpplite.BufferPool.Guards
import Cpplite.Storage.Engine

/-!
`bufferpool.cpp`: pages kept in a fixed number of frames, run by one thread.

Every call takes `bpm_latch_` by hand and gives it back on the paths that return.
-/
namespace Cpplite

open Exec

/-- `EVICTOR_K` -/
def evictorK : Nat := 2

structure BufferPoolManager (E : Type) where
  numFrames : Nat
  shared : Shared E
  frameTable : AList (fun _ : PageKey => Nat)
  freeList : List Nat
  storageEngine : StorageEngine

abbrev PoolM (E : Type) := EStateM Error (BufferPoolManager E)

namespace BufferPoolManager

variable {E α : Type}

def onShared (x : SharedM E α) : PoolM E α :=
  zoom (·.shared) (fun shared s => { s with shared }) x

def onStorage (x : StorageM α) : PoolM E α :=
  zoom (·.storageEngine) (fun storageEngine s => { s with storageEngine }) x

/-- The pool as its constructor leaves it, over any evictor. -/
def fresh (numFrames : Nat) (evictor : E) (storageEngine : StorageEngine) : BufferPoolManager E where
  numFrames := numFrames
  shared := ⟨fun _ => {}, false, evictor⟩
  frameTable := ∅
  freeList := List.range numFrames
  storageEngine := storageEngine

/-- `BufferPoolManager::BufferPoolManager` -/
def initial (numFrames : Nat) (storageEngine : StorageEngine) : BufferPoolManager LRUKEvictor :=
  fresh numFrames { k := evictorK } storageEngine

variable [Evictor E]

def ensureFreeFrame : PoolM E Bool := do
  let s ← get
  if s.freeList ≠ [] then return true
  else do
    let evicted := Evictor.evict s.shared.evictor
    set { s with shared := { s.shared with evictor := evicted.2 } }
    match evicted.1 with
    | none => return false
    | some victim => do
      modify fun s => { s with freeList := s.freeList ++ [victim] }
      return true

variable [Build]

def size : PoolM E Nat := do
  let s ← get
  assert (s.freeList.length + s.frameTable.entries.length = s.numFrames)
  return s.frameTable.entries.length

/-- `assert(free_list_.size() > 0 && size() < num_frames_)` -/
def checkCount : PoolM E Unit := do
  let s ← get
  let n ← size
  assert (0 < s.freeList.length ∧ n < s.numFrames)

/-- `frames_[frame_id]`, behind its assertion. -/
def checkFrame (frameId : Nat) : PoolM E Unit := do
  let s ← get
  assert (frameId < s.numFrames)
  if frameId < s.numFrames then pure () else throw .undefined

/-- `memcpy` of `PAGE_SIZE` bytes into a frame. -/
def copyIn (frameId : Nat) (readBuffer : List Byte) : PoolM E Unit :=
  if pageSize ≤ readBuffer.length then
    onShared (Shared.onFrame frameId (modify fun frame => { frame with
      data := readBuffer.take pageSize ++ frame.data.drop pageSize }))
  else throw .undefined

def insertFrame (pgkey : PageKey) : PoolM E Nat := do
  let readBuffer ← onStorage (StorageEngine.readPage pgkey [])
  let s ← get
  match s.freeList with
  -- `front` of an empty list
  | [] => throw .undefined
  | frameId :: rest => do
    set { s with freeList := rest }
    checkFrame frameId
    onShared (Shared.onFrame frameId FrameHeader.reset)
    copyIn frameId readBuffer
    modify fun s => { s with frameTable := s.frameTable.insert pgkey frameId }
    onShared (Shared.recordAccess frameId)
    onShared (Shared.setEvictable frameId false)
    return frameId

def newPage (tblId : Nat) : PoolM E (Option PageKey) := do
  onShared Shared.lock
  let free ← ensureFreeFrame
  if free = true then do
    checkCount
    let pgkey ← onStorage (StorageEngine.allocatePage tblId)
    let _ ← insertFrame pgkey
    onShared Shared.unlock
    return some pgkey
  else do
    onShared Shared.unlock
    return none

/-- The frame of a page, in the pool already or brought in; none if there is no room. -/
def findFrame (pgkey : PageKey) : PoolM E (Option Nat) := do
  let s ← get
  match s.frameTable.lookup pgkey with
  | some frameId => do
    onShared (Shared.recordAccess frameId)
    onShared (Shared.setEvictable frameId false)
    return some frameId
  | none => do
    let free ← ensureFreeFrame
    if free = true then do
      let frameId ← insertFrame pgkey
      return some frameId
    else return none

/-- The common body of `read_page` and `write_page`. -/
def getPage (kind : GuardKind) (pgkey : PageKey) : PoolM E (PageGuard kind) := do
  onShared Shared.lock
  let frame ← findFrame pgkey
  match frame with
  | some frameId => do
    checkFrame frameId
    let pageGuard ← onShared (PageGuard.construct kind pgkey frameId)
    onShared Shared.unlock
    return pageGuard
  | none => do
    onShared Shared.unlock
    return {}

def readPage : PageKey → PoolM E ReadPageGuard := getPage .read

def writePage : PageKey → PoolM E WritePageGuard := getPage .write

def evictPage (pgkey : PageKey) : PoolM E Bool := do
  onShared Shared.lock
  let s ← get
  match s.frameTable.lookup pgkey with
  | none => do
    onShared Shared.unlock
    return true
  | some frameId => do
    checkFrame frameId
    if (s.shared.frames frameId).pins > 0 then do
      onShared Shared.unlock
      return false
    else do
      modify fun s => { s with frameTable := s.frameTable.erase pgkey }
      onShared (Shared.onFrame frameId FrameHeader.reset)
      modify fun s => { s with freeList := s.freeList ++ [frameId] }
      modify fun s => { s with shared := { s.shared with evictor := Evictor.remove s.shared.evictor frameId } }
      onShared Shared.unlock
      return true

/-- What both flushes do with a frame. -/
def flushFrame (pgkey : PageKey) (frameId : Nat) : PoolM E Unit := do
  checkFrame frameId
  onShared (Shared.onFrame frameId FrameHeader.lockWrite)
  let s ← get
  let _ ← onStorage (StorageEngine.writePage pgkey (s.shared.frames frameId).data)
  onShared (Shared.onFrame frameId (FrameHeader.setDirty false))
  onShared (Shared.onFrame frameId FrameHeader.unlockWrite)

def flushPage (pgkey : PageKey) : PoolM E Bool := do
  onShared Shared.lock
  let s ← get
  match s.frameTable.lookup pgkey with
  | none => do
    onShared Shared.unlock
    return false
  | some frameId => do
    flushFrame pgkey frameId
    onShared Shared.unlock
    return true

/-- A `std::map` is walked in the order of its keys. -/
def mapped (s : BufferPoolManager E) : List (PageKey × Nat) :=
  (s.frameTable.entries.map fun e => (e.1, e.2)).mergeSort
    (fun a b => decide (toLex a.1 ≤ toLex b.1))

def flushAllPages : PoolM E Unit := do
  onShared Shared.lock
  let s ← get
  s.mapped.forM fun e => flushFrame e.1 e.2
  onShared Shared.unlock

def getPinCount (pgkey : PageKey) : PoolM E (Option Nat) := do
  onShared Shared.lock
  let s ← get
  match s.frameTable.lookup pgkey with
  | none => do
    onShared Shared.unlock
    return none
  | some frameId => do
    checkFrame frameId
    onShared Shared.unlock
    return some (s.shared.frames frameId).pins

end BufferPoolManager

end Cpplite
