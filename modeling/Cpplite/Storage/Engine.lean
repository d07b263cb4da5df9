import Cpplite.Encoding
import Cpplite.Lib.ByteFile
import Cpplite.Storage.FileCache
import Mathlib.Data.List.AList
import Mathlib.Data.UInt

/-!
`storage.h` and `storage.cpp`: tables as sequences of pages in segment files, over the file
system that `localfs.cpp` shows.
-/
namespace Cpplite

open Exec Encoding ByteFile

/-! ### `storage_utils.h` -/

def tblPath (tblId : Nat) : String := toString tblId

def segPath (key : FileKey) : String := toString key.1 ++ "/" ++ toString key.2 ++ ".db"

def pgnoToSegid (pgno pagesPerSegment : Nat) : Nat := pgno / pagesPerSegment

def pgnoToRelPgno (pgno pagesPerSegment : Nat) : Nat := pgno % pagesPerSegment

def pgnoToOffset (pgno pageSize : Nat) : Nat := pgno * pageSize % 2 ^ 64

def pgnoToFileOffset (pgno pagesPerSegment pageSize : Nat) : Nat :=
  pgnoToOffset (pgnoToRelPgno pgno pagesPerSegment) pageSize

/-! ### `localfs.cpp` -/

/-- What is under the base directory: the control file, a directory for each table, and the segment
files in them with the numbers of their inodes. Names stand in the order in which they are listed;
`path_to_tbl_id` and `path_to_seg_id` get the numbers back that `tbl_path` and `seg_path` wrote. A
file without a name is still there for who has it open. -/
structure LocalFS where
  basedir : String
  control : Option (List Byte)
  dirs : List Nat
  files : AList (fun _ : FileKey => Nat)
  inodes : Nat → List Byte
  nextInode : Nat

/-- An open file, by its inode. `FileCache` deletes the object it closes, so none is used after
that. -/
abbrev LocalFile := Nat

abbrev LocalFSM := EStateM Error LocalFS

/-- `filesystem_error`, which is a `runtime_error`. -/
def noSuchDirectory : Error := .runtimeError "filesystem error: No such file or directory"

namespace LocalFile

/-- `read` into a buffer. An `off_t` from `2^63` on is negative. -/
def read (file : LocalFile) (buffer : List Byte) (len offset : Nat) : LocalFSM (List Byte) := do
  let fs ← get
  if offset < 2 ^ 63 then
    let bytes := pread (fs.inodes file) len offset
    return bytes ++ (padTo buffer len).drop bytes.length
  else throw (.runtimeError "[LocalFile::read]: pread failed")

/-- `write` from a buffer, or of zeros where there is none. -/
def write (file : LocalFile) (buffer : Option (List Byte)) (len offset : Nat) : LocalFSM Unit := do
  let data := (padTo (buffer.getD []) len).take len
  if offset < 2 ^ 63 then
    modify fun fs => { fs with
      inodes := Function.update fs.inodes file (pwrite (fs.inodes file) data offset) }
  else throw (.runtimeError "[LocalFile::write]: pwrite failed")

/-- `sync`: what was written was written. -/
def sync (_file : LocalFile) : LocalFSM Unit := pure ()

end LocalFile

namespace LocalFS

/-- `open` of a segment file, with `O_CREAT`. -/
def openFile (key : FileKey) : LocalFSM LocalFile := do
  let fs ← get
  match fs.files.lookup key with
  | some inode => return inode
  | none =>
    if key.1 ∈ fs.dirs then do
      set { fs with
        files := fs.files.insert key fs.nextInode
        inodes := Function.update fs.inodes fs.nextInode []
        nextInode := fs.nextInode + 1 }
      return fs.nextInode
    else throw (.runtimeError ("[LocalFS::open]: failed to open " ++ fs.basedir ++ "/" ++ segPath key))

/-- `exists` of a table's directory. -/
def dirExists (fs : LocalFS) (tblId : Nat) : Bool := tblId ∈ fs.dirs

/-- `exists` of a segment file. -/
def fileExists (fs : LocalFS) (key : FileKey) : Bool := (fs.files.lookup key).isSome

/-- The segment files in a table's directory. -/
def segmentsOf (fs : LocalFS) (tblId : Nat) : List FileKey := fs.files.keys.filter (fun key => key.1 = tblId)

/-- `ls` of a table's directory. -/
def ls (tblId : Nat) : LocalFSM (List FileKey) := do
  let fs ← get
  if fs.dirExists tblId then return fs.segmentsOf tblId else throw noSuchDirectory

def filesize (key : FileKey) : LocalFSM Nat := do
  let fs ← get
  match fs.files.lookup key with
  | some inode => return (fs.inodes inode).length
  | none => throw noSuchDirectory

def mkdir (tblId : Nat) : LocalFSM Unit := do
  let fs ← get
  if fs.dirExists tblId then
    throw (.runtimeError ("[LocalFS::mkdir]: failed to create " ++ fs.basedir ++ "/" ++ tblPath tblId))
  else set { fs with dirs := fs.dirs ++ [tblId] }

def unlink (key : FileKey) : LocalFSM Unit := do
  let fs ← get
  if fs.fileExists key then set { fs with files := fs.files.erase key }
  else throw (.runtimeError ("[LocalFS::unlink]: failed to remove " ++ segPath key))

/-- `rmdir`, which takes empty directories only. -/
def rmdir (tblId : Nat) : LocalFSM Unit := do
  let fs ← get
  if fs.dirExists tblId ∧ fs.segmentsOf tblId = [] then
    set { fs with dirs := fs.dirs.filter (fun dir => dir ≠ tblId) }
  else
    throw (.runtimeError ("[LocalFS::rmdir]: failed to remove " ++ fs.basedir ++ "/" ++ tblPath tblId))

end LocalFS

/-! ### `storage.h` -/

structure EngineConfig where
  segmentSize : Nat := 131072
  pageSize : Nat := 4096
deriving DecidableEq, Repr

structure TableMetadata where
  lastPgno : Nat
  totalPages : Nat
deriving DecidableEq, Repr

namespace TableMetadata

/-- `TableMetadata::SIZE` -/
def size : Nat := 16

def toBytes (metadata : TableMetadata) : List Byte :=
  appendUint64 (appendUint64 [] metadata.lastPgno) metadata.totalPages

/-- The constructor that reads a buffer. -/
def ofBytes (buffer : List Byte) : ReadM TableMetadata := do
  let lastPgno ← readUint64 buffer
  let totalPages ← readUint64 buffer
  return ⟨lastPgno, totalPages⟩

/-- Both numbers counted up. -/
def next (metadata : TableMetadata) : TableMetadata :=
  ⟨(metadata.lastPgno + 1) % 2 ^ 64, (metadata.totalPages + 1) % 2 ^ 64⟩

end TableMetadata

/-- `DEFAULT_TABLE_METADATA_PGNO` -/
def defaultTableMetadataPgno : Nat := 0

/-- `Control::SIZE` -/
def controlSize : Nat := 20

structure StorageEngine where
  vfs : LocalFS
  config : EngineConfig
  catalogKey : PageKey
  tableMetadata : AList (fun _ : Nat => TableMetadata)
  filecache : FileCache LocalFile

abbrev StorageM := EStateM Error StorageEngine

namespace StorageEngine

def onVfs {α : Type} (x : LocalFSM α) : StorageM α :=
  zoom (·.vfs) (fun fs s => { s with vfs := fs }) x

def onFilecache {α : Type} (x : FileCacheM LocalFile α) : StorageM α :=
  zoom (·.filecache) (fun c s => { s with filecache := c }) x

/-- A buffer read with an offset of its own. -/
def decode {α : Type} (x : ReadM α) : StorageM (α × Nat) :=
  match x 0 with
  | .ok a offset => pure (a, offset)
  | .error e _ => throw e

/-- `*file` of a pointer that may be null. -/
def deref (file : Option LocalFile) : StorageM LocalFile :=
  match file with
  | some file => pure file
  | none => throw .undefined

/-! ### `storage.cpp` -/

def initControl : StorageM Unit := do
  let s ← get
  match s.vfs.control with
  | none =>
    let buffer := appendUint64 (appendUint64 (appendUint32 [] checksum) 0) 0
    set { s with vfs := { s.vfs with control := some buffer } }
  | some content =>
    let buffer := padTo (pread content controlSize 0) controlSize
    let (control, _) ← decode (do
      let controlChecksum ← readUint32 buffer
      if controlChecksum = checksum then do
        let catalogTblId ← readUint64 buffer
        let catalogPgno ← readUint64 buffer
        return some (catalogTblId, catalogPgno)
      else return none)
    match control with
    | some catalogKey => modify fun s => { s with catalogKey := catalogKey }
    | none => pure ()

variable [Build]

/-- The body of the loop over the directories. -/
def initTable (tblId : Nat) : StorageM Unit := do
  let segments ← onVfs (LocalFS.ls tblId)
  assert (segments.length = 1)
  let fullSegments := pred64 segments.length
  match segments.getLast? with
  | none => throw .undefined
  | some last => do
    let size ← onVfs (LocalFS.filesize last)
    let s ← get
    let lastSegPages := size / s.config.pageSize
    let totalPages := (fullSegments * s.config.segmentSize + lastSegPages) % 2 ^ 64
    modify fun s => { s with
      tableMetadata := s.tableMetadata.insert tblId ⟨pred64 totalPages, totalPages⟩ }

def initTableMetadata : StorageM Unit := do
  let s ← get
  s.vfs.dirs.forM initTable

/-- `open`: the engine over what is there. -/
def openAt (vfs : LocalFS) (config : EngineConfig) : EStateM.Result Error StorageEngine Unit :=
  (do initControl; initTableMetadata : StorageM Unit) ⟨vfs, config, (0, 0), ∅, {}⟩

def openSegment (tblId segId : Nat) : StorageM (Option LocalFile) := do
  let key := (tblId, segId)
  let cached ← onFilecache (FileCache.cached key)
  if cached = true then onFilecache (FileCache.get key)
  else do
    let file ← onVfs (LocalFS.openFile key)
    onFilecache (FileCache.put key file)
    onFilecache (FileCache.get key)

def getSegment (tblId pgno : Nat) : StorageM LocalFile := do
  let s ← get
  let segId := pgnoToSegid pgno s.config.segmentSize
  assert (s.vfs.dirExists tblId = true ∧ s.vfs.fileExists (tblId, segId) = true)
  let seg ← openSegment tblId segId
  match seg with
  | none =>
    throw (.runtimeError ("[StorageEngine]: Failed to open segment for tbl=" ++ toString tblId ++
      " pgno=" ++ toString pgno))
  | some seg => return seg

def getLatestPage (tblId : Nat) : StorageM Nat := do
  let s ← get
  match s.tableMetadata.lookup tblId with
  | none => do
    let segId := pgnoToSegid defaultTableMetadataPgno s.config.segmentSize
    let firstSegmt ← openSegment tblId segId
    assert (firstSegmt ≠ none)
    let firstSegmt ← deref firstSegmt
    let buffer ← onVfs (firstSegmt.read [] s.config.pageSize 0)
    let (metadata, offset) ← decode (TableMetadata.ofBytes buffer)
    assert (offset = buffer.length)
    modify fun s => { s with tableMetadata := s.tableMetadata.insert tblId metadata }
    return metadata.lastPgno
  | some metadata => return metadata.lastPgno

/-- `read_page`; the buffer comes back filled. -/
def readPage (pgkey : PageKey) (buffer : List Byte) : StorageM (List Byte) := do
  let latestPage ← getLatestPage pgkey.1
  if pgkey.2 > latestPage then
    throw (.runtimeError "[StorageEngine:read_page]: Attempted to read past last page")
  else do
    let seg ← getSegment pgkey.1 pgkey.2
    let s ← get
    let offset := pgnoToFileOffset pgkey.2 s.config.segmentSize s.config.pageSize
    onVfs (seg.read buffer s.config.pageSize offset)

/-- `write_page`; the buffer comes back with at least a page's size. -/
def writePage (pgkey : PageKey) (buffer : List Byte) : StorageM (List Byte) := do
  let latestPage ← getLatestPage pgkey.1
  if pgkey.2 > latestPage then
    throw (.runtimeError "[StorageEngine:write_page]: Attempted to write past last page")
  else do
    let seg ← getSegment pgkey.1 pgkey.2
    let s ← get
    let offset := pgnoToFileOffset pgkey.2 s.config.segmentSize s.config.pageSize
    onVfs (seg.write (some buffer) s.config.pageSize offset)
    return padTo buffer s.config.pageSize

def allocatePage (tblId : Nat) : StorageM PageKey := do
  let s ← get
  assert (s.vfs.dirExists tblId = true)
  let latestPage ← getLatestPage tblId
  let latestPage := (latestPage + 1) % 2 ^ 64
  let s ← get
  let segId := pgnoToSegid latestPage s.config.segmentSize
  let segmt ← openSegment tblId segId
  let offset := pgnoToFileOffset latestPage s.config.segmentSize s.config.pageSize
  let segmt ← deref segmt
  onVfs (segmt.write none s.config.pageSize offset)
  let s ← get
  let metadata := ((s.tableMetadata.lookup tblId).getD ⟨0, 0⟩).next
  set { s with tableMetadata := s.tableMetadata.insert tblId metadata }
  assert (latestPage = metadata.lastPgno)
  return (tblId, latestPage)

def createTable (tblId : Nat) : StorageM Unit := do
  let s ← get
  if s.vfs.dirExists tblId then
    throw (.runtimeError ("[StorageEngine:create_table]: Table already exists " ++ tblPath tblId))
  else do
    onVfs (LocalFS.mkdir tblId)
    let segId := pgnoToSegid defaultTableMetadataPgno s.config.segmentSize
    let firstSegmt ← openSegment tblId segId
    match firstSegmt with
    | none =>
      throw (.runtimeError ("[StorageEngine:create_table]: Failed to create first segment for " ++
        tblPath tblId))
    | some firstSegmt => do
      let metadata : TableMetadata := ⟨defaultTableMetadataPgno, defaultTableMetadataPgno + 1⟩
      modify fun s => { s with tableMetadata := s.tableMetadata.insert tblId metadata }
      onVfs (firstSegmt.write (some metadata.toBytes) s.config.pageSize 0)

/-- The first half of `flush_table`: the metadata goes to page 0. -/
def flushMetadata (tblId : Nat) : StorageM Unit := do
  let s ← get
  match s.tableMetadata.lookup tblId with
  | none => pure ()
  | some metadata => do
    let segId := pgnoToSegid defaultTableMetadataPgno s.config.segmentSize
    assert (s.vfs.fileExists (tblId, segId) = true)
    let segmt ← openSegment tblId segId
    let offset := pgnoToFileOffset defaultTableMetadataPgno s.config.segmentSize s.config.pageSize
    let segmt ← deref segmt
    onVfs (segmt.write (some metadata.toBytes) TableMetadata.size offset)

/-- The body of the loop over the segments. -/
def syncSegment (tblId : Nat) (segPath : FileKey) : StorageM Unit := do
  let seg ← openSegment tblId segPath.2
  let seg ← deref seg
  onVfs seg.sync

def flushTable (tblId : Nat) : StorageM Unit := do
  flushMetadata tblId
  let segFiles ← onVfs (LocalFS.ls tblId)
  segFiles.forM (syncSegment tblId)

def truncateTable (tblId : Nat) : StorageM Unit := do
  let segfiles ← onVfs (LocalFS.ls tblId)
  segfiles.forM (fun segfile => onVfs (LocalFS.unlink segfile))
  let left ← onVfs (LocalFS.ls tblId)
  assert (left.length = 0)

def deleteTable (tblId : Nat) : StorageM Unit := do
  truncateTable tblId
  onVfs (LocalFS.rmdir tblId)
  let s ← get
  assert (s.vfs.dirExists tblId = false)

/-- `shutdown`: a `std::map` is walked in the order of its keys. -/
def shutdown : StorageM Unit := do
  let s ← get
  (s.tableMetadata.keys.insertionSort (· ≤ ·)).forM flushTable

end StorageEngine

end Cpplite
