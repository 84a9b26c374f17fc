import Uste.Storage.Adapter

/-!
The deterministic in-memory file system with a volatile and a durable side. Only `sync_data`,
`sync_all` and `sync_directory` move what was written to the durable side, and `restart` throws
the rest away.
-/

namespace Uste.Storage

open Program

structure MemoryFile where
  node : Nat
  generation : Nat
  deriving DecidableEq

structure MemoryDirectory where
  node : Nat
  generation : Nat
  deriving DecidableEq

inductive Node where
  | file (node : Nat)
  | directory (node : Nat)
  deriving DecidableEq

structure MemoryFileState where
  volatile : List UInt8 := []
  durable : List UInt8 := []
  exclusiveLockGeneration : Nat := 0

/-- The guard shares the lock cell of its file, here the node of the file. -/
structure MemoryOwnershipGuard where
  node : Nat
  generation : Nat
  deriving DecidableEq

structure MemoryDirectoryState where
  volatile : EntryName → Option Node := fun _ => none
  durable : EntryName → Option Node := fun _ => none

structure MemoryFileSystem where
  generation : Nat
  nextNode : Nat
  fileLimit : Nat
  files : Nat → Option MemoryFileState
  directories : Nat → Option MemoryDirectoryState

abbrev memoryHandles : Handles := ⟨MemoryFile, MemoryDirectory, MemoryOwnershipGuard⟩

namespace MemoryFileSystem

def rootNode : Nat := 1

def new (fileLimit : Nat) : MemoryFileSystem where
  generation := 1
  nextNode := rootNode + 1
  fileLimit := fileLimit
  files := fun _ => none
  directories := Function.update (fun _ => none) rootNode (some {})

/-- A crash: everything that is not durable is lost, and every handle becomes stale. -/
def restart : Program MemoryFileSystem AdapterErrorKind Unit := do
  let fs ← read
  ensure (fs.generation + 1 < wordLimit) .resourceLimit
  update fun fs => { fs with
    generation := fs.generation + 1
    files := fun node => (fs.files node).map fun file =>
      { file with volatile := file.durable, exclusiveLockGeneration := 0 }
    directories := fun node => (fs.directories node).map fun directory =>
      { directory with volatile := directory.durable } }

def allocateNode : Program MemoryFileSystem AdapterErrorKind Nat := do
  let fs ← read
  ensure (fs.nextNode + 1 < wordLimit) .resourceLimit
  update fun fs => { fs with nextNode := fs.nextNode + 1 }
  pure fs.nextNode

def directory (handle : MemoryDirectory) : Program MemoryFileSystem AdapterErrorKind MemoryDirectoryState := do
  let fs ← read
  ensure (handle.generation = fs.generation) .staleHandle
  match fs.directories handle.node with
  | some state => pure state
  | none => fail .notFound

def file (handle : MemoryFile) : Program MemoryFileSystem AdapterErrorKind MemoryFileState := do
  let fs ← read
  ensure (handle.generation = fs.generation) .staleHandle
  match fs.files handle.node with
  | some state => pure state
  | none => fail .notFound

def putDirectory (handle : MemoryDirectory) (state : MemoryDirectoryState) :
    Program MemoryFileSystem AdapterErrorKind Unit :=
  update fun fs => { fs with directories := Function.update fs.directories handle.node (some state) }

def putFile (handle : MemoryFile) (state : MemoryFileState) : Program MemoryFileSystem AdapterErrorKind Unit :=
  update fun fs => { fs with files := Function.update fs.files handle.node (some state) }

def root (fs : MemoryFileSystem) : MemoryDirectory := ⟨rootNode, fs.generation⟩

def createDirectory (parent : MemoryDirectory) (name : EntryName) :
    Program MemoryFileSystem AdapterErrorKind MemoryDirectory := do
  let state ← directory parent
  ensure ((state.volatile name).isNone = true) .alreadyExists
  let node ← allocateNode
  update fun fs => { fs with directories := Function.update fs.directories node (some {}) }
  let state ← directory parent
  putDirectory parent { state with volatile := Function.update state.volatile name (some (.directory node)) }
  let fs ← read
  pure ⟨node, fs.generation⟩

def openDirectory (parent : MemoryDirectory) (name : EntryName) :
    Program MemoryFileSystem AdapterErrorKind MemoryDirectory := do
  let state ← directory parent
  let fs ← read
  match state.volatile name with
  | some (.directory node) => pure ⟨node, fs.generation⟩
  | _ => fail .notFound

def createNew (handle : MemoryDirectory) (name : EntryName) :
    Program MemoryFileSystem AdapterErrorKind MemoryFile := do
  let state ← directory handle
  ensure ((state.volatile name).isNone = true) .alreadyExists
  let node ← allocateNode
  update fun fs => { fs with files := Function.update fs.files node (some {}) }
  let state ← directory handle
  putDirectory handle { state with volatile := Function.update state.volatile name (some (.file node)) }
  let fs ← read
  pure ⟨node, fs.generation⟩

def openExisting (handle : MemoryDirectory) (name : EntryName) :
    Program MemoryFileSystem AdapterErrorKind MemoryFile := do
  let state ← directory handle
  let fs ← read
  match state.volatile name with
  | some (.file node) => pure ⟨node, fs.generation⟩
  | _ => fail .notFound

def metadata (handle : MemoryFile) : Program MemoryFileSystem AdapterErrorKind Nat := do
  let state ← file handle
  ensure (state.volatile.length < wordLimit) .resourceLimit
  pure state.volatile.length

def readAt (handle : MemoryFile) (offset length : Nat) : Program MemoryFileSystem AdapterErrorKind ReadReport := do
  let state ← file handle
  if offset ≥ state.volatile.length then pure ⟨0, []⟩
  else
    let count := min length (state.volatile.length - offset)
    pure ⟨count, slice state.volatile offset count⟩

def overwrite (bytes : List UInt8) (offset : Nat) (input : List UInt8) : List UInt8 :=
  let sized := bytes ++ List.replicate (offset + input.length - bytes.length) 0
  sized.take offset ++ input ++ sized.drop (offset + input.length)

def writeAt (handle : MemoryFile) (offset : Nat) (input : List UInt8) :
    Program MemoryFileSystem AdapterErrorKind Nat := do
  ensure (offset + input.length < wordLimit) .resourceLimit
  let fs ← read
  ensure (offset + input.length ≤ fs.fileLimit) .noSpace
  let state ← file handle
  putFile handle { state with volatile := overwrite state.volatile offset input }
  pure input.length

def resize (bytes : List UInt8) (length : Nat) : List UInt8 :=
  bytes.take length ++ List.replicate (length - bytes.length) 0

def setLen (handle : MemoryFile) (length : Nat) : Program MemoryFileSystem AdapterErrorKind Unit := do
  let fs ← read
  ensure (length ≤ fs.fileLimit) .noSpace
  let state ← file handle
  putFile handle { state with volatile := resize state.volatile length }

def syncData (handle : MemoryFile) : Program MemoryFileSystem AdapterErrorKind Unit := do
  let state ← file handle
  putFile handle { state with durable := state.volatile }

def renameNoReplace (sourceDirectory : MemoryDirectory) (source : EntryName)
    (destinationDirectory : MemoryDirectory) (destination : EntryName) :
    Program MemoryFileSystem AdapterErrorKind Unit := do
  let state ← directory sourceDirectory
  match state.volatile source with
  | none => fail .notFound
  | some sourceNode =>
    let target ← directory destinationDirectory
    ensure ((target.volatile destination).isNone = true) .alreadyExists
    let state ← directory sourceDirectory
    putDirectory sourceDirectory { state with volatile := Function.update state.volatile source none }
    let target ← directory destinationDirectory
    putDirectory destinationDirectory
      { target with volatile := Function.update target.volatile destination (some sourceNode) }

def removeFile (handle : MemoryDirectory) (name : EntryName) : Program MemoryFileSystem AdapterErrorKind Unit := do
  let state ← directory handle
  match state.volatile name with
  | none => fail .notFound
  | some (.file _) => putDirectory handle { state with volatile := Function.update state.volatile name none }
  | some (.directory _) => fail .wrongEntryType

def syncDirectory (handle : MemoryDirectory) : Program MemoryFileSystem AdapterErrorKind Unit := do
  let state ← directory handle
  putDirectory handle { state with durable := state.volatile }

def tryLockExclusive (handle : MemoryDirectory) (name : EntryName) :
    Program MemoryFileSystem AdapterErrorKind MemoryOwnershipGuard := do
  let handle ← openExisting handle name
  let state ← file handle
  ensure (state.exclusiveLockGeneration = 0) .ownershipConflict
  let fs ← read
  putFile handle { state with exclusiveLockGeneration := fs.generation }
  pure ⟨handle.node, fs.generation⟩

/-- Dropping the guard frees the lock unless a restart already has. -/
def release (guard : MemoryOwnershipGuard) (fs : MemoryFileSystem) : MemoryFileSystem :=
  { fs with files := Function.update fs.files guard.node ((fs.files guard.node).map fun file =>
      if file.exclusiveLockGeneration = guard.generation then { file with exclusiveLockGeneration := 0 }
      else file) }

instance : FileSystem MemoryFileSystem memoryHandles where
  root := root
  createDirectory := createDirectory
  openDirectory := openDirectory
  createNew := createNew
  openExisting := openExisting
  metadata := metadata
  readAt := readAt
  writeAt := writeAt
  setLen := setLen
  syncData := syncData
  syncAll := syncData
  renameNoReplace := renameNoReplace
  removeFile := removeFile
  syncDirectory := syncDirectory
  tryLockExclusive := tryLockExclusive
  release := release
  interruptions := fun _ => 0

end MemoryFileSystem

end Uste.Storage
