import Uste.Storage.Memory

/-!
Fault injection over any file system: at the n-th occurrence of an operation the plan can make it
fail, do less than asked, report more than asked, or crash before or after its effect. After a
crash every operation fails until the restart.
-/

namespace Uste.Storage

open Program

inductive Operation where
  | createDirectory
  | openDirectory
  | createNew
  | openExisting
  | metadata
  | readAt
  | writeAt
  | setLen
  | syncData
  | syncAll
  | renameNoReplace
  | removeFile
  | syncDirectory
  | tryLockExclusive
  deriving DecidableEq, Repr

inductive FaultAction where
  | error (kind : AdapterErrorKind)
  | shortWrite (maximum : Nat)
  | shortRead (maximum : Nat)
  | zeroProgress
  | overReport
  | crashBefore
  | crashAfter
  deriving DecidableEq, Repr

structure FaultPoint where
  operation : Operation
  occurrence : Nat
  action : FaultAction
  deriving DecidableEq, Repr

/-- The pending points, at most one for an operation and an occurrence. -/
structure FaultPlan where
  points : List FaultPoint := []
  deriving DecidableEq, Repr

namespace FaultPlan

def invalidOperation (point : FaultPoint) : Bool :=
  match point.action with
  | .shortWrite _ => point.operation != .writeAt
  | .shortRead _ => point.operation != .readAt
  | .zeroProgress | .overReport => point.operation != .readAt && point.operation != .writeAt
  | .error _ | .crashBefore | .crashAfter => false

def at? (plan : FaultPlan) (operation : Operation) (occurrence : Nat) : Option FaultPoint :=
  plan.points.find? fun point => point.operation == operation && point.occurrence == occurrence

def add (plan : FaultPlan) (point : FaultPoint) : Except AdapterErrorKind FaultPlan :=
  if point.occurrence = 0 ∨ invalidOperation point = true ∨ point.action = .shortWrite 0
      ∨ point.action = .shortRead 0 ∨ point.action = .error .injectedCrash
      ∨ (plan.at? point.operation point.occurrence).isSome = true then
    .error .adapterContract
  else .ok { points := plan.points ++ [point] }

def new (points : List FaultPoint) : Except AdapterErrorKind FaultPlan := points.foldlM add {}

end FaultPlan

structure FaultFileSystem (F : Type) where
  inner : F
  plan : FaultPlan
  occurrences : Operation → Nat
  crashed : Bool

namespace FaultFileSystem

variable {F : Type} {H : Handles} {α : Type}

def new (inner : F) (plan : FaultPlan) : FaultFileSystem F := ⟨inner, plan, fun _ => 0, false⟩

def nextAction (operation : Operation) : Program (FaultFileSystem F) AdapterErrorKind (Option FaultAction) := do
  let fs ← read
  ensure (fs.crashed = false) .injectedCrash
  let occurrence := fs.occurrences operation + 1
  ensure (occurrence < wordLimit) .resourceLimit
  update fun fs => { fs with occurrences := Function.update fs.occurrences operation occurrence }
  match fs.plan.at? operation occurrence with
  | none => pure none
  | some point =>
    update fun fs => { fs with plan := { points := fs.plan.points.erase point } }
    pure (some point.action)

def ordinaryAction (operation : Operation) :
    Program (FaultFileSystem F) AdapterErrorKind (Bool × Option AdapterErrorKind) := do
  match ← nextAction operation with
  | none => pure (false, none)
  | some (.error kind) => pure (false, some kind)
  | some .crashBefore =>
    update fun fs => { fs with crashed := true }
    pure (false, some .injectedCrash)
  | some .crashAfter => pure (true, none)
  | some _ => fail .adapterContract

/-- Run an operation of the wrapped file system and `finish` it: a crash after a success reports
the crash and drops the value, which for a guard is `discard`. -/
def finish (discard : α → F → F) (result : Program F AdapterErrorKind α) (crashAfter : Bool) :
    Program (FaultFileSystem F) AdapterErrorKind α := fun fs =>
  match result fs.inner with
  | (.ok a, inner) =>
    if crashAfter then (.error .injectedCrash, { fs with inner := discard a inner, crashed := true })
    else (.ok a, { fs with inner := inner })
  | (.error kind, inner) => (.error kind, { fs with inner := inner })

def forget (_ : α) (inner : F) : F := inner

/-- The shape of every operation but `read_at` and `write_at`. -/
def ordinary (operation : Operation) (discard : α → F → F) (result : Program F AdapterErrorKind α) :
    Program (FaultFileSystem F) AdapterErrorKind α := do
  match ← ordinaryAction operation with
  | (_, some error) => fail error
  | (crashAfter, none) => finish discard result crashAfter

-- No buffer is long enough for the saturating increment of the over-report to saturate.
def readAt [FileSystem F H] (file : H.File) (offset length : Nat) :
    Program (FaultFileSystem F) AdapterErrorKind ReadReport := do
  match ← nextAction .readAt with
  | none => finish forget (FileSystem.readAt file offset length) false
  | some (.error kind) => fail kind
  | some (.shortRead maximum) => finish forget (FileSystem.readAt file offset (min maximum length)) false
  | some .zeroProgress => pure ⟨0, []⟩
  | some .overReport => pure ⟨length + 1, []⟩
  | some .crashBefore =>
    update fun fs => { fs with crashed := true }
    fail .injectedCrash
  | some .crashAfter => finish forget (FileSystem.readAt file offset length) true
  | some (.shortWrite _) => fail .adapterContract

def writeAt [FileSystem F H] (file : H.File) (offset : Nat) (input : List UInt8) :
    Program (FaultFileSystem F) AdapterErrorKind Nat := do
  match ← nextAction .writeAt with
  | none => finish forget (FileSystem.writeAt file offset input) false
  | some (.error kind) => fail kind
  | some (.shortWrite maximum) =>
    finish forget (FileSystem.writeAt file offset (input.take (min maximum input.length))) false
  | some .zeroProgress => pure 0
  | some .overReport => pure (input.length + 1)
  | some .crashBefore =>
    update fun fs => { fs with crashed := true }
    fail .injectedCrash
  | some .crashAfter => finish forget (FileSystem.writeAt file offset input) true
  | some (.shortRead _) => fail .adapterContract

instance [FileSystem F H] : FileSystem (FaultFileSystem F) H where
  root fs := FileSystem.root fs.inner
  createDirectory parent name := ordinary .createDirectory forget (FileSystem.createDirectory parent name)
  openDirectory parent name := ordinary .openDirectory forget (FileSystem.openDirectory parent name)
  createNew directory name := ordinary .createNew forget (FileSystem.createNew directory name)
  openExisting directory name := ordinary .openExisting forget (FileSystem.openExisting directory name)
  metadata file := ordinary .metadata forget (FileSystem.metadata file)
  readAt := readAt
  writeAt := writeAt
  setLen file length := ordinary .setLen forget (FileSystem.setLen file length)
  syncData file := ordinary .syncData forget (FileSystem.syncData file)
  syncAll file := ordinary .syncAll forget (FileSystem.syncAll file)
  renameNoReplace sourceDirectory source destinationDirectory destination :=
    ordinary .renameNoReplace forget (FileSystem.renameNoReplace sourceDirectory source destinationDirectory destination)
  removeFile directory name := ordinary .removeFile forget (FileSystem.removeFile directory name)
  syncDirectory directory := ordinary .syncDirectory forget (FileSystem.syncDirectory directory)
  tryLockExclusive directory name := ordinary .tryLockExclusive FileSystem.release (FileSystem.tryLockExclusive directory name)
  release guard fs := { fs with inner := FileSystem.release guard fs.inner }
  interruptions fs := fs.plan.points.length + FileSystem.interruptions fs.inner

end FaultFileSystem

end Uste.Storage
