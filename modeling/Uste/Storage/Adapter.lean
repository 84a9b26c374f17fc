import Uste.Foundation.Program
import Uste.Foundation.Bytes
import Uste.Foundation.Directory

/-!
The narrow storage boundary: portable entry names, adapter errors, the operations a file system
offers, and the two loops that turn partial reads and writes into whole ones.
-/

namespace Uste.Storage

def maxEntryNameBytes : Nat := 255

def wordLimit : Nat := 2 ^ 64

structure EntryName where
  text : List UInt8
  nonempty : text ≠ []
  bounded : text.length ≤ maxEntryNameBytes
  unreserved : text ≠ ascii "." ∧ text ≠ ascii ".."
  plain : ∀ b ∈ text, b ≠ 47 ∧ b ≠ 0

inductive EntryNameError where
  | empty
  | tooLong
  | reserved
  | separatorOrNul
  deriving DecidableEq, Repr

namespace EntryName

instance : DecidableEq EntryName := fun a b =>
  if h : a.text = b.text then isTrue (by cases a; cases b; cases h; rfl)
  else isFalse (fun same => h (congrArg EntryName.text same))

theorem ext {a b : EntryName} (h : a.text = b.text) : a = b := by
  cases a
  cases b
  cases h
  rfl

def new (text : List UInt8) : Except EntryNameError EntryName :=
  if nonempty : text = [] then .error .empty
  else if bounded : text.length > maxEntryNameBytes then .error .tooLong
  else if unreserved : text = ascii "." ∨ text = ascii ".." then .error .reserved
  else if plain : ∃ b ∈ text, b = 47 ∨ b = 0 then .error .separatorOrNul
  else .ok ⟨text, nonempty, Nat.le_of_not_lt bounded, not_or.mp unreserved, fun b mem =>
    ⟨fun h => plain ⟨b, mem, .inl h⟩, fun h => plain ⟨b, mem, .inr h⟩⟩⟩

/-- Text of letters, digits and hyphens, with its first byte a lower-case letter, is a name. -/
def ofTag (tag : UInt8) (rest : List UInt8) (letter : 97 ≤ tag.toNat)
    (bounded : rest.length < maxEntryNameBytes) (plain : ∀ b ∈ rest, 45 ≤ b.toNat ∧ b ≠ 47) : EntryName where
  text := tag :: rest
  nonempty := by simp
  bounded := bounded
  unreserved := by
    constructor <;>
    · intro same
      have : tag.toNat = 46 := by
        have head := (List.cons.inj same).1
        rw [head]
        decide
      omega
  plain b mem := by
    rcases List.mem_cons.mp mem with rfl | mem
    · constructor <;>
      · rintro rfl
        exact absurd letter (by decide)
    · refine ⟨(plain b mem).2, ?_⟩
      rintro rfl
      exact absurd (plain 0 mem).1 (by decide)

end EntryName

theorem plain_of_all {text : List UInt8} (h : text.all (fun b => b ≠ 47 ∧ b ≠ 0) = true) : ∀ b ∈ text, b ≠ 47 ∧ b ≠ 0 :=
  fun b mem => of_decide_eq_true (List.all_eq_true.mp h b mem)

def lockName : EntryName := ⟨ascii "LOCK", by decide, by decide, by decide, plain_of_all (by decide)⟩

def keyName : EntryName := ⟨ascii "KEY", by decide, by decide, by decide, plain_of_all (by decide)⟩

def manifestName : EntryName := ⟨ascii "MANIFEST", by decide, by decide, by decide, plain_of_all (by decide)⟩

def certificatesName : EntryName := ⟨ascii "CERTIFICATES", by decide, by decide, by decide, plain_of_all (by decide)⟩

inductive AdapterErrorKind where
  | interrupted
  | noSpace
  | quotaExceeded
  | permissionDenied
  | ownershipConflict
  | wrongEntryType
  | crossDevice
  | alreadyExists
  | notFound
  | unexpectedEof
  | zeroProgress
  | resourceLimit
  | unsupported
  | adapterContract
  | injectedCrash
  | staleHandle
  | scriptExhausted
  | io
  deriving DecidableEq, Repr

/-- What one `read_at` reports: the count, and the bytes it put into the buffer. -/
structure ReadReport where
  count : Nat
  data : List UInt8

class FileSystem (F : Type) (H : outParam Handles) where
  root : F → H.Directory
  createDirectory : H.Directory → EntryName → Program F AdapterErrorKind H.Directory
  openDirectory : H.Directory → EntryName → Program F AdapterErrorKind H.Directory
  createNew : H.Directory → EntryName → Program F AdapterErrorKind H.File
  openExisting : H.Directory → EntryName → Program F AdapterErrorKind H.File
  metadata : H.File → Program F AdapterErrorKind Nat
  readAt : H.File → Nat → Nat → Program F AdapterErrorKind ReadReport
  writeAt : H.File → Nat → List UInt8 → Program F AdapterErrorKind Nat
  setLen : H.File → Nat → Program F AdapterErrorKind Unit
  syncData : H.File → Program F AdapterErrorKind Unit
  syncAll : H.File → Program F AdapterErrorKind Unit
  renameNoReplace : H.Directory → EntryName → H.Directory → EntryName → Program F AdapterErrorKind Unit
  removeFile : H.Directory → EntryName → Program F AdapterErrorKind Unit
  syncDirectory : H.Directory → Program F AdapterErrorKind Unit
  tryLockExclusive : H.Directory → EntryName → Program F AdapterErrorKind H.Guard
  /-- Dropping an ownership guard. -/
  release : H.Guard → F → F
  /-- How often an operation can still report an interruption that the loops retry. -/
  interruptions : F → Nat

section Loops

open Program FileSystem

variable {F : Type} {H : Handles} [FileSystem F H]

/- The loops of the source run until they are done or fail. Every round moves forward by at least
one byte or uses up an interruption, so the rounds are bounded by their number: with that many
rounds the branch for none left is not reached. -/

def writeAllAtLoop (file : H.File) (offset : Nat) (input : List UInt8) :
    (rounds written : Nat) → Program F AdapterErrorKind Unit
  | 0, written => if written < input.length then fail .interrupted else pure ()
  | rounds + 1, written =>
    if written < input.length then do
      ensure (offset + written < wordLimit) .resourceLimit
      match ← attempt (writeAt file (offset + written) (input.drop written)) with
      | .ok 0 => fail .zeroProgress
      | .ok count =>
        if count ≤ input.length - written then writeAllAtLoop file offset input rounds (written + count)
        else fail .adapterContract
      | .error kind =>
        if kind = .interrupted then writeAllAtLoop file offset input rounds written else fail kind
    else pure ()

def writeAllAt (file : H.File) (offset : Nat) (input : List UInt8) : Program F AdapterErrorKind Unit := do
  let filesystem ← read
  writeAllAtLoop file offset input (interruptions filesystem + input.length) 0

def readExactAtLoop (file : H.File) (offset length : Nat) :
    (rounds : Nat) → (output : List UInt8) → (done : Nat) → Program F AdapterErrorKind (List UInt8)
  | 0, output, done => if done < length then fail .interrupted else pure output
  | rounds + 1, output, done =>
    if done < length then do
      ensure (offset + done < wordLimit) .resourceLimit
      match ← attempt (readAt file (offset + done) (length - done)) with
      | .ok ⟨0, _⟩ => fail .unexpectedEof
      | .ok ⟨count, data⟩ =>
        if count ≤ length - done then readExactAtLoop file offset length rounds (output ++ data) (done + count)
        else fail .adapterContract
      | .error kind =>
        if kind = .interrupted then readExactAtLoop file offset length rounds output done else fail kind
    else pure output

def readExactAt (file : H.File) (offset length : Nat) : Program F AdapterErrorKind (List UInt8) := do
  let filesystem ← read
  readExactAtLoop file offset length (interruptions filesystem + length) [] 0

end Loops

end Uste.Storage
