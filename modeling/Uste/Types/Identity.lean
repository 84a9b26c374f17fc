import Uste.Foundation.Bytes

/-! Opaque 128-bit identities, references with their scope, and committed revisions. -/

namespace Uste.Types

open Std

inductive IdentityKind where
  | database
  | namespace
  | record
  | transaction
  | sourceEvent
  | idempotency
  deriving DecidableEq, Repr

/-- The identity types of the source differ in their tag only. -/
structure Identity (kind : IdentityKind) where
  bytes : Octets 16
  deriving DecidableEq

abbrev DatabaseId := Identity .database
abbrev NamespaceId := Identity .namespace
abbrev RecordId := Identity .record
abbrev TransactionId := Identity .transaction
abbrev SourceEventId := Identity .sourceEvent
abbrev IdempotencyKey := Identity .idempotency

namespace Identity

variable {kind : IdentityKind}

theorem ext {a b : Identity kind} (h : a.bytes = b.bytes) : a = b := by
  cases a
  cases b
  cases h
  rfl

instance : Inhabited (Identity kind) := ⟨⟨Octets.zero 16⟩⟩

instance : Ord (Identity kind) := ⟨compareOn bytes⟩

instance : TransOrd (Identity kind) := inferInstanceAs (TransCmp (compareOn bytes))

instance : LawfulEqOrd (Identity kind) := lawfulEqCmp_compareOn fun _ _ => ext

end Identity

structure NamespaceRef where
  database : DatabaseId
  namespaceId : NamespaceId
  deriving DecidableEq

namespace NamespaceRef

def key (r : NamespaceRef) : List UInt8 := r.database.bytes.bytes ++ r.namespaceId.bytes.bytes

theorem key_injective (a b : NamespaceRef) (h : a.key = b.key) : a = b := by
  obtain ⟨hd, hn⟩ := List.append_inj h (by simp)
  have database := Identity.ext (Octets.ext hd)
  have namespaceId := Identity.ext (Octets.ext hn)
  cases a
  cases b
  cases database
  cases namespaceId
  rfl

@[simp] theorem length_key (r : NamespaceRef) : r.key.length = 32 := by simp [key]

instance : Ord NamespaceRef := ⟨compareOn key⟩

instance : TransOrd NamespaceRef := inferInstanceAs (TransCmp (compareOn key))

instance : LawfulEqOrd NamespaceRef := lawfulEqCmp_compareOn key_injective

end NamespaceRef

/-- The scoped references of the source differ in their identity only. -/
structure ScopedRef (kind : IdentityKind) where
  scope : NamespaceRef
  id : Identity kind
  deriving DecidableEq

abbrev RecordRef := ScopedRef .record
abbrev SourceEventRef := ScopedRef .sourceEvent

namespace ScopedRef

variable {kind : IdentityKind}

def key (r : ScopedRef kind) : List UInt8 := r.scope.key ++ r.id.bytes.bytes

theorem key_injective (a b : ScopedRef kind) (h : a.key = b.key) : a = b := by
  obtain ⟨hs, hi⟩ := List.append_inj h (by simp)
  have scope := NamespaceRef.key_injective _ _ hs
  have id := Identity.ext (Octets.ext hi)
  cases a
  cases b
  cases scope
  cases id
  rfl

instance : Ord (ScopedRef kind) := ⟨compareOn key⟩

instance : TransOrd (ScopedRef kind) := inferInstanceAs (TransCmp (compareOn key))

instance : LawfulEqOrd (ScopedRef kind) := lawfulEqCmp_compareOn key_injective

end ScopedRef

structure CommitRevision where
  value : Nat
  nonzero : 0 < value
  fits : value < 2 ^ 64
  deriving DecidableEq

inductive CommitRevisionError where
  | zero
  | exhausted
  deriving DecidableEq, Repr

namespace CommitRevision

theorem ext {a b : CommitRevision} (h : a.value = b.value) : a = b := by
  cases a
  cases b
  cases h
  rfl

theorem one_fits : 1 < 2 ^ 64 := by decide

def first : CommitRevision := ⟨1, Nat.one_pos, one_fits⟩

instance : Inhabited CommitRevision := ⟨first⟩

/-- The argument of the source is a machine word, so that only zero is refused. -/
def new (value : Nat) : Except CommitRevisionError CommitRevision :=
  if valid : 0 < value ∧ value < 2 ^ 64 then .ok ⟨value, valid.1, valid.2⟩ else .error .zero

@[simp] theorem new_eq_ok {value : Nat} {revision : CommitRevision} : new value = .ok revision ↔ value = revision.value := by
  unfold new
  constructor
  · intro made
    split at made <;> cases made
    rfl
  · rintro rfl
    exact dif_pos ⟨revision.nonzero, revision.fits⟩

theorem new_value (revision : CommitRevision) : new revision.value = .ok revision := new_eq_ok.mpr rfl

def checkedNext (revision : CommitRevision) : Except CommitRevisionError CommitRevision :=
  if fits : revision.value + 1 < 2 ^ 64 then .ok ⟨revision.value + 1, Nat.succ_pos _, fits⟩
  else .error .exhausted

instance : Ord CommitRevision := ⟨compareOn value⟩

instance : TransOrd CommitRevision := inferInstanceAs (TransCmp (compareOn value))

instance : LawfulEqOrd CommitRevision := lawfulEqCmp_compareOn fun _ _ => ext

theorem checkedNext_ok {a b : CommitRevision} (h : a.checkedNext = .ok b) : b.value = a.value + 1 := by
  unfold checkedNext at h
  split at h
  · cases h
    rfl
  · cases h

end CommitRevision

end Uste.Types
