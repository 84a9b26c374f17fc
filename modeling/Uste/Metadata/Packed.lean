import Uste.Metadata.Lookup
import Uste.Metadata.Merge

/-!
The coordinator's metadata in packed trees. Four trees hold the retry outcomes, the transactions,
the first owners and the first revisions of a prefix; staging extends them by one transaction, and
admission compares discovered trees with the journal.
-/

namespace Uste.Metadata

open Types Crypto Policy Storage Txn Std

def coordinatorPackedProfile : Octets 32 where
  bytes := [
    0x67, 0x01, 0x6e, 0xfc, 0x82, 0xcd, 0x60, 0xfd, 0x6d, 0x22, 0xf1, 0xaf, 0xd3, 0xe2, 0xb4, 0xf8,
    0x19, 0x8d, 0x59, 0xb2, 0x64, 0x00, 0x6e, 0x7d, 0x1b, 0x2e, 0xba, 0x96, 0x96, 0xad, 0xbf, 0x7d]
  length_bytes := rfl

def maxBatchDeltas : Nat := 512

structure PackedCoordinatorPrefix where
  scope : NamespaceRef
  revision : CommitRevision
  certificateDigest : Octets 32
  retries : Family
  transactions : Family
  owners : Family
  firstRevisions : Family

namespace PackedCoordinatorPrefix

variable (self : PackedCoordinatorPrefix)

def ownerCount : Nat := self.owners.size

def families : List (UInt8 × Family) := [(1, self.retries), (2, self.transactions), (3, self.owners), (4, self.firstRevisions)]

def retry (principal : PrincipalDigest) (key : IdempotencyKey) : Except TransactionError (Option TransactionOutcome) :=
  let encoded := (RetryKey.mk principal key).bytes
  match self.retries[encoded]? with
  | none => pure none
  | some value => do
    let (_, _, outcome) ← (decodeOutcome encoded value self.revision).mapError .storage
    pure (some outcome)

def transaction (id : TransactionId) : Except TransactionError (Option (PrincipalDigest × TransactionOutcome)) :=
  match self.transactions[id.bytes.bytes]? with
  | none => pure none
  | some value => (do
    let (principal, outcome) ← decodeTransaction value self.revision
    require (outcome.transactionId = id) StorageError.integrityFailure
    pure (some (principal, outcome))).mapError .storage

def owner (id : BlobId) : Except TransactionError (Option (BlobReference × PrincipalDigest)) :=
  match self.owners[id.bytes]? with
  | none => pure none
  | some value => do
    let owner ← (decodeOwner self.scope id.bytes value).mapError .storage
    pure (some owner)

def firstRevision (id : BlobId) : Except TransactionError (Option CommitRevision) :=
  match self.firstRevisions[id.bytes]? with
  | none => pure none
  | some value => do
    let revision ← (decodeFirstReference id.bytes value self.revision).mapError .storage
    pure (some revision)

end PackedCoordinatorPrefix

/-! ### Admission -/

/-- A packed root as it was read back; each family number is there once. -/
structure CertifiedPackedRoot where
  scope : NamespaceRef
  profile : Octets 32
  revision : CommitRevision
  certificateDigest : Octets 32
  families : List (UInt8 × Family)

def CertifiedPackedRoot.tree (root : CertifiedPackedRoot) (index : Nat) : Family := (root.families[index]?.map (·.2)).getD ∅

def CertifiedPackedRoot.open (root : CertifiedPackedRoot) (scope : NamespaceRef) : PackedCoordinatorPrefix :=
  ⟨scope, root.revision, root.certificateDigest, root.tree 0, root.tree 1, root.tree 2, root.tree 3⟩

structure PackedCoordinatorAdmissionLimits where
  maximumGroups : Nat
  maximumReferences : Nat
  maximumOwners : Nat

def AuthenticatedIndexRecovery.eachTransaction [Primitives] {β : Type} (recovery : AuthenticatedIndexRecovery)
    (first last : CommitRevision) (maximumGroups : Nat)
    (visitor : β → RecoveredTransaction → Except TransactionError β) (init : β) : Except TransactionError β := do
  let groups ← (recovery.range first last maximumGroups).mapError mapOpenError
  groups.foldlM (fun state group => do visitor state (← (captureGroup recovery.scope group).mapError mapOpenError)) init

section

variable (self : PackedCoordinatorPrefix) (limits : PackedCoordinatorAdmissionLimits)

def matchPackedReference (t : RecoveredTransaction) (firstOwners : Nat) (reference : BlobReference) :
    Except TransactionError Nat := do
  let owner ← self.owner reference.id
  let witness ← self.firstRevision reference.id
  let (actual, principal) ← orError .integrityFailure owner
  let witness ← orError .integrityFailure witness
  require (actual = reference ∧ witness.value ≤ t.revision.value) .integrityFailure
  if witness = t.revision then
    require (principal = t.principal) .integrityFailure
    pure (firstOwners + 1)
  else pure firstOwners

def matchPackedTransaction (firstOwners : Nat) (t : RecoveredTransaction) : Except TransactionError Nat := do
  require (t.references.length ≤ limits.maximumReferences) .resourceLimit
  let retry ← self.retry t.principal t.idempotencyKey
  require (retry = some t.outcome) .integrityFailure
  let actual ← self.transaction t.outcome.transactionId
  require (actual = some (t.principal, t.outcome)) .integrityFailure
  t.references.foldlM (matchPackedReference self t) firstOwners

end

def admitPackedCoordinatorPrefix [Primitives] (recovery : AuthenticatedIndexRecovery) (root : CertifiedPackedRoot)
    (limits : PackedCoordinatorAdmissionLimits) : Except TransactionError PackedCoordinatorPrefix := do
  require (root.scope = recovery.scope ∧ root.profile = coordinatorPackedProfile ∧
    root.families.map (·.1) = [1, 2, 3, 4] ∧ (root.tree 0).size = root.revision.value ∧
    (root.tree 1).size = root.revision.value ∧ (root.tree 2).size = (root.tree 3).size) .integrityFailure
  require (root.revision.value ≤ limits.maximumGroups ∧ root.revision.value ≤ maxOutcomesPerNamespace ∧
    limits.maximumReferences ≤ maxBatchDeltas ∧ limits.maximumOwners ≤ maxCommittedBlobsPerJournal ∧
    (root.tree 2).size ≤ limits.maximumOwners) .resourceLimit
  require (recovery.certificateAnchor root.revision = some root.certificateDigest) (.storage .integrityFailure)
  let self := root.open recovery.scope
  let firstOwners ← recovery.eachTransaction .first root.revision limits.maximumGroups (matchPackedTransaction self limits) 0
  require (firstOwners = self.ownerCount) .integrityFailure
  pure self

/-! ### Staging -/

structure PackedCoordinatorLimits where
  maximumReferences : Nat
  maximumOwners : Nat
  maximumDeltas : Nat

def stageTree (limits : PackedCoordinatorLimits) (base : Family) (deltas : List IndexDelta) : Except TransactionError Family := do
  require (limits.maximumDeltas ≤ maxBatchDeltas ∧ deltas.length ≤ limits.maximumDeltas) (.storage .resourceLimit)
  let merged ← (mergeRun base deltas).mapError .storage
  pure merged.contents

/-- The first transaction has no base to look in. -/
def existingOwner (base : Option PackedCoordinatorPrefix) (id : BlobId) :
    Except TransactionError (Option (BlobReference × PrincipalDigest)) :=
  match base with
  | some base => base.owner id
  | none => pure none

def packedNewOwner (limits : PackedCoordinatorLimits) (base : Option PackedCoordinatorPrefix) (found : List BlobReference)
    (reference : BlobReference) : Except TransactionError (List BlobReference) := do
  let existing ← existingOwner base reference.id
  recordNewOwner existing ((base.map (·.ownerCount)).getD 0) limits.maximumOwners found reference

def stagePackedCoordinatorPrefix (scope : NamespaceRef) (base : Option PackedCoordinatorPrefix) (t : RecoveredTransaction)
    (limits : PackedCoordinatorLimits) : Except TransactionError PackedCoordinatorPrefix := do
  require (t.scope = scope ∧ (base.isNone = true → t.revision = .first) ∧
    ∀ b ∈ base, b.scope = scope ∧ b.revision.value + 1 = t.revision.value) .integrityFailure
  require (limits.maximumReferences ≤ maxBatchDeltas ∧ t.references.length ≤ limits.maximumReferences ∧
    limits.maximumOwners ≤ maxCommittedBlobsPerJournal ∧ t.revision.value ≤ maxOutcomesPerNamespace ∧
    ∀ b ∈ base, b.ownerCount ≤ limits.maximumOwners) .resourceLimit
  let newOwners ← t.references.foldlM (packedNewOwner limits base) []
  let retries ← stageTree limits ((base.map (·.retries)).getD ∅)
    [.insertion t.retryKey.bytes (outcomeValue t.outcome)]
  let transactions ← stageTree limits ((base.map (·.transactions)).getD ∅)
    [.insertion t.outcome.transactionId.bytes.bytes (transactionValue t.principal t.outcome)]
  let owners ← stageTree limits ((base.map (·.owners)).getD ∅)
    (newOwners.map fun r => .insertion r.id.bytes (ownerValue r t.principal))
  let firstRevisions ← stageTree limits ((base.map (·.firstRevisions)).getD ∅)
    (newOwners.map fun r => .insertion r.id.bytes (bigEndian 8 t.revision.value))
  let self : PackedCoordinatorPrefix := ⟨t.scope, t.revision, t.certificateDigest, retries, transactions, owners, firstRevisions⟩
  require (self.retries.size = t.revision.value ∧ self.transactions.size = t.revision.value ∧
    self.firstRevisions.size = self.ownerCount) .integrityFailure
  pure self

end Uste.Metadata
