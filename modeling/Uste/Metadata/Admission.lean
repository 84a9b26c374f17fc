import Uste.Metadata.Prefix

/-!
Admission of the coordinator's metadata roots. A root names a certificate of the journal and holds
its families as runs of arbitrary contents; admission reads them next to the transactions of the
journal and refuses what the journal does not determine.
-/

namespace Uste.Metadata

open Types Crypto Policy Storage Txn Std

def familyMetadata : UInt8 := 1
def familyOutcome : UInt8 := 2
def familyBlobOwner : UInt8 := 3

def familyOnly : UInt8 := 1

def coordinatorMetadataProfile : Octets 32 where
  bytes := [
    0x2f, 0x97, 0xf5, 0xf5, 0x23, 0x87, 0xec, 0x06, 0x46, 0x07, 0x70, 0x64, 0xc3, 0x19, 0x24, 0xab,
    0x17, 0xc1, 0xdd, 0x99, 0xe4, 0x69, 0x57, 0x3f, 0xec, 0x8b, 0xb1, 0x55, 0xe8, 0x59, 0x61, 0x36]
  length_bytes := rfl

def coordinatorTransactionProfile : Octets 32 where
  bytes := [
    0xd7, 0x8e, 0x78, 0xaf, 0x45, 0xef, 0xd9, 0xc5, 0xa3, 0xa0, 0x61, 0x23, 0x95, 0x47, 0xcf, 0xfd,
    0x8b, 0xfb, 0xe9, 0xc6, 0xc1, 0x84, 0x62, 0x88, 0x7a, 0x51, 0x3b, 0xee, 0x63, 0x0d, 0x79, 0xce]
  length_bytes := rfl

def coordinatorFirstReferenceProfile : Octets 32 where
  bytes := [
    0x9a, 0x09, 0xb5, 0xa3, 0x0b, 0x98, 0x47, 0x2a, 0x5f, 0x95, 0xf1, 0xf2, 0x33, 0xf8, 0x46, 0xb6,
    0xdc, 0x97, 0x59, 0xea, 0x2a, 0x11, 0xec, 0xa0, 0xbf, 0xd3, 0xfb, 0x79, 0x15, 0x15, 0xf2, 0x1d]
  length_bytes := rfl

structure IndexRootAnchor where
  scope : NamespaceRef
  revision : CommitRevision
  certificateDigest : Octets 32
  reducerProfile : Octets 32
  logicalStateDigest : Octets 32
  deriving DecidableEq

/-- A root as it was read back: at most one run of each family, and no run without entries. -/
structure RecoveredIndexRoot where
  anchor : IndexRootAnchor
  generation : Nat
  indexProfile : Octets 32
  runs : ExtTreeMap UInt8 Family
  filled : ∀ (family : UInt8) (contents : Family), runs[family]? = some contents → contents.size ≠ 0

def RecoveredIndexRoot.soleRun (root : RecoveredIndexRoot) : Option Family :=
  match root.runs.toList with
  | [run] => if run.1 = familyOnly then some run.2 else none
  | _ => none

structure CoordinatorTransactionIndex where
  root : RecoveredIndexRoot

structure BlobUsageIndex where
  root : RecoveredIndexRoot
  owners : Nat
  bytes : Nat
  principals : Nat

structure CoordinatorDiskBase where
  metadata : RecoveredIndexRoot
  transactions : CoordinatorTransactionIndex
  firstReferences : Option RecoveredIndexRoot
  usage : Option BlobUsageIndex

structure CoordinatorTransactionAdmissionLimits where
  maximumGroups : Nat

structure CoordinatorMetadataLoadLimits where
  maximumOutcomes : Nat
  maximumBlobOwners : Nat
  maximumTotalEntries : Nat
  maximumLogicalBytes : Nat

structure CoordinatorDiskAdmissionLimits where
  metadata : CoordinatorMetadataLoadLimits
  maximumTotalJournalGroups : Nat

/-- A journal that was opened and authenticated, as the groups that a range of it reads. -/
structure AuthenticatedIndexRecovery where
  scope : NamespaceRef
  groups : List RecoveredGroup

namespace AuthenticatedIndexRecovery

variable (recovery : AuthenticatedIndexRecovery)

def frontier : Option CommitRevision := recovery.groups.getLast?.map (·.revision)

def certificateAnchor (revision : CommitRevision) : Option (Octets 32) :=
  (recovery.groups.find? fun group => group.revision = revision).map (·.certificateDigest)

/-! ### Reading the journal -/

def range (first last : CommitRevision) (maximumGroups : Nat) : Except StorageError (List RecoveredGroup) := do
  require (first.value ≤ last.value ∧ recovery.frontier.any (fun frontier => last.value ≤ frontier.value) = true)
    .integrityFailure
  require (last.value - first.value + 1 ≤ maximumGroups) .resourceLimit
  pure (recovery.groups.filter fun group => first.value ≤ group.revision.value ∧ group.revision.value ≤ last.value)

section

variable [Primitives] {β : Type}

def visitTransactions (first last : CommitRevision) (maximumGroups : Nat)
    (visitor : β → RecoveredTransaction → Except StorageError β) (init : β) : Except TransactionError β :=
  (do
    let groups ← recovery.range first last maximumGroups
    groups.foldlM (fun state group => do visitor state (← captureGroup recovery.scope group)) init).mapError mapOpenError

def visitTransactionsReverse (first last : CommitRevision) (maximumGroups : Nat)
    (visitor : β → RecoveredTransaction → Except StorageError β) (init : β) : Except TransactionError β :=
  (do
    let groups ← recovery.range first last maximumGroups
    groups.reverse.foldlM (fun state group => do visitor state (← captureGroup recovery.scope group)) init).mapError
      mapOpenError

end

end AuthenticatedIndexRecovery

/-! ### Reading a root -/

structure CertificateAnchors where
  database : DatabaseId
  anchor : CommitRevision → Option (Octets 32)

namespace CertificateAnchors

variable (anchors : CertificateAnchors)

def Certified (root : RecoveredIndexRoot) : Prop :=
  root.anchor.scope.database = anchors.database ∧
    anchors.anchor root.anchor.revision = some root.anchor.certificateDigest

instance (root : RecoveredIndexRoot) : Decidable (anchors.Certified root) := inferInstanceAs (Decidable (_ ∧ _))

def indexRun (root : RecoveredIndexRoot) (family : UInt8) : Except StorageError Family := do
  require (anchors.Certified root) .invalidState
  orError .invalidState root.runs[family]?

def indexGet (root : RecoveredIndexRoot) (family : UInt8) (key : List UInt8) : Except StorageError (Option (List UInt8)) := do
  let contents ← anchors.indexRun root family
  pure contents[key]?

section

variable {β : Type}

def visitIndexRun (root : RecoveredIndexRoot) (family : UInt8) (visitor : β → List UInt8 → List UInt8 → Except StorageError β)
    (init : β) : Except TransactionError β :=
  (do
    let contents ← anchors.indexRun root family
    contents.toList.foldlM (fun state (entry : List UInt8 × List UInt8) => visitor state entry.1 entry.2) init).mapError
      .storage

/-- The run has to have as many entries as its head says. -/
def visitFamily (root : RecoveredIndexRoot) (family : UInt8) (expectedEntries : Nat)
    (visitor : β → List UInt8 → List UInt8 → Except StorageError β) (init : β) : Except TransactionError β := do
  let contents ← (anchors.indexRun root family).mapError .storage
  require (contents.size ≤ expectedEntries) (.storage .resourceLimit)
  let result ← anchors.visitIndexRun root family visitor init
  require (contents.size = expectedEntries) .integrityFailure
  pure result

end

end CertificateAnchors

def AuthenticatedIndexRecovery.anchors (recovery : AuthenticatedIndexRecovery) : CertificateAnchors :=
  ⟨recovery.scope.database, recovery.certificateAnchor⟩

/-! ### The transaction index -/

def checkTransactionEntry (root : RecoveredIndexRoot) (key value : List UInt8) : Except StorageError Unit := do
  require (key.length = 16) .integrityFailure
  let (_, outcome) ← decodeTransaction value root.anchor.revision
  require (outcome.transactionId.bytes.bytes = key) .integrityFailure

def checkIndexedTransaction (recovery : AuthenticatedIndexRecovery) (root : RecoveredIndexRoot) (t : RecoveredTransaction) :
    Except StorageError Unit := do
  require (t.revision = root.anchor.revision → t.certificateDigest = root.anchor.certificateDigest) .integrityFailure
  let expected := encodeOutcome t.principal t.idempotencyKey t.outcome
  let value ← orError .integrityFailure (← recovery.anchors.indexGet root familyOnly t.outcome.transactionId.bytes.bytes)
  require (value.length = transactionValueBytes ∧ slice value 0 32 = t.principal.bytes.bytes ∧ value.drop 32 = expected.value)
    .integrityFailure

/-- Every entry is well formed, and every transaction has the entry it should; the count leaves no other. -/
def admitCoordinatorTransactionIndexForRecovery [Primitives] (recovery : AuthenticatedIndexRecovery) (root : RecoveredIndexRoot)
    (limits : CoordinatorTransactionAdmissionLimits) : Except TransactionError CoordinatorTransactionIndex := do
  require (root.anchor.scope = recovery.scope ∧ root.indexProfile = coordinatorTransactionProfile ∧
    root.soleRun.any (fun contents => contents.size = root.anchor.revision.value) = true) .integrityFailure
  require (root.anchor.revision.value ≤ limits.maximumGroups) .resourceLimit
  recovery.anchors.visitIndexRun root familyOnly (fun _ key value => checkTransactionEntry root key value) ()
  recovery.visitTransactionsReverse .first root.anchor.revision limits.maximumGroups
    (fun _ t => checkIndexedTransaction recovery root t) ()
  pure ⟨root⟩

/-! ### Retry outcomes and first owners -/

/-- How many entries a family has to have; no other family has any. -/
def MetadataHead.entries (head : MetadataHead) (family : UInt8) : Nat :=
  if family = familyMetadata then 1 else if family = familyOutcome then head.outcomes
  else if family = familyBlobOwner then head.owners else 0

/-- Sums that exceed a machine word exceed every limit. -/
def validateShape (candidate : RecoveredIndexRoot) (head : MetadataHead) (limits : CoordinatorMetadataLoadLimits) :
    Except TransactionError Unit := do
  require (head.outcomes ≤ limits.maximumOutcomes ∧ head.owners ≤ limits.maximumBlobOwners ∧
    1 + head.outcomes + head.owners ≤ limits.maximumTotalEntries ∧
    metadataLogicalBytes + head.outcomes * outcomeLogicalBytes + head.owners * ownerLogicalBytes ≤ limits.maximumLogicalBytes)
    .resourceLimit
  require (head.outcomeLogicalBytes = head.outcomes * outcomeLogicalBytes ∧
    head.ownerLogicalBytes = head.owners * ownerLogicalBytes) .integrityFailure
  candidate.runs.toList.forM fun run =>
    require (head.entries run.1 ≠ 0 ∧ run.2.size = head.entries run.1) .integrityFailure
  require (∀ family ∈ [familyMetadata, familyOutcome, familyBlobOwner], family ∈ candidate.runs ↔ head.entries family ≠ 0)
    .integrityFailure

def findOwner (reference : BlobReference) (principal : PrincipalDigest) (found : Bool) (t : RecoveredTransaction) :
    Except StorageError Bool :=
  if found then pure true
  else
    match t.references.find? fun actual => actual.id = reference.id with
    | none => pure false
    | some actual => do
      require (actual = reference ∧ t.principal = principal) .integrityFailure
      pure true

section

variable (recovery : AuthenticatedIndexRecovery) (candidate : RecoveredIndexRoot) (firstReferences : Option RecoveredIndexRoot)

def readHead : Except TransactionError MetadataHead := do
  let head ← recovery.anchors.visitFamily candidate familyMetadata 1 (fun (head : Option MetadataHead) key value => do
    require (key = metadataKey ∧ head = none) .integrityFailure
    pure (some (← parseMetadata value candidate.anchor.revision))) none
  orError .integrityFailure head

def checkEvidence (head : MetadataHead) : Except TransactionError Unit :=
  match firstReferences with
  | none => pure ()
  | some root => do
    require (root.anchor = candidate.anchor ∧ root.indexProfile = coordinatorFirstReferenceProfile ∧
      root.soleRun.any (fun contents => contents.size = head.owners) = true ∧ head.owners ≠ 0) .integrityFailure
    recovery.anchors.visitIndexRun root familyOnly (fun _ key value => do
      let _ ← decodeFirstReference key value candidate.anchor.revision) ()

/-- With evidence an owner needs a revision; without, the journal is searched for its first reference. -/
def checkOwner [Primitives] (entry : List UInt8 × List UInt8) : Except TransactionError Unit := do
  let (reference, principal) ← (decodeOwner recovery.scope entry.1 entry.2).mapError .storage
  match firstReferences with
  | some root =>
    let value ← orError .integrityFailure (← (recovery.anchors.indexGet root familyOnly entry.1).mapError .storage)
    let _ ← (decodeFirstReference entry.1 value candidate.anchor.revision).mapError .storage
  | none =>
    let found ← recovery.visitTransactions .first candidate.anchor.revision candidate.anchor.revision.value
      (findOwner reference principal) false
    require (found = true) .integrityFailure

def visitOwners [Primitives] (head : MetadataHead) : Except TransactionError Unit := do
  if head.owners ≠ 0 then
    let contents ← (recovery.anchors.indexRun candidate familyBlobOwner).mapError .storage
    require (contents.size ≤ head.owners) (.storage .resourceLimit)
    contents.toList.forM (checkOwner recovery candidate firstReferences)
    require (contents.size = head.owners) .integrityFailure

/-- The owner of a referenced blob is known, and with evidence so is its first revision, which is counted where this
transaction has it. -/
def matchReference (t : RecoveredTransaction) (count : Nat) (reference : BlobReference) : Except StorageError Nat := do
  let actual ← orError .integrityFailure (← recovery.anchors.indexGet candidate familyBlobOwner reference.id.bytes)
  let (stored, principal) ← decodeOwner recovery.scope reference.id.bytes actual
  require (stored = reference) .integrityFailure
  match firstReferences with
  | none => pure count
  | some root =>
    let value ← orError .integrityFailure (← recovery.anchors.indexGet root familyOnly reference.id.bytes)
    let first ← decodeFirstReference reference.id.bytes value candidate.anchor.revision
    require (first.value ≤ t.revision.value) .integrityFailure
    if first = t.revision then
      require (principal = t.principal) .integrityFailure
      pure (count + 1)
    else pure count

def matchTransaction (count : Nat) (t : RecoveredTransaction) : Except StorageError Nat := do
  let expected := encodeOutcome t.principal t.idempotencyKey t.outcome
  let actual ← recovery.anchors.indexGet candidate familyOutcome expected.key
  require (actual = some expected.value) .integrityFailure
  t.references.foldlM (matchReference recovery candidate firstReferences t) count

def admitBase [Primitives] (transactions : CoordinatorTransactionIndex) (limits : CoordinatorDiskAdmissionLimits) :
    Except TransactionError CoordinatorDiskBase := do
  let revision := candidate.anchor.revision
  require (candidate.anchor.scope = recovery.scope ∧ candidate.indexProfile = coordinatorMetadataProfile ∧
    candidate.anchor = transactions.root.anchor) .integrityFailure
  let head ← readHead recovery candidate
  validateShape candidate head limits.metadata
  require (head.outcomes = revision.value) .integrityFailure
  require (((if firstReferences.isSome then 0 else head.owners) + 1) * revision.value ≤ limits.maximumTotalJournalGroups)
    .resourceLimit
  checkEvidence recovery candidate firstReferences head
  recovery.anchors.visitFamily candidate familyOutcome head.outcomes (fun _ key value => do
    let _ ← decodeOutcome key value revision) ()
  visitOwners recovery candidate firstReferences head
  let firstMatches ← recovery.visitTransactionsReverse .first revision revision.value
    (matchTransaction recovery candidate firstReferences) 0
  require (firstReferences.isSome = true → firstMatches = head.owners) .integrityFailure
  pure ⟨candidate, transactions, firstReferences, none⟩

end

def admitCoordinatorDiskBase [Primitives] (recovery : AuthenticatedIndexRecovery) (candidate : RecoveredIndexRoot)
    (transactions : CoordinatorTransactionIndex) (limits : CoordinatorDiskAdmissionLimits) :
    Except TransactionError CoordinatorDiskBase :=
  admitBase recovery candidate none transactions limits

def admitCoordinatorDiskBaseWithFirstReferences [Primitives] (recovery : AuthenticatedIndexRecovery)
    (candidate : RecoveredIndexRoot) (transactions : CoordinatorTransactionIndex) (firstReferences : RecoveredIndexRoot)
    (limits : CoordinatorDiskAdmissionLimits) : Except TransactionError CoordinatorDiskBase :=
  admitBase recovery candidate (some firstReferences) transactions limits

end Uste.Metadata
