import Uste.Txn.Group

/-!
The commit coordinator of one namespace: it admits a request, prepares it on the reducer, appends
one group to the journal and only then publishes. Opening replays the groups of the journal.
-/

namespace Uste.Txn

open Types Crypto Policy Storage Program FileSystem Std
open Time (UtcInstant)

inductive ApplyError where
  | conflict
  | sourceChanged
  | invalidRequest
  | resourceLimit
  | unsupportedPredicate
  deriving DecidableEq, Repr

/-- The contract of a reducer. Its functions are pure, so that preparing again gives the same. -/
class TransactionState (S : Type) where
  Prepared : Type
  Snapshot : Type
  prepare : S → List UInt8 → Option BlobInventory → CommitRevision → Except ApplyError Prepared
  resultDigest : Prepared → Octets 32
  publish : S → Prepared → S
  snapshot : S → Snapshot

abbrev Outcomes := ExtTreeMap RetryKey TransactionOutcome
abbrev Transactions := ExtTreeMap TransactionId (PrincipalDigest × TransactionOutcome)
abbrev BlobOwners := ExtTreeMap BlobKey (BlobReference × PrincipalDigest)

/-- What the coordinator knows beyond its journal. -/
structure Memory (S : Type) where
  state : S
  outcomes : Outcomes
  transactions : Transactions
  committedBlobOwners : BlobOwners

def Memory.initial {S : Type} (state : S) : Memory S := ⟨state, ∅, ∅, ∅⟩

structure CommitCoordinator (S : Type) (H : Handles) (W E I : Type) extends Memory S where
  scope : NamespaceRef
  retention : RetentionDays
  journal : JournalStore H W E I
  recovered : Bool
  uncertain : Bool

structure FreshCommitAdmission where
  acceptedAt : UtcInstant
  expiresAt : UtcInstant
  revision : CommitRevision
  requestDigest : Octets 32

inductive CommitAdmission where
  | retry (outcome : TransactionOutcome)
  | fresh (admission : FreshCommitAdmission)

def mapApplyError : ApplyError → TransactionError
  | .conflict => .conflict
  | .sourceChanged => .sourceChanged
  | .invalidRequest => .invalidRequest
  | .resourceLimit => .resourceLimit
  | .unsupportedPredicate => .unsupportedPredicate

def mapCommitError : StorageError → TransactionError
  | .resourceLimit => .resourceLimit
  | .revisionExhausted => .revisionExhausted
  | _ => .outcomeUnknown

def mapOpenError : StorageError → TransactionError
  | .integrityFailure => .integrityFailure
  | other => .storage other

/-- The first principal to commit a blob stays its owner. -/
def recordOwners (principal : PrincipalDigest) (owners : BlobOwners) (references : List BlobReference) : BlobOwners :=
  references.foldl (fun owners reference => owners.insertIfNew reference.blobKey (reference, principal)) owners

def nextRevision : Option CommitRevision → Except TransactionError CommitRevision
  | some revision => revision.checkedNext.mapError fun _ => .revisionExhausted
  | none => .ok .first

section

variable {S : Type} [TransactionState S] [Primitives]

/-! ### Replay -/

def decodeRecoveredGroup (scope : NamespaceRef) (group : RecoveredGroup) : Except StorageError DecodedGroup := do
  require (sha256 group.encodedGroup = group.logicalEventDigest) .integrityFailure
  (decodeGroup scope group.encodedGroup group.revision group.blobInventoryDigest group.blobInventory).mapError
    fun error => if error = .resourceLimit then .resourceLimit else .integrityFailure

omit [TransactionState S] [Primitives] in
def recordDecodedGroupMetadata (memory : Memory S) (decoded : DecodedGroup) : Except StorageError (Memory S) := do
  require (memory.outcomes.size < maxOutcomesPerNamespace) .resourceLimit
  require (decoded.retryKey ∉ memory.outcomes ∧ decoded.outcome.transactionId ∉ memory.transactions) .integrityFailure
  pure { memory with
    outcomes := memory.outcomes.insert decoded.retryKey decoded.outcome
    transactions := memory.transactions.insert decoded.outcome.transactionId (decoded.retryKey.principal, decoded.outcome)
    committedBlobOwners := recordOwners decoded.retryKey.principal memory.committedBlobOwners
      (referencesOf decoded.blobInventory) }

def replayGroup (scope : NamespaceRef) (memory : Memory S) (group : RecoveredGroup) : Except StorageError (Memory S) := do
  let decoded ← decodeRecoveredGroup scope group
  let prepared ← (TransactionState.prepare memory.state decoded.request decoded.blobInventory group.revision).mapError
    fun _ => .integrityFailure
  require (TransactionState.resultDigest prepared = decoded.outcome.resultDigest) .integrityFailure
  let memory ← recordDecodedGroupMetadata memory decoded
  pure { memory with state := TransactionState.publish memory.state prepared }

/-- What the groups of a journal make of an initial state. -/
def replay (scope : NamespaceRef) (initial : S) (groups : List RecoveredGroup) : Except StorageError (Memory S) :=
  groups.foldlM (replayGroup scope) (Memory.initial initial)

end

namespace CommitCoordinator

variable {S F W E I : Type} {H : Handles} [TransactionState S] [Primitives]

/-! ### Commit -/

/-- `observation` is what the clock shows, and `cancelled` what the caller answers when it is asked. -/
def admitCommit (c : CommitCoordinator S H W E I) (request : TransactionRequest) (observation : Option UtcInstant)
    (cancelled : Bool) : Except TransactionError CommitAdmission := do
  require (c.uncertain = false) .outcomeUnknown
  require (request.canonicalRequest ≠ [] ∧ request.canonicalRequest.length ≤ maxRequestBytes ∧
    ∀ inventory ∈ request.blobInventory, inventory.references ≠ []) .invalidRequest
  require (∀ inventory ∈ request.blobInventory, inventory.scope = c.scope) .invalidRequest
  let requestDigest := transactionRequestDigest request.canonicalRequest (digestOf request.blobInventory)
  let acceptedAt ← orError .retryableUnavailable observation
  match c.outcomes[request.retryKey]? with
  | some previous =>
    require (before acceptedAt previous.expiresAt) .idempotencyExpired
    require (previous.requestDigest = requestDigest ∧ previous.transactionId = request.transactionId) .conflict
    pure (.retry previous)
  | none =>
    require (request.transactionId ∉ c.transactions) .conflict
    require (c.outcomes.size < maxOutcomesPerNamespace) .resourceLimit
    require (cancelled = false) .cancelled
    let revision ← nextRevision c.journal.frontier
    let expiresAt ← expiration acceptedAt c.retention
    pure (.fresh ⟨acceptedAt, expiresAt, revision, requestDigest⟩)

/-- A change that is ready for the journal. -/
structure PreparedCommit (S : Type) [TransactionState S] where
  prepared : TransactionState.Prepared S
  outcome : TransactionOutcome
  group : List UInt8

/-- Everything a commit does before it writes; the caller is asked a second time after the preparation. -/
def prepareCommit (c : CommitCoordinator S H W E I) (request : TransactionRequest) (observation : Option UtcInstant)
    (cancelled cancelledLater : Bool) : Except TransactionError (TransactionOutcome ⊕ PreparedCommit S) := do
  match ← c.admitCommit request observation cancelled with
  | .retry outcome => pure (.inl outcome)
  | .fresh admission =>
    let prepared ← (TransactionState.prepare c.state request.canonicalRequest request.blobInventory
      admission.revision).mapError mapApplyError
    require (cancelledLater = false) .cancelled
    let outcome : TransactionOutcome := ⟨request.transactionId, admission.revision, admission.requestDigest,
      TransactionState.resultDigest prepared, admission.expiresAt⟩
    pure (.inr ⟨prepared, outcome, encodeGroup c.scope request admission.acceptedAt outcome⟩)

def publish (c : CommitCoordinator S H W E I) (request : TransactionRequest) (change : PreparedCommit S) :
    CommitCoordinator S H W E I :=
  { c with
    state := TransactionState.publish c.state change.prepared
    outcomes := c.outcomes.insert request.retryKey change.outcome
    transactions := c.transactions.insert request.transactionId (request.principal, change.outcome)
    committedBlobOwners := recordOwners request.principal c.committedBlobOwners (referencesOf request.blobInventory) }

def onJournal {α : Type} (x : Program (JournalStore H W E I × F) StorageError α) :
    Program (CommitCoordinator S H W E I × F) StorageError α :=
  zoom (fun s => (s.1.journal, s.2)) (fun t s => ({ s.1 with journal := t.1 }, t.2)) x

variable [FileSystem F H] [EntropySource E] [EntropySource I]

def commit (request : TransactionRequest) (observation : Option UtcInstant) (cancelled cancelledLater : Bool) :
    Program (CommitCoordinator S H W E I × F) TransactionError TransactionOutcome := do
  let s ← read
  match ← lift id (s.1.prepareCommit request observation cancelled cancelledLater) with
  | .inl outcome => pure outcome
  | .inr change =>
    match ← attempt (onJournal (JournalStore.append ⟨change.group, sha256 change.group⟩ request.blobInventory)) with
    | .error error =>
      update fun s => ({ s.1 with
        uncertain := if mapCommitError error = .outcomeUnknown then true else s.1.uncertain }, s.2)
      fail (mapCommitError error)
    | .ok _ =>
      update fun s => (s.1.publish request change, s.2)
      pure change.outcome

/-! ### Creating and opening -/

variable [DurableKeyEnvelope W]

omit [EntropySource E] [EntropySource I] in
def openJournal (finalName : EntryName) (scope : NamespaceRef) (retention : RetentionDays) (vaultEntropy : E)
    (identityEntropy : I) (unwrap : DatabaseId → W → Except CryptoError (Octets 32)) (initialState : S) :
    Program F TransactionError (CommitCoordinator S H W E I × RecoveryReport) := do
  let (journal, report, memory) ← mapError mapOpenError (JournalStore.openInternal finalName scope.database vaultEntropy
    identityEntropy unwrap none (replayGroup scope) (Memory.initial initialState))
  pure ({ toMemory := memory, scope := scope, retention := retention, journal := journal, recovered := true,
          uncertain := false }, report)

omit [Primitives] [FileSystem F H] [EntropySource E] [EntropySource I] [DurableKeyEnvelope W] [TransactionState S] in
def founded (scope : NamespaceRef) (retention : RetentionDays) (journal : JournalStore H W E I) (initialState : S) :
    CommitCoordinator S H W E I :=
  { toMemory := Memory.initial initialState, scope := scope, retention := retention, journal := journal,
    recovered := false, uncertain := false }

def create (scope : NamespaceRef) (retention : RetentionDays) (finalName : EntryName) (vault : KeyVault W E)
    (identityEntropy : I) (initialState : S) : Program F TransactionError (CommitCoordinator S H W E I) := do
  let journal ← mapError TransactionError.storage (JournalStore.create ⟨scope.database, finalName⟩ vault identityEntropy)
  pure (founded scope retention journal initialState)

/-! ### Reading -/

omit [Primitives] [FileSystem F H] [EntropySource E] [EntropySource I] [DurableKeyEnvelope W]

structure ReadView (S : Type) [TransactionState S] where
  revision : Option CommitRevision
  state : TransactionState.Snapshot S

def readView (c : CommitCoordinator S H W E I) : Except TransactionError (ReadView S) := do
  require (c.uncertain = false) .outcomeUnknown
  pure ⟨c.journal.frontier, TransactionState.snapshot c.state⟩

section

omit [TransactionState S]

def unexpired (observation : Option UtcInstant) (found : Option TransactionOutcome) :
    Except TransactionError (Option TransactionOutcome) := do
  let now ← orError .retryableUnavailable observation
  require (∀ outcome ∈ found, before now outcome.expiresAt) .idempotencyExpired
  pure found

def outcome (c : CommitCoordinator S H W E I) (principal : PrincipalDigest) (key : IdempotencyKey)
    (observation : Option UtcInstant) : Except TransactionError (Option TransactionOutcome) := do
  require (c.uncertain = false) .outcomeUnknown
  unexpired observation c.outcomes[(⟨principal, key⟩ : RetryKey)]?

def transactionOutcome (c : CommitCoordinator S H W E I) (transactionId : TransactionId)
    (observation : Option UtcInstant) : Except TransactionError (Option TransactionOutcome) := do
  require (c.uncertain = false) .outcomeUnknown
  unexpired observation (c.transactions[transactionId]?.map (·.2))

/-- Another principal's transaction is as if it were not there. -/
def transactionOutcomeFor (c : CommitCoordinator S H W E I) (principal : PrincipalDigest) (transactionId : TransactionId)
    (observation : Option UtcInstant) : Except TransactionError (Option TransactionOutcome) := do
  require (c.uncertain = false) .outcomeUnknown
  unexpired observation ((c.transactions[transactionId]?.filter (·.1 = principal)).map (·.2))

def reducerStateForCheckpoint (c : CommitCoordinator S H W E I) : Except TransactionError S := do
  require (c.uncertain = false) .outcomeUnknown
  pure c.state

def checkpointAnchor (c : CommitCoordinator S H W E I) : Except TransactionError (Option (CommitRevision × Octets 32)) := do
  require (c.uncertain = false) .outcomeUnknown
  pure (c.journal.frontier.map fun revision => (revision, c.journal.previousCertificateDigest))

/-- The maintenance accessors do not ask whether the coordinator is uncertain. -/
def checkpointOutcomes (c : CommitCoordinator S H W E I) : List (PrincipalDigest × IdempotencyKey × TransactionOutcome) :=
  c.outcomes.toList.map fun entry => (entry.1.principal, entry.1.key, entry.2)

def committedBlobOwnersList (c : CommitCoordinator S H W E I) : List (BlobReference × PrincipalDigest) :=
  c.committedBlobOwners.values

def committedBlobOwner (c : CommitCoordinator S H W E I) (reference : BlobReference) : Option PrincipalDigest :=
  (c.committedBlobOwners[reference.blobKey]?.filter (·.1 = reference)).map (·.2)

end

end CommitCoordinator

end Uste.Txn
