import Uste.Txn.Coordinator
import Uste.Storage.Upload
import Uste.Foundation.Totals

/-!
The policy facade over the raw coordinator. Every call is authorized against the current policy,
uploads are charged to a ledger of exact bytes, and a commit moves the charges of its blobs from
staged to committed. Handles and views are bound to the policy version they were issued under.
-/

namespace Uste.Txn

open Types Crypto Policy Storage Program FileSystem Std
open Time (UtcInstant)

def maxStagedUploadReservations : Nat := 32

structure DurablePolicyChange where
  expected : PolicyVersion
  next : NamespacePolicy

/-- A reducer that declares the targets of a request without its state. -/
class AuthorizedTransactionState (S : Type) extends TransactionState S where
  requiresDurablePolicy : Bool
  authorizationRequirements : List UInt8 → Option BlobInventory → Except ApplyError AuthorizationRequirements
  durableNamespacePolicy : Snapshot → Option NamespacePolicy
  durablePolicyChange : List UInt8 → Except ApplyError (Option DurablePolicyChange)

/-- A reducer whose reads ask for every candidate whether it may be shown. -/
class AuthorizedReadState (S : Type) extends AuthorizedTransactionState S where
  ReadRequest : Type
  ReadOutput : Type
  ReadError : Type
  readAuthorizationRequirements : ReadRequest → Except ApplyError AuthorizationRequirements
  readAuthorized : Snapshot → ReadRequest → (Action → Target → Bool) → Except ReadError ReadOutput

inductive AuthorizedError where
  | unauthorized
  | resourceLimit
  | stalePolicy
  | invalidPolicy
  | integrityFailure
  | transaction (error : TransactionError)
  deriving DecidableEq

inductive AuthorizedReadError (ε : Type) where
  | authorization (error : AuthorizedError)
  | domain (error : ε)

def AuthorizedError.ofPolicy : PolicyError → AuthorizedError
  | .unauthorized => .unauthorized
  | .resourceLimit => .resourceLimit
  | .invalidPolicy => .invalidPolicy
  | .stalePolicy => .stalePolicy

def AuthorizedError.ofTransaction : TransactionError → AuthorizedError
  | .resourceLimit => .resourceLimit
  | .integrityFailure => .integrityFailure
  | other => .transaction other

def mapRequirementError (error : ApplyError) : AuthorizedError := .transaction (mapApplyError error)

structure AuthorizedTransactionRequest where
  idempotencyKey : IdempotencyKey
  transactionId : TransactionId
  canonicalRequest : List UInt8
  blobInventory : Option BlobInventory

def AuthorizedTransactionRequest.of (request : AuthorizedTransactionRequest) (principal : PrincipalDigest) : TransactionRequest :=
  ⟨principal, request.idempotencyKey, request.transactionId, request.canonicalRequest, request.blobInventory⟩

/-! ### The ledger -/

structure QuotaUsage where
  namespaceCommittedBytes : Nat := 0
  namespaceStagedBytes : Nat := 0
  principalCommittedBytes : Nat := 0
  principalStagedBytes : Nat := 0
  principalLiveUploads : Nat := 0

structure CommittedCharge where
  reference : BlobReference
  principal : PrincipalDigest
  deriving DecidableEq

structure StagedCharge where
  blob : BlobId
  principal : PrincipalDigest
  acceptedBytes : Nat
  finalized : Option BlobReference
  liveHandles : Nat
  deriving DecidableEq

structure QuotaLedger where
  committed : ExtTreeMap BlobId CommittedCharge := ∅
  staged : ExtTreeMap (Octets 16) StagedCharge := ∅
  stagedByBlob : ExtTreeMap BlobId (Octets 16) := ∅

def liveLimit : Nat := 2 ^ 32

def checkedSum (limit a b : Nat) : Except AuthorizedError Nat := do
  require (a + b < limit) .resourceLimit
  pure (a + b)

namespace QuotaLedger

def addCommitted (principal : Option PrincipalDigest) (usage : QuotaUsage) (charge : CommittedCharge) :
    Except AuthorizedError QuotaUsage := do
  let namespaceBytes ← checkedSum wordLimit usage.namespaceCommittedBytes charge.reference.byteLen
  if principal = some charge.principal then do
    let principalBytes ← checkedSum wordLimit usage.principalCommittedBytes charge.reference.byteLen
    pure { usage with namespaceCommittedBytes := namespaceBytes, principalCommittedBytes := principalBytes }
  else pure { usage with namespaceCommittedBytes := namespaceBytes }

def addStaged (principal : Option PrincipalDigest) (usage : QuotaUsage) (charge : StagedCharge) :
    Except AuthorizedError QuotaUsage := do
  let namespaceBytes ← checkedSum wordLimit usage.namespaceStagedBytes charge.acceptedBytes
  if principal = some charge.principal then do
    let principalBytes ← checkedSum wordLimit usage.principalStagedBytes charge.acceptedBytes
    let live ← checkedSum liveLimit usage.principalLiveUploads charge.liveHandles
    pure { usage with namespaceStagedBytes := namespaceBytes, principalStagedBytes := principalBytes, principalLiveUploads := live }
  else pure { usage with namespaceStagedBytes := namespaceBytes }

def usage (ledger : QuotaLedger) (principal : Option PrincipalDigest) : Except AuthorizedError QuotaUsage := do
  let usage ← (ledger.committed.toList.map (·.2)).foldlM (addCommitted principal) {}
  (ledger.staged.toList.map (·.2)).foldlM (addStaged principal) usage

def chargeOwner (ledger : QuotaLedger) (owner : BlobReference × PrincipalDigest) : Except AuthorizedError QuotaLedger := do
  require (owner.1.id ∉ ledger.committed) .integrityFailure
  pure { ledger with committed := ledger.committed.insert owner.1.id ⟨owner.1, owner.2⟩ }

def fromOwners (owners : BlobOwners) : Except AuthorizedError QuotaLedger := do
  let ledger ← (owners.toList.map (·.2)).foldlM chargeOwner {}
  let _ ← ledger.usage none
  pure ledger

def liveUploads (ledger : QuotaLedger) : Except AuthorizedError Nat :=
  (ledger.staged.toList.map (·.2)).foldlM (fun count charge => checkedSum liveLimit count charge.liveHandles) 0

def insertStaged (ledger : QuotaLedger) (upload : Octets 16) (charge : StagedCharge) : QuotaLedger :=
  { ledger with
    staged := ledger.staged.insert upload charge
    stagedByBlob := ledger.stagedByBlob.insert charge.blob upload }

def setStaged (ledger : QuotaLedger) (upload : Octets 16) (charge : StagedCharge) : QuotaLedger :=
  { ledger with staged := ledger.staged.insert upload charge }

def removeStaged (ledger : QuotaLedger) (upload : Octets 16) : QuotaLedger :=
  match ledger.staged[upload]? with
  | some charge =>
    { ledger with staged := ledger.staged.erase upload, stagedByBlob := ledger.stagedByBlob.erase charge.blob }
  | none => ledger

/-- A handle that is dropped gives its reservation back, unless it gave it back before. -/
def dropHandle (ledger : QuotaLedger) (upload : Octets 16) (activeHandle : Bool) : QuotaLedger :=
  match ledger.staged[upload]? with
  | some charge =>
    if activeHandle = true then ledger.setStaged upload { charge with liveHandles := charge.liveHandles - 1 } else ledger
  | none => ledger

def commitReference (principal : PrincipalDigest) (ledger : QuotaLedger) (reference : BlobReference) : QuotaLedger :=
  let committed := ledger.committed.insertIfNew reference.id ⟨reference, principal⟩
  match ledger.stagedByBlob[reference.id]? with
  | some upload =>
    { committed := committed, staged := ledger.staged.erase upload, stagedByBlob := ledger.stagedByBlob.erase reference.id }
  | none => { ledger with committed := committed }

def commitInventory (ledger : QuotaLedger) (principal : PrincipalDigest) (inventory : BlobInventory) : QuotaLedger :=
  inventory.references.foldl (commitReference principal) ledger

/-- A blob of a commit is committed already, or it is staged and finished, by the same principal; the bytes that are
new are added up. -/
def admitReference (ledger : QuotaLedger) (principal : PrincipalDigest) (added : Nat) (reference : BlobReference) :
    Except AuthorizedError Nat :=
  match ledger.committed[reference.id]? with
  | some committed => do
    require (committed.reference = reference ∧ committed.principal = principal) .unauthorized
    pure added
  | none => do
    require (∃ charge ∈ ledger.stagedByBlob[reference.id]?.bind fun upload => ledger.staged[upload]?,
      charge.principal = principal ∧ charge.finalized = some reference) .unauthorized
    checkedSum wordLimit added reference.byteLen

end QuotaLedger

/-! ### Uploads of the raw coordinator -/

namespace CommitCoordinator

variable {S W E I : Type} {H : Handles}

def uploadOwner (c : CommitCoordinator S H W E I) : UploadOwner := ⟨c.journal.database, c.journal.epoch, c.journal.writer⟩

def admitUpload (c : CommitCoordinator S H W E I) (scope : NamespaceRef) : Except TransactionError Unit := do
  require (c.uncertain = false) .outcomeUnknown
  require (scope = c.scope) .invalidRequest

/-- `drawn` is the identity the entropy source gives. -/
def startBlobUpload (c : CommitCoordinator S H W E I) (scope : NamespaceRef) (drawn : Except StorageError (Octets 16))
    (io : UploadIo) : Except TransactionError BlobUpload := do
  c.admitUpload scope
  (do
    require (scope.database = c.journal.database) StorageError.invalidState
    let upload ← drawn
    BlobUpload.new ⟨scope, upload⟩ c.uploadOwner io).mapError .storage

def resumeBlobUpload (c : CommitCoordinator S H W E I) (token : BlobUploadToken) (io : UploadIo) :
    Program UploadStore TransactionError BlobUpload := do
  lift id (c.admitUpload token.scope)
  mapError .storage (resumeUpload c.uploadOwner io token)

def onBlobUpload {α : Type} (c : CommitCoordinator S H W E I) (x : UploadOwner → UploadProgram α) :
    Program (BlobUpload × UploadStore) TransactionError α := do
  let s ← read
  lift id (c.admitUpload s.1.token.scope)
  mapError .storage (x c.uploadOwner)

def writeBlobUpload (c : CommitCoordinator S H W E I) (io : UploadIo) (input : List UInt8) :=
  c.onBlobUpload fun owner => writeUpload owner io input

def finishBlobUpload [Primitives] (c : CommitCoordinator S H W E I) (io : UploadIo) :=
  c.onBlobUpload fun owner => finishUpload owner io

def abortBlobUpload (c : CommitCoordinator S H W E I) (io : UploadIo) :=
  c.onBlobUpload fun owner => abortUpload owner io

end CommitCoordinator

/-! ### The facade -/

/-- The allocation that ties handles and views to the facade that issued them. -/
abbrev Instance := Nat

structure AuthorizedBlobUpload where
  inner : BlobUpload
  principal : PrincipalDigest
  scope : NamespaceRef
  uploadId : Octets 16
  lease : AuthorizationLease
  issuer : Instance
  activeHandle : Bool

structure AuthorizedCoordinator (S : Type) (H : Handles) (W E I : Type) where
  inner : CommitCoordinator S H W E I
  policy : PolicyKernel
  ledger : QuotaLedger
  issuer : Instance
  allowNewUploads : Bool

structure AuthorizedReadView (S : Type) [TransactionState S] where
  inner : CommitCoordinator.ReadView S
  lease : AuthorizationLease
  issuer : Instance

namespace AuthorizedCoordinator

variable {S F W E I : Type} {H : Handles} [AuthorizedTransactionState S]

open AuthorizedTransactionState

def scope (c : AuthorizedCoordinator S H W E I) : NamespaceRef := c.inner.scope

def durablePolicy (state : S) : Option NamespacePolicy := durableNamespacePolicy (TransactionState.snapshot state)

def new (inner : CommitCoordinator S H W E I) (policy : PolicyKernel) (issuer : Instance) :
    Except AuthorizedError (AuthorizedCoordinator S H W E I) := do
  let view ← inner.readView.mapError .ofTransaction
  match durableNamespacePolicy view.state with
  | some durable => require (policy.namespacePolicy durable.scope = some durable) .invalidPolicy
  | none => require (requiresDurablePolicy S = false) .invalidPolicy
  let ledger ← QuotaLedger.fromOwners inner.committedBlobOwners
  pure ⟨inner, policy, ledger, issuer, !inner.recovered⟩

def authorize (c : AuthorizedCoordinator S H W E I) (principal : AuthenticatedPrincipal) (action : Action) :
    Except AuthorizedError AuthorizationLease :=
  (c.policy.authorize principal action (.namespace c.scope)).mapError .ofPolicy

def quotas (c : AuthorizedCoordinator S H W E I) (principal : AuthenticatedPrincipal) : Except AuthorizedError QuotaLimits :=
  (c.policy.quotas principal c.scope).mapError .ofPolicy

def namespaceQuotas (c : AuthorizedCoordinator S H W E I) : Except AuthorizedError QuotaLimits :=
  (c.policy.namespaceQuotas c.scope).mapError .ofPolicy

def replaceNamespacePolicy (c : AuthorizedCoordinator S H W E I) (authority : AuthenticatedPrincipal)
    (expected : PolicyVersion) (next : NamespacePolicy) : Except AuthorizedError (AuthorizedCoordinator S H W E I) := do
  require (next.scope = c.scope) .unauthorized
  let _ ← c.authorize authority .managePolicy
  let view ← c.inner.readView.mapError .ofTransaction
  require (requiresDurablePolicy S = false ∧ durableNamespacePolicy view.state = none) .invalidPolicy
  let policy ← (c.policy.replaceNamespacePolicy authority expected next).mapError .ofPolicy
  pure { c with policy := policy }

def quotaUsage (c : AuthorizedCoordinator S H W E I) (principal : AuthenticatedPrincipal) :
    Except AuthorizedError QuotaUsage := do
  let _ ← c.authorize principal .inspectQuota
  c.ledger.usage (some principal.digest)

/-! #### Reads -/

def readView (c : AuthorizedCoordinator S H W E I) (principal : AuthenticatedPrincipal) :
    Except AuthorizedError (AuthorizedReadView S) := do
  let lease ← c.authorize principal .readRecord
  let inner ← c.inner.readView.mapError .ofTransaction
  pure ⟨inner, lease, c.issuer⟩

def validateView (c : AuthorizedCoordinator S H W E I) (view : AuthorizedReadView S) : Except AuthorizedError Unit := do
  require (c.inner.uncertain = false) (.transaction .outcomeUnknown)
  require (c.issuer = view.issuer) .unauthorized
  (c.policy.revalidate view.lease).mapError .ofPolicy

def readViewRevision (c : AuthorizedCoordinator S H W E I) (view : AuthorizedReadView S) :
    Except AuthorizedError (Option CommitRevision) := do
  c.validateView view
  pure view.inner.revision

def authorizeAll (c : AuthorizedCoordinator S H W E I) (principal : AuthenticatedPrincipal)
    (requirements : AuthorizationRequirements) : Except AuthorizedError Unit :=
  requirements.requirements.forM fun requirement => do
    require (requirement.target.scope = c.scope) .unauthorized
    let _ ← (c.policy.authorize principal requirement.action requirement.target).mapError .ofPolicy

def authorizeCandidate (c : AuthorizedCoordinator S H W E I) (principal : AuthenticatedPrincipal) (action : Action)
    (target : Target) : Bool :=
  decide (target.scope = c.scope) && (c.policy.authorize principal action target).isOk

def read {S : Type} [AuthorizedReadState S] (c : AuthorizedCoordinator S H W E I) (principal : AuthenticatedPrincipal)
    (view : AuthorizedReadView S) (request : AuthorizedReadState.ReadRequest S) :
    Except (AuthorizedReadError (AuthorizedReadState.ReadError S)) (AuthorizedReadState.ReadOutput S) := do
  (c.validateView view).mapError .authorization
  let requirements ← (AuthorizedReadState.readAuthorizationRequirements request).mapError
    fun error => .authorization (mapRequirementError error)
  (c.authorizeAll principal requirements).mapError .authorization
  (AuthorizedReadState.readAuthorized view.inner.state request (c.authorizeCandidate principal)).mapError .domain

/-! #### Uploads -/

def admitHandle (c : AuthorizedCoordinator S H W E I) (principal : AuthenticatedPrincipal) : Except AuthorizedError Unit := do
  let quotas ← c.quotas principal
  let namespaceQuotas ← c.namespaceQuotas
  let usage ← c.ledger.usage (some principal.digest)
  require (usage.principalLiveUploads < quotas.maxLiveUploads) .resourceLimit
  let live ← c.ledger.liveUploads
  require (live < namespaceQuotas.maxLiveUploads) .resourceLimit

variable [Primitives]

def issue (c : AuthorizedCoordinator S H W E I) (principal : AuthenticatedPrincipal) (lease : AuthorizationLease)
    (inner : BlobUpload) : AuthorizedBlobUpload :=
  ⟨inner, principal.digest, c.scope, inner.token.upload, lease, c.issuer, true⟩

def startBlobUpload (principal : AuthenticatedPrincipal) (drawn : Except StorageError (Octets 16)) (io : UploadIo) :
    Program (AuthorizedCoordinator S H W E I × UploadStore) AuthorizedError AuthorizedBlobUpload := do
  let s ← Program.read
  let lease ← lift id (s.1.authorize principal .startUpload)
  ensure (s.1.allowNewUploads = true) .resourceLimit
  lift id (s.1.admitHandle principal)
  ensure (s.1.ledger.staged.size < maxStagedUploadReservations) .resourceLimit
  let inner ← lift .ofTransaction (s.1.inner.startBlobUpload s.1.scope drawn io)
  ensure (inner.token.upload ∉ s.1.ledger.staged ∧ inner.token.blob ∉ s.1.ledger.stagedByBlob) .integrityFailure
  update fun s => ({ s.1 with
    ledger := s.1.ledger.insertStaged inner.token.upload ⟨inner.token.blob, principal.digest, 0, none, 1⟩ }, s.2)
  pure (s.1.issue principal lease inner)

/-- Where a reservation is known it has to be the principal's own and without a handle. -/
def admitResume (c : AuthorizedCoordinator S H W E I) (principal : AuthenticatedPrincipal) (token : BlobUploadToken) :
    Except AuthorizedError Unit :=
  match c.ledger.staged[token.upload]? with
  | some charge => do
    require (charge.principal = principal.digest) .unauthorized
    require (charge.liveHandles = 0) .resourceLimit
  | none => do
    require (c.ledger.staged.size < maxStagedUploadReservations) .resourceLimit
    require (token.blob ∉ c.ledger.stagedByBlob) .integrityFailure

def resumed (ledger : QuotaLedger) (principal : PrincipalDigest) (token : BlobUploadToken) (acceptedBytes : Nat) :
    Except AuthorizedError QuotaLedger :=
  let ledger := if token.upload ∈ ledger.staged then ledger
    else ledger.insertStaged token.upload ⟨token.blob, principal, acceptedBytes, none, 0⟩
  do
    let charge ← orError .integrityFailure ledger.staged[token.upload]?
    let live ← checkedSum liveLimit charge.liveHandles 1
    pure (ledger.setStaged token.upload { charge with acceptedBytes := acceptedBytes, liveHandles := live })

def resumeBlobUpload (principal : AuthenticatedPrincipal) (token : BlobUploadToken) (io : UploadIo) :
    Program (AuthorizedCoordinator S H W E I × UploadStore) AuthorizedError AuthorizedBlobUpload := do
  let s ← Program.read
  let lease ← lift id (s.1.authorize principal .resumeUpload)
  ensure (token.scope = s.1.scope) .unauthorized
  lift id (s.1.admitResume principal token)
  lift id (s.1.admitHandle principal)
  let inner ← mapError .ofTransaction (onSnd (s.1.inner.resumeBlobUpload token io))
  ensure (token.upload ∈ s.1.ledger.staged ∨ inner.durableResumeEvidence = true) .unauthorized
  let ledger ← lift id (resumed s.1.ledger principal.digest token inner.acceptedBytes)
  update fun s => ({ s.1 with ledger := ledger }, s.2)
  pure (s.1.issue principal lease inner)

omit [Primitives] in
def validateUpload (c : AuthorizedCoordinator S H W E I) (principal : AuthenticatedPrincipal) (upload : AuthorizedBlobUpload)
    (action : Action) : Except AuthorizedError Unit := do
  require (upload.scope = c.scope ∧ upload.principal = principal.digest) .unauthorized
  require (upload.issuer = c.issuer) .unauthorized
  (c.policy.revalidate upload.lease).mapError .ofPolicy
  let _ ← c.authorize principal action

omit [Primitives] in
def checkStagedProjection (c : AuthorizedCoordinator S H W E I) (principal : AuthenticatedPrincipal) (added : Nat) :
    Except AuthorizedError Unit := do
  let usage ← c.ledger.usage (some principal.digest)
  let principalProjected ← checkedSum wordLimit usage.principalStagedBytes added
  let namespaceProjected ← checkedSum wordLimit usage.namespaceStagedBytes added
  let quotas ← c.quotas principal
  require (principalProjected ≤ quotas.maxStagedBlobBytes) .resourceLimit
  let namespaceQuotas ← c.namespaceQuotas
  require (namespaceProjected ≤ namespaceQuotas.maxStagedBlobBytes) .resourceLimit

abbrev HandleState (S : Type) (H : Handles) (W E I : Type) :=
  AuthorizedBlobUpload × AuthorizedCoordinator S H W E I × UploadStore

def onInnerUpload {α : Type}
    (x : CommitCoordinator S H W E I → Program (BlobUpload × UploadStore) TransactionError α) :
    Program (HandleState S H W E I) AuthorizedError α := do
  let s ← Program.read
  mapError .ofTransaction (zoom (fun s => (s.1.inner, s.2.2))
    (fun t s => ({ s.1 with inner := t.1 }, s.2.1, t.2)) (x s.2.1.inner))

def setLedger (ledger : QuotaLedger) : Program (HandleState S H W E I) AuthorizedError Unit :=
  update fun s => (s.1, { s.2.1 with ledger := ledger }, s.2.2)

omit [Primitives] in
def chargeWrite (before added : Nat) : Program (HandleState S H W E I) AuthorizedError Unit := do
  let s ← Program.read
  ensure (before ≤ s.1.inner.acceptedBytes) .integrityFailure
  let limit ← lift id (checkedSum wordLimit before added)
  ensure (s.1.inner.acceptedBytes ≤ limit) .integrityFailure
  let charge ← lift id (orError .integrityFailure s.2.1.ledger.staged[s.1.uploadId]?)
  ensure (charge.acceptedBytes ≤ s.1.inner.acceptedBytes) .integrityFailure
  setLedger (s.2.1.ledger.setStaged s.1.uploadId { charge with acceptedBytes := s.1.inner.acceptedBytes })

omit [Primitives] in
/-- The charge is made even where the upload reports an error. -/
def writeBlobUpload (principal : AuthenticatedPrincipal) (io : UploadIo) (input : List UInt8) :
    Program (HandleState S H W E I) AuthorizedError Unit := do
  let s ← Program.read
  lift id (s.2.1.validateUpload principal s.1 .writeUpload)
  lift id (s.2.1.checkStagedProjection principal input.length)
  let result ← attempt (onInnerUpload fun c => c.writeBlobUpload io input)
  chargeWrite s.1.inner.acceptedBytes input.length
  lift id result

def finishBlobUpload (principal : AuthenticatedPrincipal) (io : UploadIo) :
    Program (HandleState S H W E I) AuthorizedError BlobReference := do
  let s ← Program.read
  lift id (s.2.1.validateUpload principal s.1 .finishUpload)
  let reference ← onInnerUpload fun c => c.finishBlobUpload io
  let s ← Program.read
  let charge ← lift id (orError .integrityFailure s.2.1.ledger.staged[s.1.uploadId]?)
  ensure (charge.blob = reference.id ∧ charge.acceptedBytes = reference.byteLen) .integrityFailure
  setLedger (s.2.1.ledger.setStaged s.1.uploadId
    { charge with finalized := some reference, liveHandles := charge.liveHandles - 1 })
  update fun s => ({ s.1 with activeHandle := false }, s.2)
  pure reference

omit [Primitives] in
def abortBlobUpload (principal : AuthenticatedPrincipal) (io : UploadIo) :
    Program (HandleState S H W E I) AuthorizedError Unit := do
  let s ← Program.read
  lift id (s.2.1.validateUpload principal s.1 .abortUpload)
  onInnerUpload fun c => c.abortBlobUpload io
  let s ← Program.read
  setLedger (s.2.1.ledger.removeStaged s.1.uploadId)
  update fun s => ({ s.1 with activeHandle := false }, s.2)

/-- One upload of the outbox: it is committed, durably aborted, or has nothing durable. -/
def reconcileUpload (c : AuthorizedCoordinator S H W E I) (store : UploadStore) (io : BlobUploadToken → UploadIo)
    (token : BlobUploadToken) : Except AuthorizedError Unit := do
  require (token.scope = c.scope) .unauthorized
  if ∃ owner ∈ c.inner.committedBlobOwners.toList, owner.2.1.id = token.blob then pure ()
  else
    match (c.inner.resumeBlobUpload token (io token) store).1 with
    | .ok upload => require (upload.durableResumeEvidence = false) .resourceLimit
    | .error error => require (error = .storage .invalidState) (.ofTransaction error)

def completeRecoveredUploadReconciliation (principal : AuthenticatedPrincipal) (completeOutbox : List BlobUploadToken)
    (io : BlobUploadToken → UploadIo) :
    Program (AuthorizedCoordinator S H W E I × UploadStore) AuthorizedError Unit := do
  let s ← Program.read
  let _ ← lift id (s.1.authorize principal .manageSchema)
  let _ ← lift id (s.1.authorize principal .resumeUpload)
  let quotas ← lift id (s.1.quotas principal)
  ensure (completeOutbox.length ≤ maxStagedUploadReservations ∧ completeOutbox.length ≤ quotas.maxLiveUploads ∧
    s.1.ledger.staged.size = 0) .resourceLimit
  let tokens := completeOutbox.mergeSort fun a b => (compare a.upload b.upload).isLE
  ensure (∀ pair ∈ tokens.zip tokens.tail, pair.1 ≠ pair.2) .integrityFailure
  lift id (tokens.forM (s.1.reconcileUpload s.2 io))
  update fun s => ({ s.1 with allowNewUploads := true }, s.2)

/-! #### Commit -/

section

omit [Primitives]

def checkInventory (c : AuthorizedCoordinator S H W E I) (principal : AuthenticatedPrincipal) :
    Option BlobInventory → Except AuthorizedError Unit
  | none => pure ()
  | some inventory => do
    require (inventory.scope = c.scope) .unauthorized
    let added ← inventory.references.foldlM (c.ledger.admitReference principal.digest) 0
    let usage ← c.ledger.usage (some principal.digest)
    let principalBytes ← checkedSum wordLimit usage.principalCommittedBytes added
    let quotas ← c.quotas principal
    require (principalBytes ≤ quotas.maxCommittedBlobBytes) .resourceLimit
    let namespaceBytes ← checkedSum wordLimit usage.namespaceCommittedBytes added
    let namespaceQuotas ← c.namespaceQuotas
    require (namespaceBytes ≤ namespaceQuotas.maxCommittedBlobBytes) .resourceLimit

/-- Everything a commit asks before it reaches the raw coordinator, and the policy change it names. -/
def admitCommit (c : AuthorizedCoordinator S H W E I) (principal : AuthenticatedPrincipal)
    (request : AuthorizedTransactionRequest) : Except AuthorizedError (Option DurablePolicyChange) := do
  let _ ← c.authorize principal .commit
  let quotas ← c.quotas principal
  require (request.canonicalRequest.length ≤ quotas.maxRequestBytes) .resourceLimit
  let requirements ← (authorizationRequirements S request.canonicalRequest request.blobInventory).mapError mapRequirementError
  c.authorizeAll principal requirements
  c.checkInventory principal request.blobInventory
  (durablePolicyChange S request.canonicalRequest).mapError mapRequirementError

def synchronizeDurablePolicy (c : AuthorizedCoordinator S H W E I) (principal : AuthenticatedPrincipal) :
    Except AuthorizedError (AuthorizedCoordinator S H W E I) := do
  let view ← c.inner.readView.mapError .ofTransaction
  match durableNamespacePolicy view.state with
  | none => do
    require (requiresDurablePolicy S = false) .integrityFailure
    pure c
  | some durable => do
    let current ← orError .invalidPolicy (c.policy.namespacePolicy durable.scope)
    if current = durable then pure c
    else do
      require (current.version.value < durable.version.value) .integrityFailure
      let policy ← (c.policy.replaceNamespacePolicy principal current.version durable).mapError .ofPolicy
      pure { c with policy := policy }

def chargeInventory (c : AuthorizedCoordinator S H W E I) (principal : PrincipalDigest) :
    Option BlobInventory → AuthorizedCoordinator S H W E I
  | none => c
  | some inventory => { c with ledger := c.ledger.commitInventory principal inventory }

end

variable [FileSystem F H] [EntropySource E] [EntropySource I]

def commit (principal : AuthenticatedPrincipal) (request : AuthorizedTransactionRequest) (observation : Option UtcInstant)
    (cancelled cancelledLater : Bool) : Program (AuthorizedCoordinator S H W E I × F) AuthorizedError TransactionOutcome := do
  let s ← Program.read
  let changesPolicy ← lift id (s.1.admitCommit principal request)
  let outcome ← mapError .ofTransaction (zoom (fun s => (s.1.inner, s.2)) (fun t s => ({ s.1 with inner := t.1 }, t.2))
    (CommitCoordinator.commit (request.of principal.digest) observation cancelled cancelledLater))
  update fun s => (s.1.chargeInventory principal.digest request.blobInventory, s.2)
  match changesPolicy with
  | none => pure outcome
  | some _ => do
    let s ← Program.read
    let synchronized ← lift id (s.1.synchronizeDurablePolicy principal)
    update fun s => (synchronized, s.2)
    pure outcome

end AuthorizedCoordinator

end Uste.Txn
