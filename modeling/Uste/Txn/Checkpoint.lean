import Uste.Foundation.Cursor
import Uste.Txn.Seed

/-!
The coordinator checkpoint: the state of the reducer, the retry outcomes and the owners of the
blobs at one certificate, written as one payload whose two counts are filled in at the end, and
read back into a recovery seed.
-/

namespace Uste.Txn

open Types Crypto Policy Storage Std List
open Time (UtcInstant)

def coordinatorMagic : List UInt8 := ascii "UCCP" ++ [0, 1, 0, 0]
def outcomeBytes : Nat := 148
def blobOwnerBytes : Nat := 92
def maxCheckpointBytes : Nat := 256 * 1024 * 1024

/-- The errors of capturing and decoding; the counts are machine words and do not overflow. -/
inductive ReplayError where
  | emptyCheckpointState
  | checkpoint (error : CheckpointStateError)
  | checkpointScopeMismatch
  | checkpointRevisionMismatch
  | checkpointProfileMismatch
  | checkpointStateMismatch
  | nonCanonicalCheckpoint
  deriving DecidableEq, Repr

/-- A reducer with a checkpoint codec; the streamed encoding is a list of chunks. -/
class CheckpointCodec (S : Type) extends CheckpointState S where
  encodeCurrentCheckpoint : S → Except CheckpointStateError (List UInt8)
  encodeCurrentCheckpointInto : S → Except CheckpointStateError (List (List UInt8))
  decodeCheckpoint : NamespaceRef → CommitRevision → List UInt8 → Except CheckpointStateError S

structure ReducerCheckpoint where
  scope : NamespaceRef
  revision : CommitRevision
  reducerProfile : Octets 32
  logicalStateDigest : Octets 32
  payload : List UInt8

structure CoordinatorCheckpoint extends RecoveredCheckpoint where
  payload : List UInt8

section Reducers

variable {S : Type} [CheckpointCodec S]

open CheckpointState CheckpointCodec

def captureReducerCheckpoint (state : S) : Except ReplayError ReducerCheckpoint := do
  let revision ← orError .emptyCheckpointState (currentCheckpointRevision state)
  let digest ← (currentLogicalStateDigest state).mapError .checkpoint
  let chunks ← (encodeCurrentCheckpointInto state).mapError .checkpoint
  pure ⟨currentCheckpointScope state, revision, reducerProfile S, digest, chunks.flatten⟩

def verifyReducerCheckpoint (expectedScope : NamespaceRef) (checkpoint : ReducerCheckpoint) : Except ReplayError S := do
  require (checkpoint.scope = expectedScope) .checkpointScopeMismatch
  require (checkpoint.reducerProfile = reducerProfile S) .checkpointProfileMismatch
  let state ← (decodeCheckpoint checkpoint.scope checkpoint.revision checkpoint.payload).mapError .checkpoint
  require (currentCheckpointScope state = checkpoint.scope) .checkpointScopeMismatch
  require (currentCheckpointRevision state = some checkpoint.revision) .checkpointRevisionMismatch
  let digest ← (currentLogicalStateDigest state).mapError .checkpoint
  require (digest = checkpoint.logicalStateDigest) .checkpointStateMismatch
  let encoded ← (encodeCurrentCheckpoint state).mapError .checkpoint
  require (encoded = checkpoint.payload) .nonCanonicalCheckpoint
  pure state

end Reducers

/-! ### Writing -/

def coordinatorExtend (output value : List UInt8) : Except ReplayError (List UInt8) := do
  require (output.length + value.length ≤ maxCheckpointBytes) (.checkpoint .resourceLimit)
  pure (output ++ value)

def coordinatorFrame (output value : List UInt8) : Except ReplayError (List UInt8) :=
  [bigEndian 8 value.length, value].foldlM coordinatorExtend output

def patchCount (payload : List UInt8) (offset count : Nat) : List UInt8 :=
  payload.take offset ++ bigEndian 8 count ++ payload.drop (offset + 8)

abbrev OutcomeEntry := PrincipalDigest × IdempotencyKey × TransactionOutcome

def OutcomeEntry.retryKey (entry : OutcomeEntry) : RetryKey := ⟨entry.1, entry.2.1⟩

def outcomeFields (entry : OutcomeEntry) : List (List UInt8) :=
  [entry.1.bytes.bytes, entry.2.1.bytes.bytes, entry.2.2.transactionId.bytes.bytes,
    bigEndian 8 entry.2.2.revision.value, entry.2.2.requestDigest.bytes, entry.2.2.resultDigest.bytes,
    signedBytes entry.2.2.expiresAt.seconds, bigEndian 4 entry.2.2.expiresAt.nanoseconds]

def ownerFields (owner : BlobReference × PrincipalDigest) : List (List UInt8) :=
  [owner.1.id.bytes, bigEndian 8 owner.1.byteLen, bigEndian 4 owner.1.chunkCount, owner.1.contentDigest.bytes,
    owner.2.bytes.bytes]

structure CapturedOutcomes where
  payload : List UInt8
  count : Nat
  previous : Option RetryKey
  transactionIds : List TransactionId

def captureOutcome (revision : CommitRevision) (captured : CapturedOutcomes) (entry : OutcomeEntry) :
    Except ReplayError CapturedOutcomes := do
  require ((∀ previous ∈ captured.previous, compare previous entry.retryKey = .lt) ∧
    entry.2.2.revision.value ≤ revision.value) (.checkpoint .invalid)
  require (captured.count ≠ maxOutcomesPerNamespace) (.checkpoint .resourceLimit)
  let payload ← (outcomeFields entry).foldlM coordinatorExtend captured.payload
  pure ⟨payload, captured.count + 1, some entry.retryKey, captured.transactionIds ++ [entry.2.2.transactionId]⟩

structure CapturedOwners where
  payload : List UInt8
  count : Nat
  previous : Option BlobKey

def captureOwner (scope : NamespaceRef) (captured : CapturedOwners) (owner : BlobReference × PrincipalDigest) :
    Except ReplayError CapturedOwners := do
  require (captured.count ≠ maxCommittedBlobsPerJournal) (.checkpoint .resourceLimit)
  require (owner.1.scope = scope) .checkpointScopeMismatch
  require (∀ previous ∈ captured.previous, compare previous owner.1.blobKey = .lt) (.checkpoint .invalid)
  let payload ← (ownerFields owner).foldlM coordinatorExtend captured.payload
  pure ⟨payload, captured.count + 1, some owner.1.blobKey⟩

def headerFields (checkpoint : RecoveredCheckpoint) : List (List UInt8) :=
  [coordinatorMagic, checkpoint.scope.database.bytes.bytes, checkpoint.scope.namespaceId.bytes.bytes,
    bigEndian 8 checkpoint.revision.value, checkpoint.certificateDigest.bytes, checkpoint.reducerProfile.bytes,
    checkpoint.logicalStateDigest.bytes]

def captureCoordinatorCheckpoint {S : Type} [CheckpointCodec S] (state : S) (anchor : CommitRevision × Octets 32)
    (outcomes : List OutcomeEntry) (committedBlobOwners : List (BlobReference × PrincipalDigest)) :
    Except ReplayError CoordinatorCheckpoint := do
  let reducer ← captureReducerCheckpoint state
  require (reducer.revision = anchor.1) .checkpointRevisionMismatch
  let metadata : RecoveredCheckpoint :=
    ⟨reducer.scope, reducer.revision, anchor.2, reducer.reducerProfile, reducer.logicalStateDigest⟩
  let payload ← (headerFields metadata).foldlM coordinatorExtend []
  let front ← coordinatorFrame payload reducer.payload
  let payload ← coordinatorExtend front (List.replicate 8 0)
  let written ← outcomes.foldlM (captureOutcome reducer.revision) ⟨payload, 0, none, []⟩
  let sorted := written.transactionIds.insertionSort fun a b => (compare a b).isLE
  require (sorted.IsChain (· ≠ ·)) (.checkpoint .invalid)
  let middle := patchCount written.payload front.length written.count
  let payload ← coordinatorExtend middle (List.replicate 8 0)
  let owned ← committedBlobOwners.foldlM (captureOwner reducer.scope) ⟨payload, 0, none⟩
  pure ⟨metadata, patchCount owned.payload middle.length owned.count⟩

/-! ### Reading -/

namespace CoordinatorCursor

open Program (ensure lift)

/-- The error of an input that ends too early, and of a value that is not well formed. -/
def invalid : ReplayError := .checkpoint .invalid

def readRevision : Reader ReplayError CommitRevision := do
  let value ← Reader.word invalid 8
  lift (fun _ => invalid) (CommitRevision.new value)

def readFrame : Reader ReplayError (List UInt8) := do
  let length ← Reader.word invalid 8
  Reader.take invalid length

def readBoundedCount (minimumEntryBytes : Nat) : Reader ReplayError Nat := do
  let count ← Reader.word invalid 8
  let remaining ← Program.read
  ensure (count ≤ remaining.length / minimumEntryBytes) invalid
  pure count

def readOutcome (previous : Option RetryKey) : Reader ReplayError OutcomeEntry := do
  let principal ← Reader.array invalid 32
  let key ← Reader.array invalid 16
  ensure (∀ p ∈ previous, compare p (⟨⟨principal⟩, ⟨key⟩⟩ : RetryKey) = .lt) invalid
  let transactionId ← Reader.array invalid 16
  let revision ← readRevision
  let requestDigest ← Reader.array invalid 32
  let resultDigest ← Reader.array invalid 32
  let seconds ← Reader.word invalid 8
  let nanoseconds ← Reader.word invalid 4
  let expiresAt ← lift id (orError invalid (UtcInstant.new (ofSigned seconds) nanoseconds))
  pure (⟨principal⟩, ⟨key⟩, ⟨⟨transactionId⟩, revision, requestDigest, resultDigest, expiresAt⟩)

def readOwner (scope : NamespaceRef) (previous : Option BlobKey) : Reader ReplayError (BlobReference × PrincipalDigest) := do
  let id ← Reader.array invalid 16
  let byteLen ← Reader.word invalid 8
  let chunkCount ← Reader.word invalid 4
  let contentDigest ← Reader.array invalid 32
  let principal ← Reader.array invalid 32
  let reference : BlobReference := ⟨scope, id, byteLen, chunkCount, contentDigest⟩
  ensure (reference.validReferenceShape = true) invalid
  ensure (∀ p ∈ previous, compare p reference.blobKey = .lt) invalid
  pure (reference, ⟨principal⟩)

def readEntries {κ α : Type} (entry : Option κ → Reader ReplayError α) (key : α → κ) :
    (count : Nat) → (previous : Option κ) → Reader ReplayError (List α)
  | 0, _ => pure []
  | count + 1, previous => do
    let first ← entry previous
    let rest ← readEntries entry key count (some (key first))
    pure (first :: rest)

def readCheckpoint {S : Type} [CheckpointCodec S] (checkpoint : RecoveredCheckpoint) :
    Reader ReplayError (S × List OutcomeEntry × List (BlobReference × PrincipalDigest)) := do
  let magic ← Reader.take invalid 8
  ensure (magic = coordinatorMagic) (.checkpoint .unsupportedProfile)
  let database ← Reader.array invalid 16
  let namespaceId ← Reader.array invalid 16
  let revision ← readRevision
  let certificateDigest ← Reader.array invalid 32
  let reducerProfile ← Reader.array invalid 32
  let logicalStateDigest ← Reader.array invalid 32
  let scope : NamespaceRef := ⟨⟨database⟩, ⟨namespaceId⟩⟩
  ensure (scope = checkpoint.scope ∧ revision = checkpoint.revision ∧ certificateDigest = checkpoint.certificateDigest ∧
    reducerProfile = checkpoint.reducerProfile ∧ logicalStateDigest = checkpoint.logicalStateDigest)
    .checkpointStateMismatch
  let reducerPayload ← readFrame
  let state ← lift id (verifyReducerCheckpoint scope ⟨scope, revision, reducerProfile, logicalStateDigest, reducerPayload⟩)
  let outcomeCount ← readBoundedCount outcomeBytes
  ensure (outcomeCount ≤ maxOutcomesPerNamespace) (.checkpoint .resourceLimit)
  let outcomes ← readEntries readOutcome OutcomeEntry.retryKey outcomeCount none
  let ownerCount ← readBoundedCount blobOwnerBytes
  ensure (ownerCount ≤ maxCommittedBlobsPerJournal) (.checkpoint .resourceLimit)
  let owners ← readEntries (readOwner scope) (fun owner => owner.1.blobKey) ownerCount none
  pure (state, outcomes, owners)

end CoordinatorCursor

def coordinatorSeedError : TransactionError → ReplayError
  | .resourceLimit => .checkpoint .resourceLimit
  | _ => .checkpoint .invalid

def decodeCoordinatorCheckpoint {S : Type} [CheckpointCodec S] (checkpoint : CoordinatorCheckpoint) :
    Except ReplayError (CoordinatorRecoverySeed S) := do
  require (checkpoint.payload.length ≤ maxCheckpointBytes) (.checkpoint .resourceLimit)
  let cursor := CoordinatorCursor.readCheckpoint checkpoint.toRecoveredCheckpoint checkpoint.payload
  let (state, outcomes, owners) ← cursor.1
  require (cursor.2 = []) .nonCanonicalCheckpoint
  (CoordinatorRecoverySeed.fromAuthenticatedCheckpoint checkpoint.toRecoveredCheckpoint state outcomes owners).mapError
    coordinatorSeedError

/-! ### What is written -/

variable {fields : List (List UInt8)} {output : List UInt8}

theorem foldlM_coordinatorExtend (fits : output.length + fields.flatten.length ≤ maxCheckpointBytes) :
    fields.foldlM coordinatorExtend output = .ok (output ++ fields.flatten) := by
  induction fields generalizing output with
  | nil =>
    rw [flatten_nil, append_nil]
    rfl
  | cons field fields ih =>
    rw [flatten_cons, length_append] at fits
    have first : coordinatorExtend output field = .ok (output ++ field) := by
      unfold coordinatorExtend
      rw [require_pos _ (by omega)]
      rfl
    rw [foldlM_cons, first, ok_bind, ih, flatten_cons, append_assoc]
    rw [length_append]
    omega

theorem coordinatorExtend_ok {value : List UInt8} (fits : output.length + value.length ≤ maxCheckpointBytes) :
    coordinatorExtend output value = .ok (output ++ value) := by
  unfold coordinatorExtend
  rw [require_pos _ fits]
  rfl

theorem patchCount_kept (front body : List UInt8) (count : Nat) :
    patchCount (front ++ List.replicate 8 0 ++ body) front.length count = front ++ bigEndian 8 count ++ body := by
  have before : (front ++ List.replicate 8 0 ++ body).take front.length = front := by
    rw [append_assoc, take_left]
  have after : (front ++ List.replicate 8 0 ++ body).drop (front.length + 8) = body := drop_left' (by simp)
  rw [patchCount, before, after]

def encodeOutcome (entry : OutcomeEntry) : List UInt8 := (outcomeFields entry).flatten

def encodeOwner (owner : BlobReference × PrincipalDigest) : List UInt8 := (ownerFields owner).flatten

@[simp] theorem length_encodeOutcome (entry : OutcomeEntry) : (encodeOutcome entry).length = outcomeBytes := by
  simp [encodeOutcome, outcomeFields, signedBytes, outcomeBytes]

@[simp] theorem length_encodeOwner (owner : BlobReference × PrincipalDigest) :
    (encodeOwner owner).length = blobOwnerBytes := by
  simp [encodeOwner, ownerFields, blobOwnerBytes]

theorem length_flatMap_of_const {α : Type} {f : α → List UInt8} {n : Nat} (items : List α) (each : ∀ a, (f a).length = n) :
    (items.flatMap f).length = items.length * n := by
  induction items with
  | nil => simp
  | cons item items ih =>
    rw [flatMap_cons, length_append, ih, each, length_cons]
    ring

variable {outcomes : List OutcomeEntry} {revision : CommitRevision}

theorem captureOutcomes_ok (payload : List UInt8)
    (ordered : outcomes.Pairwise fun a b => compare a.retryKey b.retryKey = .lt)
    (past : ∀ entry ∈ outcomes, entry.2.2.revision.value ≤ revision.value)
    (bounded : outcomes.length ≤ maxOutcomesPerNamespace)
    (fits : payload.length + outcomes.length * outcomeBytes ≤ maxCheckpointBytes) :
    ∃ previous, outcomes.foldlM (captureOutcome revision) ⟨payload, 0, none, []⟩ =
      .ok ⟨payload ++ outcomes.flatMap encodeOutcome, outcomes.length, previous, outcomes.map (·.2.2.transactionId)⟩ := by
  have reached := foldlM_reaches outcomes (f := captureOutcome revision) (s := ⟨payload, 0, none, []⟩) (fun done captured =>
    captured = ⟨payload ++ done.flatMap encodeOutcome, done.length, done.getLast?.map OutcomeEntry.retryKey,
      done.map (·.2.2.transactionId)⟩) (by simp) ?_
  · obtain ⟨_, ran, rfl⟩ := reached
    exact ⟨_, ran⟩
  rintro done entry later _ rfl rfl
  obtain ⟨-, -, before⟩ := pairwise_append.mp ordered
  have size : (payload ++ done.flatMap encodeOutcome).length + (encodeOutcome entry).length ≤ maxCheckpointBytes := by
    rw [length_append, length_flatMap_of_const done length_encodeOutcome, length_encodeOutcome]
    rw [length_append, length_cons, Nat.add_mul, Nat.succ_mul] at fits
    omega
  rw [length_append, length_cons] at bounded
  refine ⟨_, ?_, rfl⟩
  unfold captureOutcome
  have after : ∀ p ∈ done.getLast?.map OutcomeEntry.retryKey, compare p entry.retryKey = .lt := by
    intro p mem
    obtain ⟨last, there, rfl⟩ := Option.mem_map.mp mem
    exact before last (mem_of_getLast? there) entry mem_cons_self
  rw [require_pos _ ⟨after, past entry (by simp)⟩, ok_bind, require_pos _ (by dsimp only; omega), ok_bind,
    foldlM_coordinatorExtend size, ok_bind]
  simp only [flatMap_append, flatMap_singleton, map_append, map_singleton, length_append,
    length_singleton, append_assoc, List.getLast?_concat, Option.map_some]
  rfl

variable {owners : List (BlobReference × PrincipalDigest)} {scope : NamespaceRef}

theorem captureOwners_ok (payload : List UInt8)
    (ordered : owners.Pairwise fun a b => compare a.1.blobKey b.1.blobKey = .lt)
    (inScope : ∀ owner ∈ owners, owner.1.scope = scope) (bounded : owners.length ≤ maxCommittedBlobsPerJournal)
    (fits : payload.length + owners.length * blobOwnerBytes ≤ maxCheckpointBytes) :
    ∃ previous, owners.foldlM (captureOwner scope) ⟨payload, 0, none⟩ =
      .ok ⟨payload ++ owners.flatMap encodeOwner, owners.length, previous⟩ := by
  have reached := foldlM_reaches owners (f := captureOwner scope) (s := ⟨payload, 0, none⟩) (fun done captured =>
    captured = ⟨payload ++ done.flatMap encodeOwner, done.length, done.getLast?.map (·.1.blobKey)⟩) (by simp) ?_
  · obtain ⟨_, ran, rfl⟩ := reached
    exact ⟨_, ran⟩
  rintro done owner later _ rfl rfl
  obtain ⟨-, -, before⟩ := pairwise_append.mp ordered
  have size : (payload ++ done.flatMap encodeOwner).length + (encodeOwner owner).length ≤ maxCheckpointBytes := by
    rw [length_append, length_flatMap_of_const done length_encodeOwner, length_encodeOwner]
    rw [length_append, length_cons, Nat.add_mul, Nat.succ_mul] at fits
    omega
  rw [length_append, length_cons] at bounded
  refine ⟨_, ?_, rfl⟩
  unfold captureOwner
  rw [require_pos _ (by dsimp only; omega), ok_bind, require_pos _ (inScope owner (by simp)), ok_bind,
    require_pos _ fun p mem => ?_, ok_bind, foldlM_coordinatorExtend size, ok_bind]
  · simp only [flatMap_append, flatMap_singleton, length_append, length_singleton, append_assoc,
      List.getLast?_concat, Option.map_some]
    rfl
  · obtain ⟨last, there, rfl⟩ := Option.mem_map.mp mem
    exact before last (mem_of_getLast? there) owner mem_cons_self

theorem sorted_ids_apart {ids : List TransactionId} (nodup : ids.Nodup) :
    (ids.insertionSort fun a b => (compare a b).isLE).IsChain (· ≠ ·) := by
  have sorted : (ids.insertionSort fun a b => (compare a b).isLE).Nodup := (perm_insertionSort _ ids).nodup_iff.mpr nodup
  exact List.Pairwise.isChain sorted

def checkpointLayout (metadata : RecoveredCheckpoint) (reducer : List UInt8) (outcomes : List OutcomeEntry)
    (owners : List (BlobReference × PrincipalDigest)) : List UInt8 :=
  (headerFields metadata).flatten ++ (bigEndian 8 reducer.length ++ (reducer ++ (bigEndian 8 outcomes.length ++
    (outcomes.flatMap encodeOutcome ++ (bigEndian 8 owners.length ++ owners.flatMap encodeOwner)))))

def checkpointSize (reducer outcomes owners : Nat) : Nat :=
  168 + reducer + outcomes * outcomeBytes + owners * blobOwnerBytes

@[simp] theorem length_headerFields (metadata : RecoveredCheckpoint) : (headerFields metadata).flatten.length = 144 := by
  have magic : coordinatorMagic.length = 8 := rfl
  simp [headerFields, magic]

theorem length_checkpointLayout (metadata : RecoveredCheckpoint) (reducer : List UInt8) (outcomes : List OutcomeEntry)
    (owners : List (BlobReference × PrincipalDigest)) : (checkpointLayout metadata reducer outcomes owners).length =
      checkpointSize reducer.length outcomes.length owners.length := by
  simp only [checkpointLayout, checkpointSize, length_append, length_headerFields, length_bigEndian,
    length_flatMap_of_const outcomes length_encodeOutcome, length_flatMap_of_const owners length_encodeOwner]
  omega

/-- What can be captured: the maps in the order of their keys, with nothing later than the checkpoint or of another
scope in them. -/
structure Capturable (scope : NamespaceRef) (revision : CommitRevision) (outcomes : List OutcomeEntry)
    (owners : List (BlobReference × PrincipalDigest)) : Prop where
  outcomeOrder : outcomes.Pairwise fun a b => compare a.retryKey b.retryKey = .lt
  transactionIds : (outcomes.map (·.2.2.transactionId)).Nodup
  past : ∀ entry ∈ outcomes, entry.2.2.revision.value ≤ revision.value
  outcomeCount : outcomes.length ≤ maxOutcomesPerNamespace
  ownerOrder : owners.Pairwise fun a b => compare a.1.blobKey b.1.blobKey = .lt
  inScope : ∀ owner ∈ owners, owner.1.scope = scope
  shape : ∀ owner ∈ owners, owner.1.validReferenceShape = true
  ownerCount : owners.length ≤ maxCommittedBlobsPerJournal

variable {anchor : CommitRevision × Octets 32}

theorem captureCoordinatorCheckpoint_ok {S : Type} [CheckpointCodec S] {state : S} {reducer : ReducerCheckpoint}
    (captured : captureReducerCheckpoint state = .ok reducer) (here : reducer.revision = anchor.1)
    (capturable : Capturable reducer.scope reducer.revision outcomes owners)
    (fits : checkpointSize reducer.payload.length outcomes.length owners.length ≤ maxCheckpointBytes) :
    captureCoordinatorCheckpoint state anchor outcomes owners =
      .ok ⟨⟨reducer.scope, reducer.revision, anchor.2, reducer.reducerProfile, reducer.logicalStateDigest⟩,
        checkpointLayout ⟨reducer.scope, reducer.revision, anchor.2, reducer.reducerProfile, reducer.logicalStateDigest⟩
          reducer.payload outcomes owners⟩ := by
  generalize metadata : (⟨reducer.scope, reducer.revision, anchor.2, reducer.reducerProfile,
    reducer.logicalStateDigest⟩ : RecoveredCheckpoint) = m
  unfold checkpointSize at fits
  have header := length_headerFields m
  have body := length_flatMap_of_const outcomes length_encodeOutcome
  have zeros : (List.replicate 8 (0 : UInt8)).length = 8 := length_replicate
  unfold captureCoordinatorCheckpoint
  rw [captured, ok_bind, require_pos _ here, ok_bind]
  dsimp only
  rw [metadata, foldlM_coordinatorExtend (by rw [header]; simp only [length_nil]; omega), ok_bind, nil_append]
  unfold coordinatorFrame
  rw [foldlM_coordinatorExtend (by rw [header]; simp; omega), ok_bind]
  generalize front : (headerFields m).flatten ++ [bigEndian 8 reducer.payload.length, reducer.payload].flatten = f
  have frontLength : f.length = 152 + reducer.payload.length := by
    rw [← front, length_append, header]
    simp
    omega
  rw [coordinatorExtend_ok (by omega), ok_bind]
  obtain ⟨_, written⟩ := captureOutcomes_ok (f ++ List.replicate 8 0) capturable.outcomeOrder capturable.past
    capturable.outcomeCount (by rw [length_append]; omega)
  rw [written, ok_bind]
  rw [require_pos _ (sorted_ids_apart capturable.transactionIds), ok_bind, patchCount_kept]
  generalize middle : f ++ bigEndian 8 outcomes.length ++ outcomes.flatMap encodeOutcome = d
  have middleLength : d.length = 160 + reducer.payload.length + outcomes.length * outcomeBytes := by
    rw [← middle, length_append, length_append, body, length_bigEndian, frontLength]
    omega
  rw [coordinatorExtend_ok (by omega), ok_bind]
  obtain ⟨_, owned⟩ := captureOwners_ok (d ++ List.replicate 8 0) capturable.ownerOrder capturable.inScope
    capturable.ownerCount (by rw [length_append]; omega)
  rw [owned, ok_bind]
  rw [patchCount_kept, ← middle, ← front, checkpointLayout]
  simp only [flatten_cons, flatten_nil, append_nil, append_assoc]
  rfl

/-! ### What a captured payload is -/

theorem foldlM_coordinatorExtend_eq {output' : List UInt8}
    (h : fields.foldlM coordinatorExtend output = .ok output') : output' = output ++ fields.flatten := by
  induction fields generalizing output with
  | nil =>
    cases h
    rw [flatten_nil, append_nil]
  | cons field fields ih =>
    obtain ⟨next, first, h⟩ := foldlM_step h
    obtain ⟨_, -, first⟩ := bind_ok first
    cases first
    rw [ih h, flatten_cons, append_assoc]

theorem captureOutcomes_eq {captured captured' : CapturedOutcomes}
    (h : outcomes.foldlM (captureOutcome revision) captured = .ok captured') :
    captured'.payload = captured.payload ++ outcomes.flatMap encodeOutcome ∧
      captured'.count = captured.count + outcomes.length := by
  induction outcomes generalizing captured with
  | nil =>
    cases h
    simp
  | cons entry outcomes ih =>
    obtain ⟨next, first, h⟩ := foldlM_step h
    obtain ⟨_, -, _, -, payload, extended, first⟩ := bind_ok₃ first
    cases first
    obtain ⟨written, counted⟩ := ih h
    rw [written, counted, foldlM_coordinatorExtend_eq extended, flatMap_cons, append_assoc, length_cons,
      Nat.add_assoc, Nat.add_comm 1]
    exact ⟨rfl, rfl⟩

theorem captureOwners_eq
    {captured captured' : CapturedOwners} (h : owners.foldlM (captureOwner scope) captured = .ok captured') :
    captured'.payload = captured.payload ++ owners.flatMap encodeOwner ∧
      captured'.count = captured.count + owners.length := by
  induction owners generalizing captured with
  | nil =>
    cases h
    simp
  | cons owner owners ih =>
    obtain ⟨next, first, h⟩ := foldlM_step h
    obtain ⟨_, -, _, -, _, -, payload, extended, first⟩ := bind_ok₄ first
    cases first
    obtain ⟨written, counted⟩ := ih h
    rw [written, counted, foldlM_coordinatorExtend_eq extended, flatMap_cons, append_assoc, length_cons,
      Nat.add_assoc, Nat.add_comm 1]
    exact ⟨rfl, rfl⟩

theorem captureCoordinatorCheckpoint_eq {S : Type} [CheckpointCodec S] {state : S} {checkpoint : CoordinatorCheckpoint}
    (h : captureCoordinatorCheckpoint state anchor outcomes owners = .ok checkpoint) :
    ∃ reducer, captureReducerCheckpoint state = .ok reducer ∧ reducer.revision = anchor.1 ∧
      checkpoint.payload = checkpointLayout checkpoint.toRecoveredCheckpoint reducer.payload outcomes owners := by
  obtain ⟨reducer, captured, _, here, header, extended, front, framed, h⟩ := bind_ok₄ h
  obtain ⟨kept, zeros, written, outcomesWritten, _, -, kept', zeros', h⟩ := bind_ok₄ h
  obtain ⟨owned, ownersWritten, h⟩ := bind_ok h
  cases h
  obtain ⟨_, -, zeros⟩ := bind_ok zeros
  obtain ⟨_, -, zeros'⟩ := bind_ok zeros'
  cases zeros
  cases zeros'
  obtain ⟨outcomesPayload, outcomesCount⟩ := captureOutcomes_eq outcomesWritten
  obtain ⟨ownersPayload, ownersCount⟩ := captureOwners_eq ownersWritten
  have middle : patchCount written.payload front.length written.count =
      front ++ bigEndian 8 outcomes.length ++ outcomes.flatMap encodeOutcome := by
    rw [outcomesPayload, outcomesCount, Nat.zero_add, patchCount_kept]
  rw [middle] at ownersPayload
  refine ⟨reducer, captured, require_ok.mp here, ?_⟩
  rw [middle, ownersPayload, ownersCount, Nat.zero_add, patchCount_kept, foldlM_coordinatorExtend_eq framed,
    foldlM_coordinatorExtend_eq extended, checkpointLayout]
  simp only [nil_append, flatten_cons, flatten_nil, append_nil, append_assoc]

/-! ### What is read back -/

namespace CoordinatorCursor

open Reader (Reads)

theorem readRevision_reads (revision : CommitRevision) : Reads readRevision (bigEndian 8 revision.value) revision := by
  have read : Reads readRevision (bigEndian 8 revision.value ++ []) revision := by
    apply Reads.bind (Reads.word revision.fits)
    rw [CommitRevision.new_value]
    exact Reads.pure revision
  rwa [append_nil] at read

variable {bytes : List UInt8}

theorem readFrame_reads (fits : bytes.length < 2 ^ 64) : Reads readFrame (bigEndian 8 bytes.length ++ bytes) bytes :=
  Reads.bind (Reads.word fits) (Reads.take rfl)

theorem readBoundedCount_reads {α : Type} {next : Nat → Reader ReplayError α} {a : α}
    {count minimum : Nat} (fits : count < 2 ^ 64) (positive : 0 < minimum) (enough : count * minimum ≤ bytes.length)
    (rest : Reads (next count) bytes a) : Reads (readBoundedCount minimum >>= next) (bigEndian 8 count ++ bytes) a := by
  intro input
  have there : count ≤ (bytes ++ input).length / minimum := by
    rw [Nat.le_div_iff_mul_le positive, length_append]
    omega
  have counted : readBoundedCount minimum (bigEndian 8 count ++ (bytes ++ input)) = (.ok count, bytes ++ input) := by
    have word : Reader.word invalid 8 (bigEndian 8 count ++ (bytes ++ input)) = (.ok count, bytes ++ input) :=
      Reads.word fits (bytes ++ input)
    unfold readBoundedCount
    simp only [Bind.bind, word, Program.read, Program.ensure, if_pos there]
    rfl
  simp only [Bind.bind, append_assoc, counted]
  exact rest input

theorem readOutcome_reads {previous : Option RetryKey} {entry : OutcomeEntry}
    (after : ∀ p ∈ previous, compare p entry.retryKey = .lt) : Reads (readOutcome previous) (encodeOutcome entry) entry := by
  obtain ⟨principal, key, transactionId, revision, requestDigest, resultDigest, expiresAt⟩ := entry
  obtain ⟨low, high, below⟩ := expiresAt.inRange
  unfold Time.minEpochSeconds at low
  unfold Time.maxEpochSeconds at high
  have nanoseconds : expiresAt.nanoseconds < 256 ^ 4 := by omega
  have instant : orError invalid (UtcInstant.new (ofSigned (expiresAt.seconds % 2 ^ 64).toNat) expiresAt.nanoseconds) =
      .ok expiresAt := by
    rw [ofSigned_emod (by omega) (by omega), orError_ok]
    exact UtcInstant.new_eq_some.mpr ⟨rfl, rfl⟩
  unfold readOutcome encodeOutcome outcomeFields signedBytes
  apply Reads.bind (Reads.array principal.bytes)
  apply Reads.bind (Reads.array key.bytes)
  apply Reads.pass after
  apply Reads.bind (Reads.array transactionId.bytes)
  apply Reads.bind (readRevision_reads revision)
  apply Reads.bind (Reads.array requestDigest)
  apply Reads.bind (Reads.array resultDigest)
  apply Reads.bind (Reads.word (by omega))
  apply Reads.bind (Reads.word nanoseconds)
  apply Reads.known instant
  exact Reads.pure _

theorem readOwner_reads {scope : NamespaceRef} {previous : Option BlobKey} {owner : BlobReference × PrincipalDigest}
    (inScope : owner.1.scope = scope) (shape : owner.1.validReferenceShape = true)
    (after : ∀ p ∈ previous, compare p owner.1.blobKey = .lt) : Reads (readOwner scope previous) (encodeOwner owner) owner := by
  obtain ⟨⟨_, id, byteLen, chunkCount, contentDigest⟩, principal⟩ := owner
  obtain rfl : _ = scope := inScope
  obtain ⟨lengthFits, countFits⟩ := BlobReference.shape_bounds shape
  unfold readOwner encodeOwner ownerFields
  apply Reads.bind (Reads.array id)
  apply Reads.bind (Reads.word lengthFits)
  apply Reads.bind (Reads.word countFits)
  apply Reads.bind (Reads.array contentDigest)
  apply Reads.bind (Reads.array principal.bytes)
  apply Reads.pass shape
  apply Reads.pass after
  exact Reads.pure _

theorem readEntries_reads {κ α : Type} [Ord κ] {entry : Option κ → Reader ReplayError α} {key : α → κ}
    {encode : α → List UInt8} {items : List α} (previous : Option κ)
    (each : ∀ item ∈ items, ∀ previous : Option κ, (∀ p ∈ previous, compare p (key item) = .lt) →
      Reads (entry previous) (encode item) item)
    (ordered : items.Pairwise fun a b => compare (key a) (key b) = .lt)
    (after : ∀ p ∈ previous, ∀ item ∈ items, compare p (key item) = .lt) :
    Reads (readEntries entry key items.length previous) (items.flatMap encode) items := by
  induction items generalizing previous with
  | nil => exact Reads.pure []
  | cons item items ih =>
    rw [pairwise_cons] at ordered
    rw [flatMap_cons]
    apply Reads.bind (each item mem_cons_self previous fun p mem => after p mem item mem_cons_self)
    have rest := ih (some (key item)) (fun later mem => each later (mem_cons_of_mem _ mem)) ordered.2
      fun p same later mem => Option.mem_some.mp same ▸ ordered.1 later mem
    rw [← append_nil (items.flatMap encode)]
    apply Reads.bind rest
    exact Reads.pure (item :: items)

end CoordinatorCursor

open Reader (Reads) in
theorem readCheckpoint_reads {S : Type} [CheckpointCodec S] (metadata : RecoveredCheckpoint) {reducer : List UInt8} {state : S}
    (verified : verifyReducerCheckpoint metadata.scope ⟨metadata.scope, metadata.revision, metadata.reducerProfile,
      metadata.logicalStateDigest, reducer⟩ = .ok state)
    (capturable : Capturable metadata.scope metadata.revision outcomes owners) (fits : reducer.length < 2 ^ 64) :
    Reads (CoordinatorCursor.readCheckpoint metadata) (checkpointLayout metadata reducer outcomes owners)
      (state, outcomes, owners) := by
  have outcomeCount := capturable.outcomeCount
  have ownerCount := capturable.ownerCount
  have outcomeLength := length_flatMap_of_const outcomes length_encodeOutcome
  have ownerLength := length_flatMap_of_const owners length_encodeOwner
  unfold maxOutcomesPerNamespace at outcomeCount
  unfold maxCommittedBlobsPerJournal at ownerCount
  unfold CoordinatorCursor.readCheckpoint checkpointLayout headerFields
  simp only [flatten_cons, flatten_nil, append_nil, append_assoc]
  have magic : coordinatorMagic.length = 8 := rfl
  apply Reads.bind (Reads.take magic)
  apply Reads.pass rfl
  apply Reads.bind (Reads.array _)
  apply Reads.bind (Reads.array _)
  apply Reads.bind (CoordinatorCursor.readRevision_reads _)
  apply Reads.bind (Reads.array _)
  apply Reads.bind (Reads.array _)
  apply Reads.bind (Reads.array _)
  apply Reads.pass ⟨rfl, rfl, rfl, rfl, rfl⟩
  rw [← append_assoc (bigEndian 8 reducer.length)]
  apply Reads.bind (CoordinatorCursor.readFrame_reads fits)
  apply Reads.known verified
  apply CoordinatorCursor.readBoundedCount_reads (by omega) (by decide)
  · rw [length_append]
    omega
  apply Reads.pass capturable.outcomeCount
  apply Reads.bind (CoordinatorCursor.readEntries_reads none
    (fun entry _ previous after => CoordinatorCursor.readOutcome_reads after) capturable.outcomeOrder (by simp))
  apply CoordinatorCursor.readBoundedCount_reads (by omega) (by decide)
  · omega
  apply Reads.pass capturable.ownerCount
  rw [← append_nil (owners.flatMap encodeOwner)]
  apply Reads.bind (CoordinatorCursor.readEntries_reads none (fun owner mem previous after =>
    CoordinatorCursor.readOwner_reads (capturable.inScope owner mem) (capturable.shape owner mem) after)
    capturable.ownerOrder (by simp))
  exact Reads.pure _

end Uste.Txn
