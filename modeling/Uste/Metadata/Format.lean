import Uste.Foundation.Family
import Uste.Txn.Commit

/-!
The entries of the coordinator's metadata families as bytes. A decoder accepts exactly what the
encoder of the same values writes, so that an entry is known by what it decodes to.
-/

namespace Uste.Metadata

open Types Crypto Policy Storage Txn Std List
open Time (UtcInstant)

def metadataValueBytes : Nat := 48
def outcomeKeyBytes : Nat := 48
def outcomeValueBytes : Nat := 104
def transactionValueBytes : Nat := 136
def ownerKeyBytes : Nat := 16
def ownerValueBytes : Nat := 80

def metadataKey : List UInt8 := ascii "coordinator-meta-v1"

def metadataLogicalBytes : Nat := metadataKey.length + metadataValueBytes
def outcomeLogicalBytes : Nat := outcomeKeyBytes + outcomeValueBytes
def ownerLogicalBytes : Nat := ownerKeyBytes + ownerValueBytes

structure IndexEntry where
  key : List UInt8
  value : List UInt8
  deriving DecidableEq

/-! ### Words -/

def readU64 (bytes : List UInt8) (offset : Nat) : Except StorageError Nat := do
  let word ← Storage.readArray 8 bytes offset
  pure (ofBigEndian word.bytes)

def readU32 (bytes : List UInt8) (offset : Nat) : Except StorageError Nat := do
  let word ← Storage.readArray 4 bytes offset
  pure (ofBigEndian word.bytes)

def readI64 (bytes : List UInt8) (offset : Nat) : Except StorageError Int := do
  let word ← readU64 bytes offset
  pure (ofSigned word)

section Words

variable {bytes : List UInt8} {offset n : Nat}

@[simp] theorem readU64_ok : readU64 bytes offset = .ok n ↔ slice bytes offset 8 = bigEndian 8 n ∧ n < 256 ^ 8 := word_ok

@[simp] theorem readU32_ok : readU32 bytes offset = .ok n ↔ slice bytes offset 4 = bigEndian 4 n ∧ n < 256 ^ 4 := word_ok

@[simp] theorem readI64_ok {n : Int} : readI64 bytes offset = .ok n ↔ slice bytes offset 8 = signedBytes n ∧ -2 ^ 63 ≤ n ∧ n < 2 ^ 63 := by
  simp only [readI64, bind_eq_ok, readU64_ok, pure_eq_ok, signedBytes]
  constructor
  · rintro ⟨word, ⟨there, fits⟩, rfl⟩
    rw [emod_ofSigned (by omega)]
    refine ⟨there, ?_⟩
    unfold ofSigned
    split <;> omega
  · rintro ⟨there, low, high⟩
    exact ⟨_, ⟨there, by omega⟩, ofSigned_emod low high⟩

end Words

/-! ### Outcomes -/

def outcomeValue (outcome : TransactionOutcome) : List UInt8 :=
  outcome.transactionId.bytes.bytes ++ bigEndian 8 outcome.revision.value ++ outcome.requestDigest.bytes ++
  outcome.resultDigest.bytes ++ encodeInstant outcome.expiresAt ++ List.replicate 4 0

def encodeOutcome (principal : PrincipalDigest) (key : IdempotencyKey) (outcome : TransactionOutcome) : IndexEntry :=
  ⟨principal.bytes.bytes ++ key.bytes.bytes, outcomeValue outcome⟩

def decodeOutcome (key value : List UInt8) (maximumRevision : CommitRevision) :
    Except StorageError (PrincipalDigest × IdempotencyKey × TransactionOutcome) := do
  require (key.length = outcomeKeyBytes ∧ value.length = outcomeValueBytes) .integrityFailure
  let principal ← Storage.readArray 32 key 0
  let idempotencyKey ← Storage.readArray 16 key 32
  let revision ← (CommitRevision.new (← readU64 value 16)).mapError fun _ => .integrityFailure
  require (revision.value ≤ maximumRevision.value) .integrityFailure
  require (slice value 100 4 = List.replicate 4 0) .integrityFailure
  let seconds ← readI64 value 88
  let nanoseconds ← readU32 value 96
  let expiresAt ← orError .integrityFailure (UtcInstant.new seconds nanoseconds)
  let transactionId ← Storage.readArray 16 value 0
  let requestDigest ← Storage.readArray 32 value 24
  let resultDigest ← Storage.readArray 32 value 56
  pure (⟨principal⟩, ⟨idempotencyKey⟩, ⟨⟨transactionId⟩, revision, requestDigest, resultDigest, expiresAt⟩)

theorem length_outcomeValue (outcome : TransactionOutcome) : (outcomeValue outcome).length = outcomeValueBytes := by
  simp [outcomeValue, encodeInstant, signedBytes, outcomeValueBytes]

variable {key value : List UInt8} {principal : PrincipalDigest} {maximum : CommitRevision} {outcome : TransactionOutcome}

theorem decodeOutcome_ok {idempotencyKey : IdempotencyKey} :
    decodeOutcome key value maximum = .ok (principal, idempotencyKey, outcome) ↔
      ⟨key, value⟩ = encodeOutcome principal idempotencyKey outcome ∧ outcome.revision.value ≤ maximum.value := by
  obtain ⟨⟨_⟩, revision, _, _, expiresAt⟩ := outcome
  obtain ⟨_⟩ := principal
  obtain ⟨_⟩ := idempotencyKey
  have fits := revision.fits
  obtain ⟨low, high, nanos⟩ := expiresAt.inRange
  unfold Time.minEpochSeconds at low
  unfold Time.maxEpochSeconds at high
  simp [decodeOutcome, UtcInstant.new_eq_some, encodeOutcome, outcomeValue, encodeInstant, signedBytes, eq_append_iff, slice_drop,
    drop_eq_iff]
  simp only [outcomeKeyBytes, outcomeValueBytes]
  constructor
  · rintro ⟨lengths, h⟩
    simp [h, lengths]
  · rintro ⟨h, below⟩
    simp [h, below]
    omega

/-! ### Transactions -/

def transactionValue (principal : PrincipalDigest) (outcome : TransactionOutcome) : List UInt8 :=
  principal.bytes.bytes ++ outcomeValue outcome

/-- The key of a retry stands for the principal alone here. -/
def decodeTransaction (value : List UInt8) (maximumRevision : CommitRevision) :
    Except StorageError (PrincipalDigest × TransactionOutcome) := do
  require (value.length = transactionValueBytes) .integrityFailure
  let (principal, _, outcome) ← decodeOutcome (slice value 0 32 ++ List.replicate 16 0) (value.drop 32) maximumRevision
  pure (principal, outcome)

theorem decodeTransaction_ok : decodeTransaction value maximum = .ok (principal, outcome) ↔
      value = transactionValue principal outcome ∧ outcome.revision.value ≤ maximum.value := by
  simp only [decodeTransaction, bind_eq_ok, require_ok, exists_const, Prod.exists, decodeOutcome_ok, encodeOutcome, IndexEntry.mk.injEq,
    pure_eq_ok, Prod.mk.injEq, transactionValue]
  rw [eq_append_iff, Octets.length_bytes]
  constructor
  · rintro ⟨length, _, _, _, ⟨⟨key, rest⟩, below⟩, rfl, rfl⟩
    have long : (slice value 0 32).length = 32 := length_slice (by rw [length]; decide)
    exact ⟨⟨(append_inj key (by rw [long, Octets.length_bytes])).1, rest⟩, below⟩
  · rintro ⟨⟨head, rest⟩, below⟩
    have length : value.length = transactionValueBytes := by
      have short := congrArg List.length rest
      rw [length_drop, length_outcomeValue, outcomeValueBytes] at short
      rw [transactionValueBytes]
      omega
    exact ⟨length, principal, ⟨Octets.zero 16⟩, outcome, ⟨⟨congrArg (· ++ _) head, rest⟩, below⟩, rfl, rfl⟩

/-! ### First owners -/

def ownerValue (reference : BlobReference) (principal : PrincipalDigest) : List UInt8 :=
  [1, 0, 0, 0] ++ bigEndian 8 reference.byteLen ++ bigEndian 4 reference.chunkCount ++ reference.contentDigest.bytes ++
  principal.bytes.bytes

def encodeOwner (reference : BlobReference) (principal : PrincipalDigest) : IndexEntry :=
  ⟨reference.id.bytes, ownerValue reference principal⟩

def decodeOwner (scope : NamespaceRef) (key value : List UInt8) : Except StorageError (BlobReference × PrincipalDigest) := do
  require (key.length = ownerKeyBytes ∧ value.length = ownerValueBytes) .integrityFailure
  require (slice value 0 4 = [1, 0, 0, 0]) .integrityFailure
  let id ← Storage.readArray 16 key 0
  let byteLen ← readU64 value 4
  let chunkCount ← readU32 value 12
  let contentDigest ← Storage.readArray 32 value 16
  let reference : BlobReference := ⟨scope, id, byteLen, chunkCount, contentDigest⟩
  require (reference.validReferenceShape = true) .integrityFailure
  let principal ← Storage.readArray 32 value 48
  pure (reference, ⟨principal⟩)

variable {reference : BlobReference}

theorem decodeOwner_ok {scope : NamespaceRef} : decodeOwner scope key value = .ok (reference, principal) ↔
      ⟨key, value⟩ = encodeOwner reference principal ∧ reference.scope = scope ∧ reference.validReferenceShape = true := by
  have fits := @BlobReference.shape_bounds reference
  obtain ⟨_, id, _, _, _⟩ := reference
  obtain ⟨_⟩ := principal
  rw [encodeOwner, ownerValue, IndexEntry.mk.injEq, eq_iff_slice (f := id.bytes)]
  simp only [append_assoc]
  simp [↓eq_append_iff, slice_drop, drop_eq_iff, decodeOwner]
  simp only [ownerKeyBytes, ownerValueBytes]
  grind

/-! ### First revisions -/

def decodeFirstReference (key value : List UInt8) (frontier : CommitRevision) : Except StorageError CommitRevision := do
  require (key.length = 16 ∧ value.length = 8) .integrityFailure
  let revision ← (CommitRevision.new (← readU64 value 0)).mapError fun _ => .integrityFailure
  require (revision.value ≤ frontier.value) .integrityFailure
  pure revision

variable {revision : CommitRevision}

theorem decodeFirstReference_ok {frontier : CommitRevision} : decodeFirstReference key value frontier = .ok revision ↔
      key.length = 16 ∧ value = bigEndian 8 revision.value ∧ revision.value ≤ frontier.value := by
  have fits := revision.fits
  rw [eq_iff_slice (f := bigEndian 8 revision.value)]
  simp [decodeFirstReference]
  grind

/-! ### The head of a metadata root -/

structure MetadataHead where
  outcomes : Nat
  owners : Nat
  outcomeLogicalBytes : Nat
  ownerLogicalBytes : Nat
  deriving DecidableEq

def metadataValue (revision : CommitRevision) (outcomes owners : Nat) : List UInt8 :=
  ascii "UCMD" ++ [1, 0, 0, 0] ++ bigEndian 8 revision.value ++ bigEndian 8 outcomes ++ bigEndian 8 owners ++
  bigEndian 8 (outcomes * outcomeLogicalBytes) ++ bigEndian 8 (owners * ownerLogicalBytes)

def parseMetadata (value : List UInt8) (revision : CommitRevision) : Except StorageError MetadataHead := do
  require (value.length = metadataValueBytes ∧ slice value 0 4 = ascii "UCMD" ∧ slice value 4 4 = [1, 0, 0, 0])
    .integrityFailure
  require ((← readU64 value 8) = revision.value) .integrityFailure
  let outcomes ← readU64 value 16
  let owners ← readU64 value 24
  let outcomeLogicalBytes ← readU64 value 32
  let ownerLogicalBytes ← readU64 value 40
  pure ⟨outcomes, owners, outcomeLogicalBytes, ownerLogicalBytes⟩

theorem parseMetadata_ok {outcomes owners : Nat}
    (small : outcomes * outcomeLogicalBytes < 2 ^ 64 ∧ owners * ownerLogicalBytes < 2 ^ 64) :
    parseMetadata value revision =
        .ok ⟨outcomes, owners, outcomes * outcomeLogicalBytes, owners * ownerLogicalBytes⟩ ↔
      value = metadataValue revision outcomes owners := by
  have magic : (ascii "UCMD").length = 4 := rfl
  have fits := revision.fits
  simp only [metadataValue, append_assoc]
  simp [↓eq_append_iff, slice_drop, drop_eq_iff, magic, parseMetadata]
  simp only [metadataValueBytes, outcomeLogicalBytes, outcomeKeyBytes, outcomeValueBytes, ownerLogicalBytes, ownerKeyBytes, ownerValueBytes]
    at small ⊢
  grind

end Uste.Metadata
