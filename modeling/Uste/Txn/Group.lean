import Uste.Policy.Kernel
import Uste.Storage.Ledger
import Uste.Time.Civil

/-!
The transaction group: one request, its outcome, and the instants between which a retry is
answered, as the bytes of one journal group.
-/

namespace Uste.Txn

open Types Crypto Policy Storage Std
open Time (UtcInstant)

def groupHeaderBytes : Nat := 192
def groupMajor : UInt8 := 1
def groupMinor : UInt8 := 0
def secondsPerDay : Int := 86400
def minRetentionDays : Nat := 30
def maxRetentionDays : Nat := 365
def maxRequestBytes : Nat := 16 * 1024 * 1024 - groupHeaderBytes
def maxOutcomesPerNamespace : Nat := 10000000

inductive TransactionError where
  | conflict
  | sourceChanged
  | invalidRequest
  | resourceLimit
  | unsupportedPredicate
  | cancelled
  | outcomeUnknown
  | idempotencyExpired
  | revisionExhausted
  | integrityFailure
  | retryableUnavailable
  | storage (error : StorageError)
  deriving DecidableEq, Repr

structure RetentionDays where
  days : Nat
  inRange : minRetentionDays ≤ days ∧ days ≤ maxRetentionDays

def RetentionDays.new (days : Nat) : Except TransactionError RetentionDays :=
  if h : minRetentionDays ≤ days ∧ days ≤ maxRetentionDays then .ok ⟨days, h⟩ else .error .invalidRequest

structure RetryKey where
  principal : PrincipalDigest
  key : IdempotencyKey
  deriving DecidableEq

namespace RetryKey

def bytes (k : RetryKey) : List UInt8 := k.principal.bytes.bytes ++ k.key.bytes.bytes

theorem bytes_injective (a b : RetryKey) (h : a.bytes = b.bytes) : a = b := by
  obtain ⟨hp, hk⟩ := List.append_inj h (by simp)
  have principal := PrincipalDigest.ext (Octets.ext hp)
  have key := Identity.ext (Octets.ext hk)
  cases a
  cases b
  cases principal
  cases key
  rfl

instance : Ord RetryKey := ⟨compareOn bytes⟩

instance : TransOrd RetryKey := inferInstanceAs (TransCmp (compareOn bytes))

instance : LawfulEqOrd RetryKey := lawfulEqCmp_compareOn bytes_injective

end RetryKey

structure TransactionRequest where
  principal : PrincipalDigest
  idempotencyKey : IdempotencyKey
  transactionId : TransactionId
  canonicalRequest : List UInt8
  blobInventory : Option BlobInventory
  deriving DecidableEq

def TransactionRequest.retryKey (request : TransactionRequest) : RetryKey := ⟨request.principal, request.idempotencyKey⟩

structure TransactionOutcome where
  transactionId : TransactionId
  revision : CommitRevision
  requestDigest : Octets 32
  resultDigest : Octets 32
  expiresAt : UtcInstant
  deriving DecidableEq

structure DecodedGroup where
  retryKey : RetryKey
  outcome : TransactionOutcome
  request : List UInt8
  blobInventory : Option BlobInventory

/-! ### Instants -/

def before (a b : UtcInstant) : Prop := a.seconds < b.seconds ∨ a.seconds = b.seconds ∧ a.nanoseconds < b.nanoseconds

instance (a b : UtcInstant) : Decidable (before a b) := inferInstanceAs (Decidable (_ ∨ _))

def signedBytes (n : Int) : List UInt8 := bigEndian 8 (n % 2 ^ 64).toNat

def ofSigned (word : Nat) : Int := if word < 2 ^ 63 then word else (word : Int) - 2 ^ 64

theorem ofSigned_emod {n : Int} (low : -2 ^ 63 ≤ n) (high : n < 2 ^ 63) : ofSigned (n % 2 ^ 64).toNat = n := by
  unfold ofSigned
  split <;> omega

theorem emod_ofSigned {word : Nat} (fits : word < 2 ^ 64) : (ofSigned word % 2 ^ 64).toNat = word := by
  unfold ofSigned
  split <;> omega

def expiration (acceptedAt : UtcInstant) (retention : RetentionDays) : Except TransactionError UtcInstant :=
  orError .resourceLimit (UtcInstant.new (acceptedAt.seconds + retention.days * secondsPerDay) acceptedAt.nanoseconds)

theorem expiration_ok {acceptedAt expiresAt : UtcInstant} {retention : RetentionDays}
    (h : expiration acceptedAt retention = .ok expiresAt) :
    expiresAt.seconds - acceptedAt.seconds = retention.days * secondsPerDay ∧
      expiresAt.nanoseconds = acceptedAt.nanoseconds := by
  obtain ⟨seconds, nanoseconds⟩ := UtcInstant.new_eq_some.mp (orError_ok.mp h)
  exact ⟨by omega, nanoseconds.symm⟩

/-! ### The codec -/

section Codec

variable [Primitives]

def transactionRequestDigest (request : List UInt8) (blobInventoryDigest : Octets 32) : Octets 32 :=
  if blobInventoryDigest = emptyBlobInventoryDigest then sha256 request
  else sha256 (ascii "USTE transaction request+blob inventory v1" ++ bigEndian 8 request.length ++ request ++
    blobInventoryDigest.bytes)

def encodeInstant (instant : UtcInstant) : List UInt8 := signedBytes instant.seconds ++ bigEndian 4 instant.nanoseconds

def encodeGroup (scope : NamespaceRef) (request : TransactionRequest) (acceptedAt : UtcInstant)
    (outcome : TransactionOutcome) : List UInt8 :=
  ascii "UTXN" ++ [groupMajor, groupMinor, 0, 0] ++ scope.namespaceId.bytes.bytes ++ request.principal.bytes.bytes ++
  request.idempotencyKey.bytes.bytes ++ request.transactionId.bytes.bytes ++ encodeInstant acceptedAt ++
  encodeInstant outcome.expiresAt ++ bigEndian 8 request.canonicalRequest.length ++ outcome.requestDigest.bytes ++
  outcome.resultDigest.bytes ++ List.replicate 8 0 ++ request.canonicalRequest

def readArray (n : Nat) (bytes : List UInt8) (offset : Nat) : Except TransactionError (Octets n) :=
  orError .integrityFailure (Octets.ofList? n (slice bytes offset n))

def readU64 (bytes : List UInt8) (offset : Nat) : Except TransactionError Nat := do
  let word ← readArray 8 bytes offset
  pure (ofBigEndian word.bytes)

def readInstant (bytes : List UInt8) (secondsAt nanosAt : Nat) : Except TransactionError UtcInstant := do
  let seconds ← readArray 8 bytes secondsAt
  let nanos ← readArray 4 bytes nanosAt
  orError .integrityFailure (UtcInstant.new (ofSigned (ofBigEndian seconds.bytes)) (ofBigEndian nanos.bytes))

/-- The time between acceptance and expiry is a whole number of days that can be a retention. -/
def RetentionWindow (acceptedAt expiresAt : UtcInstant) : Prop :=
  expiresAt.nanoseconds = acceptedAt.nanoseconds ∧
    minRetentionDays * secondsPerDay ≤ expiresAt.seconds - acceptedAt.seconds ∧
    expiresAt.seconds - acceptedAt.seconds ≤ maxRetentionDays * secondsPerDay ∧
    (expiresAt.seconds - acceptedAt.seconds) % secondsPerDay = 0

instance (acceptedAt expiresAt : UtcInstant) : Decidable (RetentionWindow acceptedAt expiresAt) :=
  inferInstanceAs (Decidable (_ ∧ _))

def decodeGroup (scope : NamespaceRef) (bytes : List UInt8) (revision : CommitRevision) (blobInventoryDigest : Octets 32)
    (blobInventory : Option BlobInventory) : Except TransactionError DecodedGroup := do
  require (groupHeaderBytes ≤ bytes.length ∧ slice bytes 0 4 = ascii "UTXN" ∧
    slice bytes 4 4 = [groupMajor, groupMinor, 0, 0] ∧ slice bytes 8 16 = scope.namespaceId.bytes.bytes ∧
    ∀ b ∈ slice bytes 184 8, b = 0) .integrityFailure
  require (∀ inventory ∈ blobInventory, inventory.scope = scope) .integrityFailure
  let requestLen ← readU64 bytes 112
  require (requestLen ≠ 0 ∧ requestLen ≤ maxRequestBytes ∧ groupHeaderBytes + requestLen = bytes.length) .integrityFailure
  let request := bytes.drop groupHeaderBytes
  let requestDigest ← readArray 32 bytes 120
  require (digestOf blobInventory = blobInventoryDigest ∧
    transactionRequestDigest request blobInventoryDigest = requestDigest) .integrityFailure
  let acceptedAt ← readInstant bytes 88 96
  let expiresAt ← readInstant bytes 100 108
  require (RetentionWindow acceptedAt expiresAt) .integrityFailure
  let principal ← readArray 32 bytes 24
  let idempotencyKey ← readArray 16 bytes 56
  let transactionId ← readArray 16 bytes 72
  let resultDigest ← readArray 32 bytes 152
  pure ⟨⟨⟨principal⟩, ⟨idempotencyKey⟩⟩, ⟨⟨transactionId⟩, revision, requestDigest, resultDigest, expiresAt⟩, request,
    blobInventory⟩

/-! ### Decoding what was encoded -/

section

omit [Primitives]

variable {n offset : Nat} {bytes : List UInt8}

theorem readArray_slice {a : Octets n} (h : slice bytes offset n = a.bytes) : readArray n bytes offset = .ok a := by
  rw [readArray, h, Octets.ofList?_bytes]
  rfl

theorem readArray_bigEndian {width : Nat} (h : slice bytes offset width = bigEndian width n)
    (fits : n < 256 ^ width) : ∃ a, readArray width bytes offset = .ok a ∧ ofBigEndian a.bytes = n :=
  ⟨⟨bigEndian width n, length_bigEndian width n⟩, readArray_slice h, ofBigEndian_bigEndian fits⟩

theorem readInstant_slice {secondsAt nanosAt : Nat} {instant : UtcInstant}
    (seconds : slice bytes secondsAt 8 = signedBytes instant.seconds)
    (nanos : slice bytes nanosAt 4 = bigEndian 4 instant.nanoseconds) :
    readInstant bytes secondsAt nanosAt = .ok instant := by
  obtain ⟨low, high, below⟩ := instant.inRange
  unfold Time.minEpochSeconds at low
  unfold Time.maxEpochSeconds at high
  obtain ⟨a, read, value⟩ := readArray_bigEndian seconds (by omega)
  obtain ⟨b, read', value'⟩ := readArray_bigEndian nanos (by omega)
  rw [readInstant, read, ok_bind, read', ok_bind, value, value', ofSigned_emod (by omega) (by omega), orError_ok]
  exact UtcInstant.new_eq_some.mpr ⟨rfl, rfl⟩

section

variable (scope : NamespaceRef) (request : TransactionRequest) (acceptedAt : UtcInstant) (outcome : TransactionOutcome)

include scope request acceptedAt outcome

theorem length_encodeGroup :
    (encodeGroup scope request acceptedAt outcome).length = groupHeaderBytes + request.canonicalRequest.length := by
  have magic : (ascii "UTXN").length = 4 := rfl
  simp [encodeGroup, encodeInstant, signedBytes, magic, groupHeaderBytes]
  omega

theorem encodeGroup_fields : let bytes := encodeGroup scope request acceptedAt outcome
    (slice bytes 0 4 = ascii "UTXN" ∧ slice bytes 4 4 = [groupMajor, groupMinor, 0, 0] ∧
      slice bytes 8 16 = scope.namespaceId.bytes.bytes ∧ slice bytes 184 8 = List.replicate 8 0) ∧
    (slice bytes 24 32 = request.principal.bytes.bytes ∧ slice bytes 56 16 = request.idempotencyKey.bytes.bytes ∧
      slice bytes 72 16 = request.transactionId.bytes.bytes) ∧
    (slice bytes 88 8 = signedBytes acceptedAt.seconds ∧ slice bytes 96 4 = bigEndian 4 acceptedAt.nanoseconds ∧
      slice bytes 100 8 = signedBytes outcome.expiresAt.seconds ∧
      slice bytes 108 4 = bigEndian 4 outcome.expiresAt.nanoseconds) ∧
    slice bytes 112 8 = bigEndian 8 request.canonicalRequest.length ∧
    slice bytes 120 32 = outcome.requestDigest.bytes ∧ slice bytes 152 32 = outcome.resultDigest.bytes := by
  have magic : (ascii "UTXN").length = 4 := rfl
  simp only [encodeGroup, encodeInstant, List.append_assoc]
  refine ⟨⟨slice_here magic, ?_, ?_, ?_⟩, ⟨?_, ?_, ?_⟩, ⟨?_, ?_, ?_, ?_⟩, ?_, ?_, ?_⟩
  all_goals
    simp (disch := simp [magic, signedBytes]) only [slice_skip, slice_here, magic, List.length_cons, List.length_nil,
      signedBytes, length_bigEndian, Octets.length_bytes, Nat.reduceAdd, Nat.reduceSub]

theorem drop_encodeGroup :
    (encodeGroup scope request acceptedAt outcome).drop groupHeaderBytes = request.canonicalRequest := by
  have magic : (ascii "UTXN").length = 4 := rfl
  exact List.drop_left' (by simp [encodeInstant, signedBytes, magic, groupHeaderBytes])

end

end

theorem decodeGroup_encodeGroup {scope : NamespaceRef} {request : TransactionRequest} {acceptedAt : UtcInstant}
    {outcome : TransactionOutcome} (nonempty : request.canonicalRequest ≠ [])
    (bounded : request.canonicalRequest.length ≤ maxRequestBytes)
    (inScope : ∀ inventory ∈ request.blobInventory, inventory.scope = scope) (digest : outcome.requestDigest =
      transactionRequestDigest request.canonicalRequest (digestOf request.blobInventory))
    (window : RetentionWindow acceptedAt outcome.expiresAt) (transaction : outcome.transactionId = request.transactionId) :
    decodeGroup scope (encodeGroup scope request acceptedAt outcome) outcome.revision (digestOf request.blobInventory)
      request.blobInventory =
      .ok ⟨request.retryKey, outcome, request.canonicalRequest, request.blobInventory⟩ := by
  have size := length_encodeGroup scope request acceptedAt outcome
  have rest := drop_encodeGroup scope request acceptedAt outcome
  obtain ⟨⟨magic, version, namespaceId, zero⟩, ⟨principal, key, transactionId⟩, ⟨accepted, acceptedNanos, expires,
    expiresNanos⟩, length, requestDigest, resultDigest⟩ := encodeGroup_fields scope request acceptedAt outcome
  have small : request.canonicalRequest.length < 256 ^ 8 := by
    unfold maxRequestBytes groupHeaderBytes at bounded
    omega
  obtain ⟨word, readLength, value⟩ := readArray_bigEndian length small
  have positive : request.canonicalRequest.length ≠ 0 := fun none => nonempty (List.length_eq_zero_iff.mp none)
  unfold decodeGroup
  rw [require_pos _ ⟨by omega, magic, version, namespaceId, fun b mem => List.eq_of_mem_replicate (zero ▸ mem)⟩, ok_bind,
    require_pos _ inScope, ok_bind, readU64, readLength, ok_bind, pure_bind, value,
    require_pos _ ⟨positive, bounded, size.symm⟩, ok_bind, readArray_slice requestDigest, ok_bind, rest,
    require_pos _ ⟨rfl, digest.symm⟩, ok_bind, readInstant_slice accepted acceptedNanos, ok_bind,
    readInstant_slice expires expiresNanos, ok_bind, require_pos _ window, ok_bind, readArray_slice principal, ok_bind,
    readArray_slice key, ok_bind, readArray_slice transactionId, ok_bind, readArray_slice resultDigest, ok_bind]
  obtain ⟨_, _, _, _, _⟩ := outcome
  cases transaction
  rfl

end Codec

end Uste.Txn
