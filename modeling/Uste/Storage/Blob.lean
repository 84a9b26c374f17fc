import Uste.Storage.Adapter
import Uste.Crypto.Vault

/-!
Blob references, the canonical inventories a commit binds, and the check that every chunk of a
reference is there and has the digest the reference names.
-/

namespace Uste.Storage

open Types Crypto Program FileSystem Std

def blobChunkBytes : Nat := 1024 * 1024
def maxBlobBytes : Nat := 16 * 1024 * 1024 * 1024
def maxBlobsPerInventory : Nat := 100000
def maxCommittedBlobsPerJournal : Nat := 1000000
def maxBlobReferenceBindingsPerJournal : Nat := 10000000
def maxNamespaceBlobBytes : Nat := 1024 * 1024 * 1024 * 1024
def inventoryHeaderBytes : Nat := 32
def inventoryEntryBytes : Nat := 64
def blobFormatMajor : UInt8 := 1
def blobFormatMinor : UInt8 := 0
def maxEncodedChunkBytes : Nat := blobChunkBytes + 64 * 1024 + headerBytes + 16

def emptyBlobInventoryDigest : Octets 32 where
  bytes := [
    0xe3, 0xb0, 0xc4, 0x42, 0x98, 0xfc, 0x1c, 0x14, 0x9a, 0xfb, 0xf4, 0xc8, 0x99, 0x6f, 0xb9, 0x24,
    0x27, 0xae, 0x41, 0xe4, 0x64, 0x9b, 0x93, 0x4c, 0xa4, 0x95, 0x99, 0x1b, 0x78, 0x52, 0xb8, 0x55]
  length_bytes := rfl

inductive StorageError where
  | adapter (kind : AdapterErrorKind)
  | crypto (error : CryptoError)
  | integrityFailure
  | unsupportedProfile
  | resourceLimit
  | invalidState
  | needsRecovery
  | revisionExhausted
  deriving DecidableEq, Repr

abbrev BlobId := Octets 16

structure BlobReference where
  scope : NamespaceRef
  id : BlobId
  byteLen : Nat
  chunkCount : Nat
  contentDigest : Octets 32
  deriving DecidableEq

namespace BlobReference

def validReferenceShape (reference : BlobReference) : Bool :=
  if reference.byteLen > maxBlobBytes ∨ reference.id = Octets.zero 16 then false
  else reference.chunkCount = if reference.byteLen = 0 then 0 else (reference.byteLen - 1) / blobChunkBytes + 1

end BlobReference

def readArray (n : Nat) (bytes : List UInt8) (offset : Nat) : Except StorageError (Octets n) :=
  orError .integrityFailure (Octets.ofList? n (slice bytes offset n))

/-- References of one scope, of a valid shape, in strictly increasing order of their identity. -/
structure InventoryOf (scope : NamespaceRef) (references : List BlobReference) : Prop where
  bounded : references.length ≤ maxBlobsPerInventory
  shape : ∀ r ∈ references, r.scope = scope ∧ r.validReferenceShape = true
  sorted : references.Pairwise fun a b => compare a.id b.id = .lt

structure BlobInventory where
  scope : NamespaceRef
  references : List BlobReference
  valid : InventoryOf scope references
  deriving DecidableEq

def encodeReference (reference : BlobReference) : List UInt8 :=
  reference.id.bytes ++ bigEndian 8 reference.byteLen ++ bigEndian 4 reference.chunkCount ++ List.replicate 4 0 ++
  reference.contentDigest.bytes

def encodeInventory (scope : NamespaceRef) (references : List BlobReference) : List UInt8 :=
  ascii "UBIN" ++ [blobFormatMajor, blobFormatMinor, 0, 0] ++ scope.namespaceId.bytes.bytes ++
  bigEndian 4 references.length ++ List.replicate 4 0 ++ references.flatMap encodeReference

def decodeReference (scope : NamespaceRef) (bytes : List UInt8) : Except StorageError BlobReference := do
  require (∀ b ∈ slice bytes 28 4, b = 0) .integrityFailure
  let id ← readArray 16 bytes 0
  let byteLen ← readArray 8 bytes 16
  let chunkCount ← readArray 4 bytes 24
  let contentDigest ← readArray 32 bytes 32
  pure ⟨scope, id, ofBigEndian byteLen.bytes, ofBigEndian chunkCount.bytes, contentDigest⟩

/-- The entries of an inventory, one after the other; `previous` is the identity before. -/
def decodeReferences (scope : NamespaceRef) :
    (count : Nat) → (previous : Option BlobId) → List UInt8 → Except StorageError (List BlobReference)
  | 0, _, _ => .ok []
  | count + 1, previous, bytes => do
    let reference ← decodeReference scope bytes
    require (reference.validReferenceShape = true ∧ ∀ p ∈ previous, compare p reference.id = .lt) .integrityFailure
    let rest ← decodeReferences scope count (some reference.id) (bytes.drop inventoryEntryBytes)
    pure (reference :: rest)

theorem decodeReferences_valid {scope : NamespaceRef} {count : Nat} {previous : Option BlobId} {bytes : List UInt8}
    {references : List BlobReference} (h : decodeReferences scope count previous bytes = .ok references) :
    references.length = count ∧ (∀ r ∈ references, r.scope = scope ∧ r.validReferenceShape = true) ∧
    (references.Pairwise fun a b => compare a.id b.id = .lt) ∧
    ∀ p ∈ previous, ∀ r ∈ references, compare p r.id = .lt := by
  induction count generalizing previous bytes references with
  | zero =>
    cases h
    simp
  | succ count ih =>
    obtain ⟨reference, decoded, _, accepted, rest, decodedRest, h⟩ := bind_ok₃ h
    obtain ⟨shape, after⟩ := require_ok.mp accepted
    obtain ⟨count_eq, shapes, sorted, later⟩ := ih decodedRest
    cases h
    have inScope : reference.scope = scope := by
      obtain ⟨_, -, _, -, _, -, _, -, decoded⟩ := bind_ok₄ decoded
      obtain ⟨_, -, decoded⟩ := bind_ok decoded
      cases decoded
      rfl
    have above : ∀ r ∈ rest, compare reference.id r.id = .lt := later reference.id rfl
    refine ⟨by simp [count_eq], ?_, List.pairwise_cons.mpr ⟨above, sorted⟩, ?_⟩
    · intro r mem
      rcases List.mem_cons.mp mem with rfl | mem
      · exact ⟨inScope, shape⟩
      · exact shapes r mem
    · intro p before r mem
      rcases List.mem_cons.mp mem with rfl | mem
      · exact after p before
      · exact TransCmp.lt_trans (after p before) (above r mem)

namespace BlobInventory

/-- The references of one scope, put in order; an identity stands only once. -/
def new (scope : NamespaceRef) (references : List BlobReference) : Except StorageError BlobInventory :=
  if bounded : references.length ≤ maxBlobsPerInventory then
    let sorted := references.insertionSort fun a b => (compare a.id b.id).isLE
    if valid : (∀ r ∈ sorted, r.scope = scope ∧ r.validReferenceShape = true) ∧
        sorted.Pairwise fun a b => compare a.id b.id = .lt then
      .ok ⟨scope, sorted, by rw [List.length_insertionSort]; exact bounded, valid.1, valid.2⟩
    else .error .invalidState
  else .error .resourceLimit

theorem new_singleton_ok {scope : NamespaceRef} {reference : BlobReference} {inventory : BlobInventory}
    (h : new scope [reference] = .ok inventory) : inventory.scope = scope ∧ inventory.references = [reference] := by
  unfold new at h
  split at h
  · dsimp only at h
    split at h
    · cases h
      exact ⟨rfl, rfl⟩
    · cases h
  · cases h

def encoded (inventory : BlobInventory) : List UInt8 :=
  if inventory.references = [] then [] else encodeInventory inventory.scope inventory.references

def digest [Primitives] (inventory : BlobInventory) : Octets 32 := sha256 inventory.encoded

def isEmpty (inventory : BlobInventory) : Bool := inventory.references.isEmpty

theorem ext {a b : BlobInventory} (scope : a.scope = b.scope) (references : a.references = b.references) : a = b := by
  cases a
  cases b
  cases scope
  cases references
  rfl

instance : DecidableEq BlobInventory := fun a b =>
  if h : a.scope = b.scope ∧ a.references = b.references then isTrue (ext h.1 h.2)
  else isFalse fun same => h ⟨congrArg scope same, congrArg references same⟩

def decodeEntries (scope : NamespaceRef) (count : Nat) (bounded : count ≤ maxBlobsPerInventory) (bytes : List UInt8) :
    Except StorageError BlobInventory :=
  match decoded : decodeReferences scope count none bytes with
  | .error e => .error e
  | .ok references =>
    have valid := decodeReferences_valid decoded
    .ok ⟨scope, references, valid.1 ▸ bounded, valid.2.1, valid.2.2.1⟩

/-- The bound on the count is checked before the scope is read. -/
def decode (database : DatabaseId) (bytes : List UInt8) : Except StorageError BlobInventory := do
  require (inventoryHeaderBytes ≤ bytes.length ∧ slice bytes 0 4 = ascii "UBIN" ∧
    slice bytes 4 4 = [blobFormatMajor, blobFormatMinor, 0, 0] ∧ ∀ b ∈ slice bytes 28 4, b = 0) .integrityFailure
  let count := ofBigEndian (slice bytes 24 4)
  if bounded : count ≠ 0 ∧ count ≤ maxBlobsPerInventory ∧
      bytes.length = inventoryHeaderBytes + count * inventoryEntryBytes then
    let namespaceId ← readArray 16 bytes 8
    decodeEntries ⟨database, ⟨namespaceId⟩⟩ count bounded.2.1 (bytes.drop inventoryHeaderBytes)
  else .error .integrityFailure

end BlobInventory

/-! ### Names and contexts -/

def taggedName (tag : UInt8) (letter : 97 ≤ tag.toNat) (bytes : List UInt8) (short : bytes.length ≤ 64) : EntryName :=
  EntryName.ofTag tag (45 :: hex bytes) letter (by simp [maxEntryNameBytes]; omega) (by
    intro b mem
    rcases List.mem_cons.mp mem with rfl | mem
    · decide
    · have digits := hex_alphanumeric mem
      refine ⟨by omega, ?_⟩
      rintro rfl
      exact absurd digits.1 (by decide))

def finalChunkName (blob : BlobId) (chunk : Nat) : EntryName :=
  EntryName.ofTag 98 (45 :: hex blob.bytes ++ 45 :: hex (bigEndian 4 chunk)) (by decide)
    (by simp [maxEntryNameBytes]) (by
      intro b mem
      simp only [List.cons_append, List.mem_cons, List.mem_append] at mem
      have digits : ∀ bytes : List UInt8, b ∈ hex bytes → 45 ≤ b.toNat ∧ b ≠ 47 := by
        intro bytes mem
        have digits := hex_alphanumeric mem
        refine ⟨by omega, ?_⟩
        rintro rfl
        exact absurd digits.1 (by decide)
      rcases mem with rfl | mem | rfl | mem
      · decide
      · exact digits _ mem
      · decide
      · exact digits _ mem)

def inventoryContext (database : DatabaseId) (epoch : KeyEpoch) (writer : Octets 16) (digest : Octets 32) :
    CryptoContext where
  database := database
  scope := .database
  epoch := epoch
  role := .blobInventory
  object := ⟨digest.bytes.take 16, by simp⟩
  sequence := 0
  writer := writer
  objectFormatMajor := blobFormatMajor
  objectFormatMinor := blobFormatMinor
  frame := .small4KiB

def inventoryNameContext (database : DatabaseId) (epoch : KeyEpoch) (writer : Octets 16) : CryptoContext where
  database := database
  scope := .database
  epoch := epoch
  role := .blobInventoryName
  object := Octets.zero 16
  sequence := 0
  writer := writer
  objectFormatMajor := blobFormatMajor
  objectFormatMinor := blobFormatMinor
  frame := .small4KiB

def chunkContext (scope : NamespaceRef) (epoch : KeyEpoch) (writer : Octets 16) (blob : BlobId) (chunk : Nat) :
    CryptoContext where
  database := scope.database
  scope := .namespace scope.namespaceId
  epoch := epoch
  role := .blobChunk
  object := blob
  sequence := chunk
  writer := writer
  objectFormatMajor := blobFormatMajor
  objectFormatMinor := blobFormatMinor
  frame := .blob64KiB

section

variable {F W E : Type} {H : Handles} [FileSystem F H] [Primitives]

theorem inventory_letter : 97 ≤ (105 : UInt8).toNat := by decide

def inventoryName (vault : KeyVault W E) (database : DatabaseId) (epoch : KeyEpoch) (writer : Octets 16)
    (digest : Octets 32) : Except StorageError EntryName := do
  let token ← (vault.deriveOpaqueIdentifier (inventoryNameContext database epoch writer) digest).mapError .crypto
  pure (taggedName 105 inventory_letter token.bytes (by simp))

def decryptChunk (vault : KeyVault W E) (epoch : KeyEpoch) (writer : Octets 16) (file : H.File)
    (scope : NamespaceRef) (blob : BlobId) (chunk : Nat) : Program F StorageError (List UInt8) := do
  let length ← mapError .adapter (metadata file)
  ensure (length ≠ 0 ∧ length ≤ maxEncodedChunkBytes) .integrityFailure
  let encoded ← mapError .adapter (readExactAt file 0 length)
  let envelope ← lift (fun _ => .integrityFailure) (EncryptedEnvelope.decode encoded)
  lift (fun _ => .integrityFailure) (vault.decrypt (chunkContext scope epoch writer blob chunk) envelope)

def expectedChunkLen (reference : BlobReference) (chunk : Nat) : Except StorageError Nat := do
  require (chunk < reference.chunkCount) .integrityFailure
  pure (min (reference.byteLen - chunk * blobChunkBytes) blobChunkBytes)

/-- One round of `verify_reference`: the content hashed so far, and its length. -/
def verifyChunk (directory : H.Directory) (vault : KeyVault W E) (epoch : KeyEpoch) (writer : Octets 16)
    (reference : BlobReference) (hashed : List UInt8 × Nat) (chunk : Nat) :
    Program F StorageError (List UInt8 × Nat) := do
  let file ← mapError (fun _ => .integrityFailure) (openExisting directory (finalChunkName reference.id chunk))
  let plaintext ← decryptChunk vault epoch writer file reference.scope reference.id chunk
  let expected ← lift id (expectedChunkLen reference chunk)
  ensure (plaintext.length = expected) .integrityFailure
  ensure (hashed.2 + plaintext.length < wordLimit) .resourceLimit
  pure (hashed.1 ++ plaintext, hashed.2 + plaintext.length)

def verifyReference (directory : H.Directory) (vault : KeyVault W E) (database : DatabaseId) (epoch : KeyEpoch)
    (writer : Octets 16) (reference : BlobReference) : Program F StorageError Unit := do
  ensure (reference.scope.database = database ∧ reference.validReferenceShape = true) .integrityFailure
  let hashed ← (List.range reference.chunkCount).foldlM (verifyChunk directory vault epoch writer reference) ([], 0)
  ensure (hashed.2 = reference.byteLen ∧ sha256 hashed.1 = reference.contentDigest) .integrityFailure

/-- The loop of `read_range`. Every round copies a byte, so with as many rounds as bytes wanted the branch for none left
is only reached when it is done. -/
def readRangeLoop (directory : H.Directory) (vault : KeyVault W E) (epoch : KeyEpoch) (writer : Octets 16)
    (reference : BlobReference) (wanted : Nat) :
    (rounds copied position : Nat) → List UInt8 → Program F StorageError (Nat × List UInt8)
  | 0, copied, _, output => if copied < wanted then fail .invalidState else pure (copied, output)
  | rounds + 1, copied, position, output =>
    if copied < wanted then do
      let chunk := position / blobChunkBytes
      let within := position % blobChunkBytes
      ensure (chunk < 2 ^ 32) .resourceLimit
      let file ← mapError (fun _ => .integrityFailure) (openExisting directory (finalChunkName reference.id chunk))
      let plaintext ← decryptChunk vault epoch writer file reference.scope reference.id chunk
      let expected ← lift id (expectedChunkLen reference chunk)
      ensure (plaintext.length = expected ∧ within < plaintext.length) .integrityFailure
      let take := min (wanted - copied) (plaintext.length - within)
      ensure (position + take < wordLimit) .resourceLimit
      readRangeLoop directory vault epoch writer reference wanted rounds (copied + take) (position + take)
        (output.take copied ++ slice plaintext within take ++ output.drop (copied + take))
    else pure (copied, output)

def readRange (directory : H.Directory) (vault : KeyVault W E) (epoch : KeyEpoch) (writer : Octets 16)
    (reference : BlobReference) (offset : Nat) (output : List UInt8) : Program F StorageError (Nat × List UInt8) := do
  ensure (output.length ≤ blobChunkBytes ∧ offset ≤ reference.byteLen) .resourceLimit
  let wanted := min (reference.byteLen - offset) output.length
  readRangeLoop directory vault epoch writer reference wanted wanted 0 offset output

end

end Uste.Storage
