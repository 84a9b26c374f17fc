import Uste.Storage.JournalFormat

/-!
The journal of one database: an encrypted group per commit in bounded segments, and after each
group a certificate in the certificate log, which alone makes the commit durable. The store keeps
the frontier in memory; opening rebuilds it from the files.
-/

namespace Uste.Storage

open Types Crypto Program FileSystem Std

class DurableKeyEnvelope (W : Type) where
  encodeDurable : W → Except CryptoError (List UInt8)
  decodeDurable : List UInt8 → Except CryptoError W

structure CreationOptions where
  database : DatabaseId
  finalName : EntryName

structure CommitInput where
  encodedGroup : List UInt8
  logicalEventDigest : Octets 32

structure DurableCommit where
  revision : CommitRevision
  certificateDigest : Octets 32
  deriving DecidableEq

structure RecoveredGroup where
  revision : CommitRevision
  certificateDigest : Octets 32
  encodedGroup : List UInt8
  blobInventoryDigest : Octets 32
  blobInventory : Option BlobInventory
  logicalEventDigest : Octets 32
  deriving DecidableEq

structure RecoveryReport where
  frontier : Option CommitRevision
  certificateDigest : Octets 32
  repairedCertificateTailBytes : Nat
  ignoredUncommittedJournalBytes : Nat

structure CertificateAnchorReadLimits where
  maximumCertificates : Nat
  maximumEncodedBytes : Nat

structure BlobKey where
  scope : NamespaceRef
  id : BlobId
  deriving DecidableEq

namespace BlobKey

def bytes (key : BlobKey) : List UInt8 := key.scope.key ++ key.id.bytes

theorem bytes_injective (a b : BlobKey) (h : a.bytes = b.bytes) : a = b := by
  obtain ⟨scope, id⟩ := List.append_inj h (by simp)
  cases a
  cases b
  cases NamespaceRef.key_injective _ _ scope
  cases Octets.ext id
  rfl

instance : Ord BlobKey := ⟨compareOn bytes⟩

instance : TransOrd BlobKey := inferInstanceAs (TransCmp (compareOn bytes))

instance : LawfulEqOrd BlobKey := lawfulEqCmp_compareOn bytes_injective

end BlobKey

abbrev CommittedBlobs := ExtTreeMap BlobKey BlobReference
abbrev CommittedBlobBytes := ExtTreeMap NamespaceRef Nat

structure JournalStore (H : Handles) (W E I : Type) where
  database : DatabaseId
  epoch : KeyEpoch
  writer : Octets 16
  certificateLogId : Octets 16
  databaseDirectory : H.Directory
  certificateFile : H.File
  currentSegmentId : Octets 16
  currentSegmentFile : H.File
  currentSegmentOffset : Nat
  frontier : Option CommitRevision
  previousCertificateDigest : Octets 32
  certificateAnchors : ExtTreeMap CommitRevision (Octets 32)
  certificateReadLimits : Option CertificateAnchorReadLimits
  committedBlobInventories : ExtTreeSet (Octets 32)
  committedBlobs : CommittedBlobs
  committedBlobBytes : CommittedBlobBytes
  committedBlobReferenceBindings : Nat
  poisoned : Bool
  vault : KeyVault W E
  identityEntropy : I
  ownership : H.Guard

/-! ### Helpers -/

def checked (e : StorageError) (n : Nat) : Except StorageError Nat := do
  require (n < wordLimit) e
  pure n

def recoveryAdapterError : AdapterErrorKind → StorageError
  | .notFound => .integrityFailure
  | .unexpectedEof => .integrityFailure
  | .wrongEntryType => .integrityFailure
  | kind => .adapter kind

def recoveryCryptoError : CryptoError → StorageError
  | .unsupportedProfile => .unsupportedProfile
  | .resourceLimit => .resourceLimit
  | _ => .integrityFailure

def committedCryptoError (_ : CryptoError) : StorageError := .integrityFailure

def certificateOffset (sequence : Nat) : Except StorageError Nat := do
  let before ← checked .resourceLimit ((sequence - 1) * smallEnvelopeBytes)
  checked .resourceLimit (smallEnvelopeBytes + before)

def randomNonzeroIdLoop {I : Type} [EntropySource I] : (attempts : Nat) → Program I StorageError (Octets 16)
  | 0 => fail (.crypto .integrityFailure)
  | attempts + 1 => do
    let entropy ← read
    let filled := EntropySource.fill 16 entropy
    update fun _ => filled.2
    let bytes ← lift id (orError (.crypto .retryableUnavailable) filled.1)
    if bytes ≠ Octets.zero 16 then pure bytes else randomNonzeroIdLoop attempts

def randomNonzeroId {I : Type} [EntropySource I] : Program I StorageError (Octets 16) :=
  randomNonzeroIdLoop randomAttempts

def checkUniqueBlobLimit (count : Nat) : Except StorageError Unit :=
  require (count ≤ maxCommittedBlobsPerJournal) .resourceLimit

def checkBlobReferenceBindingLimit (count : Nat) : Except StorageError Unit :=
  require (count ≤ maxBlobReferenceBindingsPerJournal) .resourceLimit

def checkNamespaceBlobByteLimit (bytes : Nat) : Except StorageError Unit :=
  require (bytes ≤ maxNamespaceBlobBytes) .resourceLimit

def BlobReference.blobKey (reference : BlobReference) : BlobKey := ⟨reference.scope, reference.id⟩

/-- What `check_blob_capacity` has projected so far. -/
structure Projection where
  count : Nat
  additions : ExtTreeMap NamespaceRef Nat
  newKeys : ExtTreeSet BlobKey

def projectReference (committedBlobs : CommittedBlobs) (projection : Projection) (reference : BlobReference) :
    Except StorageError Projection :=
  match committedBlobs[reference.blobKey]? with
  | some existing => do
    require (existing = reference) .integrityFailure
    pure projection
  | none => do
    require (reference.blobKey ∉ projection.newKeys) .integrityFailure
    let count ← checked .resourceLimit (projection.count + 1)
    checkUniqueBlobLimit count
    let addition ← checked .resourceLimit (projection.additions.getD reference.scope 0 + reference.byteLen)
    pure ⟨count, projection.additions.insert reference.scope addition, projection.newKeys.insert reference.blobKey⟩

def checkBlobCapacity (committedBlobs : CommittedBlobs) (committedBlobBytes : CommittedBlobBytes)
    (references : List BlobReference) : Except StorageError Unit := do
  let projection ← references.foldlM (projectReference committedBlobs) ⟨committedBlobs.size, ∅, ∅⟩
  projection.additions.toList.forM fun (scope, addition) => do
    let projected ← checked .resourceLimit (committedBlobBytes.getD scope 0 + addition)
    checkNamespaceBlobByteLimit projected

def registerCommittedBlob (committed : CommittedBlobs × CommittedBlobBytes) (reference : BlobReference) :
    Except StorageError (CommittedBlobs × CommittedBlobBytes) :=
  match committed.1[reference.blobKey]? with
  | some existing => do
    require (existing = reference) .integrityFailure
    pure committed
  | none => do
    let count ← checked .resourceLimit (committed.1.size + 1)
    checkUniqueBlobLimit count
    let projected ← checked .resourceLimit (committed.2.getD reference.scope 0 + reference.byteLen)
    checkNamespaceBlobByteLimit projected
    pure (committed.1.insert reference.blobKey reference, committed.2.insert reference.scope projected)

def verifyCertificateHeader {W E : Type} [Primitives] (vault : KeyVault W E) (database : DatabaseId) (epoch : KeyEpoch)
    (logId writer : Octets 16) (encoded : List UInt8) : Except StorageError Unit := do
  let envelope ← (EncryptedEnvelope.decode encoded).mapError committedCryptoError
  let plaintext ← (vault.decrypt (certificateContext database epoch logId writer 0) envelope).mapError
    committedCryptoError
  require (plaintext = certificateHeader database logId writer) .integrityFailure

def decodeCertificate {W E : Type} [Primitives] (vault : KeyVault W E) (database : DatabaseId) (epoch : KeyEpoch)
    (logId writer : Octets 16) (revision : CommitRevision) (encoded : List UInt8) : Except StorageError Certificate := do
  let envelope ← (EncryptedEnvelope.decode encoded).mapError committedCryptoError
  let plaintext ← (vault.decrypt (certificateContext database epoch logId writer revision.value) envelope).mapError
    committedCryptoError
  Certificate.decode plaintext

section Files

variable {F W E : Type} {H : Handles} [FileSystem F H] [Primitives]

def readBounded (file : H.File) (offset length : Nat) : Program F StorageError (List UInt8) :=
  mapError recoveryAdapterError (readExactAt file offset length)

def requireExactLen (file : H.File) (expected : Nat) : Program F StorageError Unit := do
  let length ← mapError .adapter (metadata file)
  ensure (length = expected) .integrityFailure

def verifySegmentHeader (vault : KeyVault W E) (file : H.File) (database : DatabaseId) (epoch : KeyEpoch)
    (segmentId writer : Octets 16) : Program F StorageError SegmentHeader := do
  let length ← mapError .adapter (metadata file)
  ensure (smallEnvelopeBytes ≤ length ∧ length ≤ journalSegmentLimit) .integrityFailure
  let encoded ← readBounded file 0 smallEnvelopeBytes
  let envelope ← lift committedCryptoError (EncryptedEnvelope.decode encoded)
  let plaintext ← lift committedCryptoError (vault.decrypt (segmentContext database epoch segmentId writer 0) envelope)
  let header ← lift id (SegmentHeader.decode plaintext)
  ensure (header.database = database ∧ header.segmentId = segmentId ∧ header.writer = writer) .integrityFailure
  pure header

def loadBlobInventory (vault : KeyVault W E) (directory : H.Directory) (database : DatabaseId) (epoch : KeyEpoch)
    (writer : Octets 16) (digest : Octets 32) (verifyBlobs : Bool) : Program F StorageError BlobInventory := do
  ensure (digest ≠ emptyBlobInventoryDigest) .integrityFailure
  let name ← lift id (inventoryName vault database epoch writer digest)
  let file ← mapError (fun _ => .integrityFailure) (openExisting directory name)
  let length ← mapError .adapter (metadata file)
  ensure (length ≠ 0 ∧ length ≤ maxEncodedBlobInventoryBytes) .integrityFailure
  let encoded ← readBounded file 0 length
  let envelope ← lift committedCryptoError (EncryptedEnvelope.decode encoded)
  let plaintext ← lift committedCryptoError (vault.decrypt (inventoryContext database epoch writer digest) envelope)
  let inventory ← lift id (BlobInventory.decode database plaintext)
  ensure (inventory.digest = digest) .integrityFailure
  if verifyBlobs then
    inventory.references.forM (verifyReference directory vault database epoch writer)
  pure inventory

structure SegmentTail where
  segmentId : Octets 16
  committedEnd : Nat
  extraBytes : Nat

def recordUncommittedTail (file : H.File) (segmentId : Octets 16) (committedEnd : Nat) (tails : List SegmentTail) :
    Program F StorageError (List SegmentTail) := do
  let length ← mapError .adapter (metadata file)
  ensure (committedEnd ≤ length ∧ length ≤ journalSegmentLimit) .integrityFailure
  pure (if length > committedEnd then tails ++ [⟨segmentId, committedEnd, length - committedEnd⟩] else tails)

end Files

/-! ### Scanning the certificate log -/

structure ScanState (H : Handles) where
  currentSegmentId : Octets 16
  currentSegmentFile : H.File
  currentSegmentOffset : Nat
  frontier : Option CommitRevision
  previousCertificateDigest : Octets 32
  certificateAnchors : ExtTreeMap CommitRevision (Octets 32)
  committedBlobInventories : ExtTreeSet (Octets 32)
  committedBlobs : CommittedBlobs
  committedBlobBytes : CommittedBlobBytes
  committedBlobReferenceBindings : Nat
  verifiedBlobInventories : ExtTreeMap (Octets 32) Nat
  uncommittedTails : List SegmentTail

/-- The arguments of `scan_certificates` that stay the same for every certificate. -/
structure Scan (H : Handles) (W E : Type) where
  vault : KeyVault W E
  databaseDirectory : H.Directory
  certificateFile : H.File
  manifest : Manifest
  epoch : KeyEpoch
  writer : Octets 16
  trustedBlobInventories : ExtTreeMap (Octets 32) Nat
  retainCertificateAnchors : Bool
  invokeVisitor : Bool

namespace Scan

variable {F W E : Type} {H : Handles} [FileSystem F H] [Primitives]

def readCertificate (scan : Scan H W E) (revision : CommitRevision) :
    Program F StorageError (List UInt8 × Certificate) := do
  let offset ← lift id (certificateOffset revision.value)
  let encoded ← readBounded scan.certificateFile offset smallEnvelopeBytes
  let certificate ← lift id (decodeCertificate scan.vault scan.manifest.database scan.epoch
    scan.manifest.certificateLogId scan.writer revision encoded)
  pure (encoded, certificate)

def enterSegment (scan : Scan H W E) (state : ScanState H) (sequence : Nat) (segmentId : Octets 16) :
    Program F StorageError (ScanState H) :=
  if segmentId = state.currentSegmentId then pure state
  else do
    let tails ← recordUncommittedTail state.currentSegmentFile state.currentSegmentId state.currentSegmentOffset
      state.uncommittedTails
    let file ← mapError recoveryAdapterError (openExisting scan.databaseDirectory (segmentName segmentId))
    let header ← verifySegmentHeader scan.vault file scan.manifest.database scan.epoch segmentId scan.writer
    ensure (header.previousSegmentId = state.currentSegmentId ∧ header.firstRevision = sequence) .integrityFailure
    pure { state with
      currentSegmentId := segmentId
      currentSegmentFile := file
      currentSegmentOffset := smallEnvelopeBytes
      uncommittedTails := tails }

def readGroup (scan : Scan H W E) (state : ScanState H) (sequence : Nat) (certificate : Certificate) :
    Program F StorageError (List UInt8 × Nat) := do
  ensure (certificate.groupSequence = sequence ∧ certificate.groupOffset = state.currentSegmentOffset) .integrityFailure
  lift id (validateGroupEncodedLength certificate.groupLength)
  let groupEnd ← lift id (checked .integrityFailure (certificate.groupOffset + certificate.groupLength))
  ensure (groupEnd ≤ journalSegmentLimit) .integrityFailure
  let length ← mapError .adapter (metadata state.currentSegmentFile)
  ensure (groupEnd ≤ length) .integrityFailure
  let encoded ← readBounded state.currentSegmentFile certificate.groupOffset certificate.groupLength
  ensure (sha256 encoded = certificate.groupDigest) .integrityFailure
  let envelope ← lift committedCryptoError (EncryptedEnvelope.decode encoded)
  let plaintext ← lift committedCryptoError (scan.vault.decrypt
    (segmentContext scan.manifest.database scan.epoch state.currentSegmentId scan.writer sequence) envelope)
  ensure (plaintext.length ≤ maxPlaintextBytes) .integrityFailure
  pure (plaintext, groupEnd)

/-- Load an inventory where it has not been verified before, or where the visitor wants it. -/
def readInventory (scan : Scan H W E) (state : ScanState H) (digest : Octets 32) :
    Program F StorageError (Option BlobInventory × Nat × ExtTreeMap (Octets 32) Nat) :=
  match (scan.trustedBlobInventories[digest]?).or state.verifiedBlobInventories[digest]? with
  | none => do
    let inventory ← loadBlobInventory scan.vault scan.databaseDirectory scan.manifest.database scan.epoch scan.writer
      digest true
    ensure (inventory.references.length < 2 ^ 32) .resourceLimit
    pure (some inventory, inventory.references.length,
      state.verifiedBlobInventories.insert digest inventory.references.length)
  | some trusted =>
    if scan.invokeVisitor then do
      let inventory ← loadBlobInventory scan.vault scan.databaseDirectory scan.manifest.database scan.epoch
        scan.writer digest false
      ensure (inventory.references.length = trusted) .integrityFailure
      pure (some inventory, inventory.references.length, state.verifiedBlobInventories)
    else pure (none, trusted, state.verifiedBlobInventories)

def bindInventory (scan : Scan H W E) (state : ScanState H) (digest : Octets 32) :
    Program F StorageError (Option BlobInventory × ScanState H) :=
  if digest = emptyBlobInventoryDigest then pure (none, state)
  else do
    let (inventory, count, verified) ← scan.readInventory state digest
    let bindings ← lift id (checked .resourceLimit (state.committedBlobReferenceBindings + count))
    lift id (checkBlobReferenceBindingLimit bindings)
    let references := match inventory with
      | some inventory => inventory.references
      | none => []
    let committed ← lift id (references.foldlM registerCommittedBlob (state.committedBlobs, state.committedBlobBytes))
    pure (inventory, { state with
      committedBlobInventories := state.committedBlobInventories.insert digest
      committedBlobs := committed.1
      committedBlobBytes := committed.2
      committedBlobReferenceBindings := bindings
      verifiedBlobInventories := verified })

def visit {V : Type} (scan : Scan H W E) (visitor : V → RecoveredGroup → Except StorageError V) (visited : V)
    (group : RecoveredGroup) : Except StorageError V :=
  if scan.invokeVisitor then visitor visited group else .ok visited

/-- One round of `scan_certificates`. The visitor's own state is threaded through. -/
def step {V : Type} (scan : Scan H W E) (visitor : V → RecoveredGroup → Except StorageError V)
    (acc : ScanState H × V) (sequence : Nat) : Program F StorageError (ScanState H × V) := do
  let revision ← lift (fun _ => .integrityFailure) (CommitRevision.new sequence)
  let (encoded, certificate) ← scan.readCertificate revision
  ensure (certificate.revision = sequence ∧ certificate.previousDigest = acc.1.previousCertificateDigest)
    .integrityFailure
  let state ← scan.enterSegment acc.1 sequence certificate.segmentId
  let (plaintext, groupEnd) ← scan.readGroup state sequence certificate
  let (inventory, state) ← scan.bindInventory state certificate.blobInventoryDigest
  let digest := sha256 encoded
  let visited ← lift id (scan.visit visitor acc.2 ⟨revision, digest, plaintext, certificate.blobInventoryDigest,
    inventory, certificate.logicalEventDigest⟩)
  pure ({ state with
    certificateAnchors :=
      if scan.retainCertificateAnchors then state.certificateAnchors.insert revision digest
      else state.certificateAnchors
    currentSegmentOffset := groupEnd
    previousCertificateDigest := digest
    frontier := some revision }, visited)

def start (manifest : Manifest) (initialSegmentFile : H.File) : ScanState H where
  currentSegmentId := manifest.initialSegmentId
  currentSegmentFile := initialSegmentFile
  currentSegmentOffset := smallEnvelopeBytes
  frontier := none
  previousCertificateDigest := Octets.zero 32
  certificateAnchors := ∅
  committedBlobInventories := ∅
  committedBlobs := ∅
  committedBlobBytes := ∅
  committedBlobReferenceBindings := 0
  verifiedBlobInventories := ∅
  uncommittedTails := []

def scanCertificates {V : Type} (scan : Scan H W E) (initialSegmentFile : H.File) (certificateCount : Nat)
    (visitor : V → RecoveredGroup → Except StorageError V) (init : V) : Program F StorageError (ScanState H × V) := do
  let (state, visited) ← (List.range' 1 certificateCount).foldlM (scan.step visitor)
    (start scan.manifest initialSegmentFile, init)
  let tails ← recordUncommittedTail state.currentSegmentFile state.currentSegmentId state.currentSegmentOffset
    state.uncommittedTails
  pure ({ state with uncommittedTails := tails }, visited)

end Scan

namespace JournalStore

/-! ### Creating and opening -/

section Open

variable {F W E I : Type} {H : Handles} [FileSystem F H] [Primitives] [DurableKeyEnvelope W]

def cutCertificates (certificateFile : H.File) (repaired complete : Nat) : Program F StorageError Unit :=
  if repaired ≠ 0 then mapError .adapter (setLen certificateFile (smallEnvelopeBytes + complete)) else pure ()

/-- A certificate that a reader sees may not be on the disk yet. -/
def adoptCertificates (certificateFile : H.File) (repaired complete : Nat) : Program F StorageError Unit := do
  cutCertificates certificateFile repaired complete
  mapError .adapter (syncData certificateFile)

def cutTail (databaseDirectory : H.Directory) (tail : SegmentTail) : Program F StorageError Unit := do
  let file ← mapError recoveryAdapterError (openExisting databaseDirectory (segmentName tail.segmentId))
  mapError .adapter (setLen file tail.committedEnd)
  mapError .adapter (syncData file)

/-- Adopt the frontier the first pass validated: cut the torn certificate, bring the log to the disk,
and cut every segment to its committed end. -/
def repairTails (databaseDirectory : H.Directory) (certificateFile : H.File) (repaired complete : Nat)
    (tails : List SegmentTail) : Program F StorageError Nat := do
  adoptCertificates certificateFile repaired complete
  tails.foldlM (fun ignored tail => do
    cutTail databaseDirectory tail
    lift id (checked .resourceLimit (ignored + tail.extraBytes))) 0

def openVault (databaseDirectory : H.Directory) (expectedDatabase : DatabaseId) (vaultEntropy : E)
    (unwrap : DatabaseId → W → Except CryptoError (Octets 32)) : Program F StorageError (KeyVault W E) := do
  let keyFile ← mapError recoveryAdapterError (openExisting databaseDirectory keyName)
  let keyLen ← mapError .adapter (metadata keyFile)
  ensure (keyLen ≠ 0 ∧ keyLen ≤ maxKeyEnvelopeBytes) .integrityFailure
  let keyBytes ← readBounded keyFile 0 keyLen
  let wrapper ← lift recoveryCryptoError (DurableKeyEnvelope.decodeDurable keyBytes)
  lift .crypto ((KeyVault.fromLocked expectedDatabase wrapper vaultEntropy).unlock unwrap)

def openManifest (databaseDirectory : H.Directory) (expectedDatabase : DatabaseId) (vault : KeyVault W E) :
    Program F StorageError (Manifest × KeyEpoch) := do
  let manifestFile ← mapError recoveryAdapterError (openExisting databaseDirectory manifestName)
  requireExactLen manifestFile smallEnvelopeBytes
  let manifestEncoded ← readBounded manifestFile 0 smallEnvelopeBytes
  let manifestEnvelope ← lift recoveryCryptoError (EncryptedEnvelope.decode manifestEncoded)
  let manifestPlaintext ← lift recoveryCryptoError
    (vault.decrypt (manifestContext expectedDatabase manifestEnvelope.epoch) manifestEnvelope)
  let manifest ← lift id (Manifest.decode manifestPlaintext)
  ensure (manifest.database = expectedDatabase ∧ manifest.epoch = manifestEnvelope.epoch) .integrityFailure
  pure (manifest, manifestEnvelope.epoch)

def openCertificates (databaseDirectory : H.Directory) (expectedDatabase : DatabaseId) (vault : KeyVault W E)
    (manifest : Manifest) (epoch : KeyEpoch) : Program F StorageError (H.File × Nat) := do
  let certificateFile ← mapError recoveryAdapterError (openExisting databaseDirectory certificatesName)
  let certificateLen ← mapError .adapter (metadata certificateFile)
  ensure (smallEnvelopeBytes ≤ certificateLen ∧ certificateLen ≤ certificateLogLimit) .integrityFailure
  let headerBytes ← readBounded certificateFile 0 smallEnvelopeBytes
  lift id (verifyCertificateHeader vault expectedDatabase epoch manifest.certificateLogId manifest.writer headerBytes)
  pure (certificateFile, certificateLen)

def openInitialSegment (databaseDirectory : H.Directory) (expectedDatabase : DatabaseId) (vault : KeyVault W E)
    (manifest : Manifest) (epoch : KeyEpoch) : Program F StorageError H.File := do
  let initialSegmentFile ← mapError recoveryAdapterError
    (openExisting databaseDirectory (segmentName manifest.initialSegmentId))
  let initialHeader ← verifySegmentHeader vault initialSegmentFile expectedDatabase epoch manifest.initialSegmentId
    manifest.writer
  ensure (initialHeader.previousSegmentId = Octets.zero 16 ∧ initialHeader.firstRevision = 1) .integrityFailure
  pure initialSegmentFile

/-- The whole certificates after the header, their bytes, and the bytes of a torn one. -/
def certificatePayload (certificateLen : Nat) : Nat × Nat × Nat :=
  let payload := certificateLen - smallEnvelopeBytes
  let count := payload / smallEnvelopeBytes
  let complete := count * smallEnvelopeBytes
  (count, complete, payload - complete)

/-- Authenticate the whole frontier, adopt it, and only then replay it to the visitor. -/
def recoverFrontier {V : Type} (first : Scan H W E) (initialSegmentFile : H.File) (count repaired complete : Nat)
    (visitor : V → RecoveredGroup → Except StorageError V) (init : V) :
    Program F StorageError (ScanState H × Nat × V) := do
  let (validated, _) ← first.scanCertificates initialSegmentFile count (fun _ _ => .ok ()) ()
  let ignored ← repairTails first.databaseDirectory first.certificateFile repaired complete validated.uncommittedTails
  let second : Scan H W E :=
    { first with trustedBlobInventories := validated.verifiedBlobInventories, invokeVisitor := true }
  let (replayed, visited) ← second.scanCertificates initialSegmentFile count visitor init
  ensure (replayed.currentSegmentId = validated.currentSegmentId ∧
    replayed.currentSegmentOffset = validated.currentSegmentOffset ∧ replayed.frontier = validated.frontier ∧
    replayed.previousCertificateDigest = validated.previousCertificateDigest ∧
    replayed.certificateAnchors = validated.certificateAnchors ∧
    replayed.committedBlobInventories = validated.committedBlobInventories ∧
    replayed.committedBlobs = validated.committedBlobs ∧
    replayed.committedBlobBytes = validated.committedBlobBytes ∧
    replayed.committedBlobReferenceBindings = validated.committedBlobReferenceBindings) .integrityFailure
  pure (replayed, ignored, visited)

/-- The part of `open_internal` after the lock has been taken. -/
def openLocked {V : Type} (databaseDirectory : H.Directory) (ownership : H.Guard) (expectedDatabase : DatabaseId)
    (vaultEntropy : E) (identityEntropy : I) (unwrap : DatabaseId → W → Except CryptoError (Octets 32))
    (certificateReadLimits : Option CertificateAnchorReadLimits)
    (visitor : V → RecoveredGroup → Except StorageError V) (init : V) :
    Program F StorageError (JournalStore H W E I × RecoveryReport × V) := do
  let vault ← openVault databaseDirectory expectedDatabase vaultEntropy unwrap
  let (manifest, epoch) ← openManifest databaseDirectory expectedDatabase vault
  let writer := manifest.writer
  let (certificateFile, certificateLen) ← openCertificates databaseDirectory expectedDatabase vault manifest epoch
  let initialSegmentFile ← openInitialSegment databaseDirectory expectedDatabase vault manifest epoch
  let (count, complete, torn) := certificatePayload certificateLen
  ensure (∀ limits ∈ certificateReadLimits, count ≤ limits.maximumCertificates ∧ complete ≤ limits.maximumEncodedBytes)
    .resourceLimit
  let first : Scan H W E :=
    ⟨vault, databaseDirectory, certificateFile, manifest, epoch, writer, ∅, certificateReadLimits.isNone, false⟩
  let (replayed, ignored, visited) ← recoverFrontier first initialSegmentFile count torn complete visitor init
  pure ({
      database := expectedDatabase
      epoch := epoch
      writer := writer
      certificateLogId := manifest.certificateLogId
      databaseDirectory := databaseDirectory
      certificateFile := certificateFile
      currentSegmentId := replayed.currentSegmentId
      currentSegmentFile := replayed.currentSegmentFile
      currentSegmentOffset := replayed.currentSegmentOffset
      frontier := replayed.frontier
      previousCertificateDigest := replayed.previousCertificateDigest
      certificateAnchors := replayed.certificateAnchors
      certificateReadLimits := certificateReadLimits
      committedBlobInventories := replayed.committedBlobInventories
      committedBlobs := replayed.committedBlobs
      committedBlobBytes := replayed.committedBlobBytes
      committedBlobReferenceBindings := replayed.committedBlobReferenceBindings
      poisoned := false
      vault := vault
      identityEntropy := identityEntropy
      ownership := ownership },
    ⟨replayed.frontier, replayed.previousCertificateDigest, torn, ignored⟩, visited)

/-- Where opening fails, the guard of the lock is dropped. -/
def openInternal {V : Type} (finalName : EntryName) (expectedDatabase : DatabaseId)
    (vaultEntropy : E) (identityEntropy : I) (unwrap : DatabaseId → W → Except CryptoError (Octets 32))
    (certificateReadLimits : Option CertificateAnchorReadLimits)
    (visitor : V → RecoveredGroup → Except StorageError V) (init : V) :
    Program F StorageError (JournalStore H W E I × RecoveryReport × V) := do
  let filesystem ← read
  let databaseDirectory ← mapError recoveryAdapterError (openDirectory (root filesystem) finalName)
  let ownership ← mapError recoveryAdapterError (tryLockExclusive databaseDirectory lockName)
  onError (release ownership) (openLocked databaseDirectory ownership expectedDatabase vaultEntropy identityEntropy
    unwrap certificateReadLimits visitor init)

end Open

section Create

variable {F W E I : Type} {H : Handles} [FileSystem F H] [Primitives] [DurableKeyEnvelope W] [EntropySource E]
  [EntropySource I]

/-- The locals of `create`: the vault and the source of identities. -/
structure Founder (W E I : Type) where
  vault : KeyVault W E
  entropy : I

namespace Founder

def sealed (context : CryptoContext) (plaintext : List UInt8) : Program (Founder W E I × F) StorageError (List UInt8) := do
  let envelope ← mapError .crypto
    (zoom (fun s : Founder W E I × F => s.1.vault) (fun vault s => ({ s.1 with vault := vault }, s.2))
      (KeyVault.encrypt context plaintext))
  lift id (requireSmallEnvelope envelope.encode)
  pure envelope.encode

def randomId : Program (Founder W E I × F) StorageError (Octets 16) :=
  zoom (fun s => s.1.entropy) (fun entropy s => ({ s.1 with entropy := entropy }, s.2)) randomNonzeroId

end Founder

def temporaryName (random : Octets 16) : EntryName where
  text := ascii ".uste-create-" ++ hex random.bytes
  nonempty := by simp [ascii]
  bounded := by
    have short : (ascii ".uste-create-").length = 13 := rfl
    simp [short, maxEntryNameBytes]
  unreserved := by constructor <;> simp [ascii]
  plain b mem := by
    have first : ∀ b ∈ ascii ".uste-create-", b ≠ 47 ∧ b ≠ 0 := plain_of_all (by decide)
    rcases List.mem_append.mp mem with mem | mem
    · exact first b mem
    · have digits := hex_alphanumeric mem
      constructor <;>
      · rintro rfl
        exact absurd digits.1 (by decide)

def createTemporaryDirectoryLoop (root : H.Directory) :
    (attempts : Nat) → Program (Founder W E I × F) StorageError (EntryName × H.Directory)
  | 0 => fail .resourceLimit
  | attempts + 1 => do
    let random ← Founder.randomId
    match ← attempt (onSnd (createDirectory root (temporaryName random))) with
    | .ok directory => pure (temporaryName random, directory)
    | .error kind => if kind = .alreadyExists then createTemporaryDirectoryLoop root attempts else fail (.adapter kind)

def writeNew (directory : H.Directory) (name : EntryName) (bytes : List UInt8) : Program F StorageError H.File := do
  let file ← mapError .adapter (createNew directory name)
  mapError .adapter (writeAllAt file 0 bytes)
  mapError .adapter (syncAll file)
  pure file

/-- The part of `create` after the lock has been taken. -/
def createLocked (root : H.Directory) (options : CreationOptions) (writer certificateLogId initialSegmentId : Octets 16)
    (temporary : EntryName) (directory : H.Directory) (ownership : H.Guard) :
    Program (Founder W E I × F) StorageError (JournalStore H W E I) := do
  let epoch := KeyEpoch.first
  let founder ← read
  let keyBytes ← lift .crypto (DurableKeyEnvelope.encodeDurable founder.1.vault.wrapped)
  ensure (keyBytes ≠ [] ∧ keyBytes.length ≤ maxKeyEnvelopeBytes) .resourceLimit
  let _ ← onSnd (writeNew directory keyName keyBytes)
  let manifest : Manifest := ⟨options.database, writer, epoch, certificateLogId, initialSegmentId⟩
  let manifestBytes ← Founder.sealed (manifestContext options.database epoch) manifest.encode
  let _ ← onSnd (writeNew directory manifestName manifestBytes)
  let headerBytes ← Founder.sealed (certificateContext options.database epoch certificateLogId writer 0)
    (certificateHeader options.database certificateLogId writer)
  let certificateFile ← onSnd (writeNew directory certificatesName headerBytes)
  let header : SegmentHeader := ⟨options.database, initialSegmentId, writer, Octets.zero 16, 1⟩
  let segmentBytes ← Founder.sealed (segmentContext options.database epoch initialSegmentId writer 0) header.encode
  let initialSegmentFile ← onSnd (writeNew directory (segmentName initialSegmentId) segmentBytes)
  onSnd (mapError .adapter (syncDirectory directory))
  onSnd (mapError .adapter (renameNoReplace root temporary root options.finalName))
  onSnd (mapError .adapter (syncDirectory root))
  let founder ← read
  pure {
    database := options.database
    epoch := epoch
    writer := writer
    certificateLogId := certificateLogId
    databaseDirectory := directory
    certificateFile := certificateFile
    currentSegmentId := initialSegmentId
    currentSegmentFile := initialSegmentFile
    currentSegmentOffset := smallEnvelopeBytes
    frontier := none
    previousCertificateDigest := Octets.zero 32
    certificateAnchors := ∅
    certificateReadLimits := none
    committedBlobInventories := ∅
    committedBlobs := ∅
    committedBlobBytes := ∅
    committedBlobReferenceBindings := 0
    poisoned := false
    vault := founder.1.vault
    identityEntropy := founder.1.entropy
    ownership := ownership }

def create (options : CreationOptions) (vault : KeyVault W E) (identityEntropy : I) :
    Program F StorageError (JournalStore H W E I) :=
  withLocal (⟨vault, identityEntropy⟩ : Founder W E I) do
    let (_, filesystem) ← read
    let writer ← Founder.randomId
    let certificateLogId ← Founder.randomId
    let initialSegmentId ← Founder.randomId
    let (temporary, directory) ← createTemporaryDirectoryLoop (root filesystem) randomAttempts
    let lockFile ← onSnd (mapError .adapter (createNew directory lockName))
    onSnd (mapError .adapter (syncAll lockFile))
    let ownership ← onSnd (mapError .adapter (tryLockExclusive directory lockName))
    onError (fun s => (s.1, release ownership s.2)) (createLocked (root filesystem) options writer certificateLogId
      initialSegmentId temporary directory ownership)

end Create

/-! ### Appending -/

section Append

variable {F W E I : Type} {H : Handles} [FileSystem F H] [Primitives] [EntropySource E] [EntropySource I]

def sealed (context : CryptoContext) (plaintext : List UInt8) :
    Program (JournalStore H W E I × F) StorageError (List UInt8) := do
  let envelope ← mapError .crypto
    (zoom (fun s : JournalStore H W E I × F => s.1.vault) (fun vault s => ({ s.1 with vault := vault }, s.2))
      (KeyVault.encrypt context plaintext))
  pure envelope.encode

def randomId : Program (JournalStore H W E I × F) StorageError (Octets 16) :=
  zoom (fun s => s.1.identityEntropy) (fun entropy s => ({ s.1 with identityEntropy := entropy }, s.2)) randomNonzeroId

def onFiles {α : Type} (x : Program F AdapterErrorKind α) : Program (JournalStore H W E I × F) StorageError α :=
  onSnd (mapError .adapter x)

def modify (f : JournalStore H W E I → JournalStore H W E I) : Program (JournalStore H W E I × F) StorageError Unit :=
  update fun s => (f s.1, s.2)

def poison : Program (JournalStore H W E I × F) StorageError Unit := modify fun store => { store with poisoned := true }

def rollover (firstRevision : Nat) : Program (JournalStore H W E I × F) StorageError Unit := do
  let nextSegmentId ← randomId
  let (store, _) ← read
  ensure (nextSegmentId ≠ store.currentSegmentId) (.crypto .integrityFailure)
  let header : SegmentHeader := ⟨store.database, nextSegmentId, store.writer, store.currentSegmentId, firstRevision⟩
  let encoded ← sealed (segmentContext store.database store.epoch nextSegmentId store.writer 0) header.encode
  lift id (requireSmallEnvelope encoded)
  let file ← onSnd (writeNew store.databaseDirectory (segmentName nextSegmentId) encoded)
  onFiles (syncDirectory store.databaseDirectory)
  modify fun store => { store with
    currentSegmentId := nextSegmentId
    currentSegmentFile := file
    currentSegmentOffset := smallEnvelopeBytes }

def nextRevision : Option CommitRevision → Except StorageError CommitRevision
  | none => .ok CommitRevision.first
  | some current => current.checkedNext.mapError fun _ => .revisionExhausted

def placeGroup (group : List UInt8) (sequence projectedEnd : Nat) (encoded : List UInt8) :
    Program (JournalStore H W E I × F) StorageError (List UInt8) :=
  if projectedEnd > journalSegmentLimit then do
    poison
    rollover sequence
    let (store, _) ← read
    sealed (segmentContext store.database store.epoch store.currentSegmentId store.writer sequence) group
  else pure encoded

/-- Write a group at the end of the current segment and then its certificate; only a store that has come through
both is healthy again. -/
def certifyGroup (input : CommitInput) (blobInventoryDigest : Octets 32) (revision : CommitRevision)
    (offset groupLength : Nat) (encodedGroup : List UInt8) :
    Program (JournalStore H W E I × F) StorageError DurableCommit := do
  let sequence := revision.value
  let (store, _) ← read
  let groupOffset := store.currentSegmentOffset
  poison
  onFiles (writeAllAt store.currentSegmentFile groupOffset encodedGroup)
  onFiles (syncData store.currentSegmentFile)
  let certificate : Certificate :=
    ⟨sequence, store.previousCertificateDigest, store.currentSegmentId, sequence, groupOffset, groupLength,
      sha256 encodedGroup, blobInventoryDigest, input.logicalEventDigest⟩
  let encodedCertificate ← sealed
    (certificateContext store.database store.epoch store.certificateLogId store.writer sequence) certificate.encode
  lift id (requireSmallEnvelope encodedCertificate)
  onFiles (writeAllAt store.certificateFile offset encodedCertificate)
  onFiles (syncData store.certificateFile)
  let certificateDigest := sha256 encodedCertificate
  modify fun store => { store with
    currentSegmentOffset := groupOffset + groupLength
    frontier := some revision
    previousCertificateDigest := certificateDigest
    certificateAnchors :=
      if store.certificateReadLimits.isNone then store.certificateAnchors.insert revision certificateDigest
      else store.certificateAnchors
    committedBlobInventories :=
      if blobInventoryDigest ≠ emptyBlobInventoryDigest then store.committedBlobInventories.insert blobInventoryDigest
      else store.committedBlobInventories
    poisoned := false }
  pure ⟨revision, certificateDigest⟩

def appendGroupInternal (input : CommitInput) (blobInventoryDigest : Octets 32) :
    Program (JournalStore H W E I × F) StorageError DurableCommit := do
  let (store, _) ← read
  ensure (store.poisoned = false) .needsRecovery
  ensure (input.encodedGroup.length ≤ maxPlaintextBytes) .resourceLimit
  let revision ← lift id (nextRevision store.frontier)
  let sequence := revision.value
  let offset ← lift id (certificateOffset sequence)
  let certificateEnd ← lift id (checked .resourceLimit (offset + smallEnvelopeBytes))
  ensure (certificateEnd ≤ certificateLogLimit) .resourceLimit
  let firstEncoded ← sealed (segmentContext store.database store.epoch store.currentSegmentId store.writer sequence)
    input.encodedGroup
  let groupLength := firstEncoded.length
  lift id (validateGroupEncodedLength groupLength)
  let projectedEnd ← lift id (checked .resourceLimit (store.currentSegmentOffset + groupLength))
  let encodedGroup ← placeGroup input.encodedGroup sequence projectedEnd firstEncoded
  certifyGroup input blobInventoryDigest revision offset groupLength encodedGroup

def appendGroup (input : CommitInput) : Program (JournalStore H W E I × F) StorageError DurableCommit :=
  appendGroupInternal input emptyBlobInventoryDigest

def writeInventory (file : H.File) (encoded : List UInt8) : Program (JournalStore H W E I × F) StorageError Unit := do
  onFiles (writeAllAt file 0 encoded)
  onFiles (setLen file encoded.length)
  onFiles (syncAll file)

def replaceInventory (directory : H.Directory) (file : H.File) (context : CryptoContext) (inventory : BlobInventory) :
    Program (JournalStore H W E I × F) StorageError Unit := do
  onFiles (setLen file 0)
  let encoded ← sealed context inventory.encoded
  writeInventory file encoded
  onFiles (syncDirectory directory)

def createInventory (directory : H.Directory) (name : EntryName) (context : CryptoContext) (inventory : BlobInventory) :
    Program (JournalStore H W E I × F) StorageError Unit := do
  let encoded ← sealed context inventory.encoded
  let file ← onFiles (createNew directory name)
  writeInventory file encoded
  onFiles (syncDirectory directory)

def publishBlobInventory (inventory : BlobInventory) (previouslyCommitted : Bool) :
    Program (JournalStore H W E I × F) StorageError Unit := do
  let (store, _) ← read
  inventory.references.forM fun reference =>
    onSnd (verifyReference store.databaseDirectory store.vault store.database store.epoch store.writer reference)
  let digest := inventory.digest
  let name ← lift id (inventoryName store.vault store.database store.epoch store.writer digest)
  let context := inventoryContext store.database store.epoch store.writer digest
  match ← attempt (onSnd (openExisting store.databaseDirectory name)) with
  | .ok file =>
    match ← attempt (onSnd (loadBlobInventory store.vault store.databaseDirectory store.database store.epoch store.writer
      digest true)) with
    | .ok _ =>
      onFiles (syncAll file)
      onFiles (syncDirectory store.databaseDirectory)
    | .error _ =>
      ensure (previouslyCommitted = false) .integrityFailure
      replaceInventory store.databaseDirectory file context inventory
  | .error kind =>
    ensure (kind = .notFound) (.adapter kind)
    createInventory store.databaseDirectory name context inventory

/-- A reference that cannot be registered leaves a store that has to be opened again. -/
def registerReference (reference : BlobReference) : Program (JournalStore H W E I × F) StorageError Unit := do
  let (store, _) ← read
  match registerCommittedBlob (store.committedBlobs, store.committedBlobBytes) reference with
  | .error _ =>
    poison
    fail .needsRecovery
  | .ok committed =>
    modify fun store => { store with committedBlobs := committed.1, committedBlobBytes := committed.2 }

def appendGroupWithInventory (input : CommitInput) (inventory : BlobInventory) :
    Program (JournalStore H W E I × F) StorageError DurableCommit := do
  let (store, _) ← read
  ensure (inventory.scope.database = store.database) .invalidState
  if inventory.isEmpty then appendGroup input
  else
    ensure (∀ reference ∈ inventory.references, ∀ existing ∈ store.committedBlobs[reference.blobKey]?,
      existing = reference) .integrityFailure
    lift id (checkBlobCapacity store.committedBlobs store.committedBlobBytes inventory.references)
    let projectedBindings ← lift id (checked .resourceLimit
      (store.committedBlobReferenceBindings + inventory.references.length))
    lift id (checkBlobReferenceBindingLimit projectedBindings)
    publishBlobInventory inventory (store.committedBlobInventories.contains inventory.digest)
    let durable ← appendGroupInternal input inventory.digest
    inventory.references.forM registerReference
    modify fun store => { store with committedBlobReferenceBindings := projectedBindings }
    pure durable

def append (input : CommitInput) : Option BlobInventory → Program (JournalStore H W E I × F) StorageError DurableCommit
  | none => appendGroup input
  | some inventory => appendGroupWithInventory input inventory

end Append

end JournalStore

end Uste.Storage
