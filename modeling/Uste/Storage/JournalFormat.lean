import Uste.Storage.BlobModel

/-!
The fixed plaintext records of a journal (manifest, certificate log header, segment header and
commit certificate), and the contexts they are sealed under.
-/

namespace Uste.Storage

open Types Crypto List

def storageMajor : UInt8 := 1
def storageMinor : UInt8 := 0
def smallEnvelopeBytes : Nat := 4161
def manifestPlaintextBytes : Nat := 128
def certificateHeaderPlaintextBytes : Nat := 64
def segmentHeaderPlaintextBytes : Nat := 80
def certificatePlaintextBytes : Nat := 192
def maxKeyEnvelopeBytes : Nat := 64 * 1024
def maxEncodedBlobInventoryBytes : Nat := maxPlaintextBytes + 8 * 1024
def certificateLogLimit : Nat := 1024 * 1024 * 1024
def storageProfileLinuxLocalV1 : UInt8 := 1
def cryptoSuiteV1 : UInt8 := 1
def smallFrameTag : UInt8 := 1
def randomAttempts : Nat := 16
def journalSegmentLimit : Nat := 256 * 1024 * 1024

def readU64 (bytes : List UInt8) (offset : Nat) : Except StorageError Nat := do
  let value ← readArray 8 bytes offset
  pure (ofBigEndian value.bytes)

@[simp] theorem readU64_ok {bytes : List UInt8} {offset n : Nat} :
    readU64 bytes offset = .ok n ↔ slice bytes offset 8 = bigEndian 8 n ∧ n < 256 ^ 8 := word_ok

structure Manifest where
  database : DatabaseId
  writer : Octets 16
  epoch : KeyEpoch
  certificateLogId : Octets 16
  initialSegmentId : Octets 16

namespace Manifest

def encode (m : Manifest) : List UInt8 :=
  ascii "UMAN" ++ [storageMajor, storageMinor, 1, 0] ++ m.database.bytes.bytes ++ m.writer.bytes ++
  bigEndian 8 m.epoch.value ++ m.certificateLogId.bytes ++ m.initialSegmentId.bytes ++
  [storageProfileLinuxLocalV1, cryptoSuiteV1, smallFrameTag, 0] ++ bigEndian 8 journalSegmentLimit ++
  bigEndian 8 smallEnvelopeBytes ++ bigEndian 8 maxPlaintextBytes ++ List.replicate 20 0

def decode (bytes : List UInt8) : Except StorageError Manifest := do
  require (bytes.length = manifestPlaintextBytes ∧ slice bytes 0 4 = ascii "UMAN" ∧
    slice bytes 4 4 = [storageMajor, storageMinor, 1, 0] ∧
    slice bytes 80 4 = [storageProfileLinuxLocalV1, cryptoSuiteV1, smallFrameTag, 0] ∧
    ∀ b ∈ bytes.drop 108, b = 0) .unsupportedProfile
  let segmentLimit ← readU64 bytes 84
  let envelopeBytes ← readU64 bytes 92
  let plaintextBytes ← readU64 bytes 100
  require (segmentLimit = journalSegmentLimit ∧ envelopeBytes = smallEnvelopeBytes ∧
    plaintextBytes = maxPlaintextBytes) .unsupportedProfile
  let epochValue ← readU64 bytes 40
  let epoch ← orError .integrityFailure (KeyEpoch.new? epochValue)
  let database ← readArray 16 bytes 8
  let writer ← readArray 16 bytes 24
  let certificateLogId ← readArray 16 bytes 48
  let initialSegmentId ← readArray 16 bytes 64
  require (writer ≠ Octets.zero 16 ∧ certificateLogId ≠ Octets.zero 16 ∧ initialSegmentId ≠ Octets.zero 16)
    .integrityFailure
  pure ⟨⟨database⟩, writer, epoch, certificateLogId, initialSegmentId⟩

@[simp] theorem length_encode (m : Manifest) : m.encode.length = manifestPlaintextBytes := by
  have magic : (ascii "UMAN").length = 4 := rfl
  simp [encode, magic, manifestPlaintextBytes]

theorem decode_encode {m : Manifest} (writer : m.writer ≠ Octets.zero 16)
    (log : m.certificateLogId ≠ Octets.zero 16) (segment : m.initialSegmentId ≠ Octets.zero 16) :
    decode m.encode = .ok m := by
  have size := length_encode m
  have magic : (ascii "UMAN").length = 4 := rfl
  have epoch := m.epoch.fits
  generalize fields : m.encode = bytes at size ⊢
  rw [encode, eq_comm] at fields
  simp only [append_assoc] at fields
  simp [↓eq_append_iff, slice_drop, magic] at fields
  obtain ⟨⟨_⟩, _, _, _, _⟩ := m
  have limits : journalSegmentLimit < 2 ^ 64 ∧ smallEnvelopeBytes < 2 ^ 64 ∧ maxPlaintextBytes < 2 ^ 64 := by decide
  simp [decode, size, fields]
  simp_all

end Manifest

structure SegmentHeader where
  database : DatabaseId
  segmentId : Octets 16
  writer : Octets 16
  previousSegmentId : Octets 16
  firstRevision : Nat

namespace SegmentHeader

def encode (h : SegmentHeader) : List UInt8 :=
  ascii "USEG" ++ [storageMajor, storageMinor, 0, 0] ++ h.database.bytes.bytes ++ h.segmentId.bytes ++
  h.writer.bytes ++ h.previousSegmentId.bytes ++ bigEndian 8 h.firstRevision

def decode (bytes : List UInt8) : Except StorageError SegmentHeader := do
  require (bytes.length = segmentHeaderPlaintextBytes ∧ slice bytes 0 4 = ascii "USEG" ∧
    slice bytes 4 4 = [storageMajor, storageMinor, 0, 0]) .integrityFailure
  let database ← readArray 16 bytes 8
  let segmentId ← readArray 16 bytes 24
  let writer ← readArray 16 bytes 40
  let previousSegmentId ← readArray 16 bytes 56
  let firstRevision ← readU64 bytes 72
  require (segmentId ≠ Octets.zero 16 ∧ writer ≠ Octets.zero 16 ∧ firstRevision ≠ 0) .integrityFailure
  pure ⟨⟨database⟩, segmentId, writer, previousSegmentId, firstRevision⟩

@[simp] theorem length_encode (h : SegmentHeader) : h.encode.length = segmentHeaderPlaintextBytes := by
  have magic : (ascii "USEG").length = 4 := rfl
  simp [encode, magic, segmentHeaderPlaintextBytes]

theorem decode_encode {h : SegmentHeader} (segment : h.segmentId ≠ Octets.zero 16) (writer : h.writer ≠ Octets.zero 16)
    (first : h.firstRevision ≠ 0) (fits : h.firstRevision < 2 ^ 64) : decode h.encode = .ok h := by
  have size := length_encode h
  have magic : (ascii "USEG").length = 4 := rfl
  generalize fields : h.encode = bytes at size ⊢
  rw [encode, eq_comm] at fields
  simp only [append_assoc] at fields
  simp [↓eq_append_iff, slice_drop, drop_eq_iff, magic] at fields
  obtain ⟨⟨_⟩, _, _, _, _⟩ := h
  simp [decode, size, fields]
  simp_all

end SegmentHeader

structure Certificate where
  revision : Nat
  previousDigest : Octets 32
  segmentId : Octets 16
  groupSequence : Nat
  groupOffset : Nat
  groupLength : Nat
  groupDigest : Octets 32
  blobInventoryDigest : Octets 32
  logicalEventDigest : Octets 32

namespace Certificate

def encode (c : Certificate) : List UInt8 :=
  ascii "UCER" ++ [storageMajor, storageMinor, 0, 0] ++ bigEndian 8 c.revision ++ c.previousDigest.bytes ++
  c.segmentId.bytes ++ bigEndian 8 c.groupSequence ++ bigEndian 8 c.groupOffset ++ bigEndian 8 c.groupLength ++
  c.groupDigest.bytes ++ c.blobInventoryDigest.bytes ++ c.logicalEventDigest.bytes ++ List.replicate 8 0

def decode (bytes : List UInt8) : Except StorageError Certificate := do
  require (bytes.length = certificatePlaintextBytes ∧ slice bytes 0 4 = ascii "UCER" ∧
    slice bytes 4 4 = [storageMajor, storageMinor, 0, 0] ∧ ∀ b ∈ bytes.drop 184, b = 0) .integrityFailure
  let revision ← readU64 bytes 8
  let previousDigest ← readArray 32 bytes 16
  let segmentId ← readArray 16 bytes 48
  let groupSequence ← readU64 bytes 64
  let groupOffset ← readU64 bytes 72
  let groupLength ← readU64 bytes 80
  let groupDigest ← readArray 32 bytes 88
  let blobInventoryDigest ← readArray 32 bytes 120
  let logicalEventDigest ← readArray 32 bytes 152
  pure ⟨revision, previousDigest, segmentId, groupSequence, groupOffset, groupLength, groupDigest,
    blobInventoryDigest, logicalEventDigest⟩

@[simp] theorem length_encode (c : Certificate) : c.encode.length = certificatePlaintextBytes := by
  have magic : (ascii "UCER").length = 4 := rfl
  simp [encode, magic, certificatePlaintextBytes]

theorem decode_encode {c : Certificate} (revision : c.revision < 2 ^ 64) (sequence : c.groupSequence < 2 ^ 64)
    (offset : c.groupOffset < 2 ^ 64) (length : c.groupLength < 2 ^ 64) : decode c.encode = .ok c := by
  have size := length_encode c
  have magic : (ascii "UCER").length = 4 := rfl
  generalize fields : c.encode = bytes at size ⊢
  rw [encode, eq_comm] at fields
  simp only [append_assoc] at fields
  simp [↓eq_append_iff, slice_drop, magic] at fields
  obtain ⟨_, _, _, _, _, _, _, _, _⟩ := c
  simp [decode, size, fields]
  simp_all

end Certificate

def certificateHeader (database : DatabaseId) (logId writer : Octets 16) : List UInt8 :=
  ascii "UCLG" ++ [storageMajor, storageMinor, 0, 0] ++ database.bytes.bytes ++ logId.bytes ++ writer.bytes ++
  List.replicate 8 0

@[simp] theorem length_certificateHeader (database : DatabaseId) (logId writer : Octets 16) :
    (certificateHeader database logId writer).length = certificateHeaderPlaintextBytes := by
  have magic : (ascii "UCLG").length = 4 := rfl
  simp [certificateHeader, magic, certificateHeaderPlaintextBytes]

/-! ### Contexts -/

def journalContext (database : DatabaseId) (epoch : KeyEpoch) (role : ObjectRole) (object writer : Octets 16)
    (sequence : Nat) : CryptoContext where
  database := database
  scope := .database
  epoch := epoch
  role := role
  object := object
  sequence := sequence
  writer := writer
  objectFormatMajor := storageMajor
  objectFormatMinor := storageMinor
  frame := .small4KiB

def manifestContext (database : DatabaseId) (epoch : KeyEpoch) : CryptoContext :=
  journalContext database epoch .creationManifest (Octets.zero 16) (Octets.zero 16) 0

def certificateContext (database : DatabaseId) (epoch : KeyEpoch) (certificateLogId writer : Octets 16)
    (sequence : Nat) : CryptoContext :=
  journalContext database epoch .commitCertificate certificateLogId writer sequence

def segmentContext (database : DatabaseId) (epoch : KeyEpoch) (segmentId writer : Octets 16) (sequence : Nat) :
    CryptoContext :=
  journalContext database epoch .journalGroup segmentId writer sequence

def requireSmallEnvelope (encoded : List UInt8) : Except StorageError Unit :=
  require (encoded.length = smallEnvelopeBytes) .integrityFailure

def validateGroupEncodedLength (length : Nat) : Except StorageError Unit :=
  require (smallEnvelopeBytes ≤ length ∧ length ≤ maxPlaintextBytes + smallEnvelopeBytes ∧
    (length - 65) % (4 * 1024) = 0) .integrityFailure

end Uste.Storage
