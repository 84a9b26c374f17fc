import Uste.Types.Identity
import Uste.Foundation.Program

/-!
The authenticated envelope around every stored object: the context a key is derived for, the
padded and framed ciphertext, and the vault that hands out fresh nonces. The primitives
themselves (the cipher, the hash and the key derivation) are parameters.
-/

namespace Uste.Crypto

open Types List

class Primitives where
  /-- SHA-256. -/
  sha256 : List UInt8 → Octets 32
  /-- XChaCha20-Poly1305 under a key, a nonce and associated data. -/
  aeadSeal : Octets 32 → Octets 24 → List UInt8 → List UInt8 → List UInt8
  aeadOpen : Octets 32 → Octets 24 → List UInt8 → List UInt8 → Option (List UInt8)
  /-- HKDF-SHA256 of a master key, expanded for the given information. -/
  hkdf : Octets 32 → List UInt8 → Octets 32

export Primitives (sha256)

structure KeyEpoch where
  value : Nat
  nonzero : 0 < value
  fits : value < 2 ^ 64

namespace KeyEpoch

def first : KeyEpoch := ⟨1, Nat.one_pos, CommitRevision.one_fits⟩

theorem ext {a b : KeyEpoch} (h : a.value = b.value) : a = b := by
  cases a
  cases b
  cases h
  rfl

instance : DecidableEq KeyEpoch := fun a b => decidable_of_iff (a.value = b.value) ⟨ext, congrArg value⟩

def new? (value : Nat) : Option KeyEpoch :=
  if nonzero : 0 < value then if fits : value < 2 ^ 64 then some ⟨value, nonzero, fits⟩ else none else none

@[simp] theorem new?_eq_some {value : Nat} {epoch : KeyEpoch} : new? value = some epoch ↔ value = epoch.value := by
  obtain ⟨_, nonzero, fits⟩ := epoch
  simp only [new?, Option.dite_none_right_eq_some, Option.some.injEq, mk.injEq, exists_prop]
  constructor
  · exact fun made => made.2.2
  · rintro rfl
    exact ⟨nonzero, fits, rfl⟩

theorem new?_value (epoch : KeyEpoch) : new? epoch.value = some epoch := new?_eq_some.mpr rfl

end KeyEpoch

inductive Scope where
  | database
  | namespace (id : NamespaceId)
  deriving DecidableEq

inductive ObjectRole where
  | journalGroup
  | commitCertificate
  | blobChunk
  | snapshot
  | indexPage
  | backup
  | temporarySpill
  | workerOutput
  | creationManifest
  | blobInventory
  | blobManifest
  | blobInventoryName
  | indexName
  deriving DecidableEq, Repr

namespace ObjectRole

def tag : ObjectRole → UInt8
  | journalGroup => 1
  | commitCertificate => 2
  | blobChunk => 3
  | snapshot => 4
  | indexPage => 5
  | backup => 6
  | temporarySpill => 7
  | workerOutput => 8
  | creationManifest => 9
  | blobInventory => 10
  | blobManifest => 11
  | blobInventoryName => 12
  | indexName => 13

end ObjectRole

inductive FrameClass where
  | small4KiB
  | blob64KiB
  deriving DecidableEq, Repr

namespace FrameClass

def bytes : FrameClass → Nat
  | small4KiB => 4 * 1024
  | blob64KiB => 64 * 1024

def tag : FrameClass → UInt8
  | small4KiB => 1
  | blob64KiB => 2

def fromTag (tag : UInt8) : Option FrameClass :=
  if tag = 1 then some .small4KiB else if tag = 2 then some .blob64KiB else none

@[simp] theorem fromTag_eq_some {tag : UInt8} {frame : FrameClass} : fromTag tag = some frame ↔ tag = frame.tag := by
  cases frame <;> grind [fromTag, FrameClass.tag]

theorem bytes_pos (frame : FrameClass) : 0 < frame.bytes := by
  cases frame <;> decide

end FrameClass

structure CryptoContext where
  database : DatabaseId
  scope : Scope
  epoch : KeyEpoch
  role : ObjectRole
  object : Octets 16
  sequence : Nat
  writer : Octets 16
  objectFormatMajor : UInt8
  objectFormatMinor : UInt8
  frame : FrameClass
  deriving DecidableEq

namespace CryptoContext

/-- The 88 bytes the key derivation and the associated data bind. -/
def canonicalBytes (c : CryptoContext) : List UInt8 :=
  c.database.bytes.bytes ++
  (match c.scope with
    | .database => List.replicate 17 0
    | .namespace id => 1 :: id.bytes.bytes) ++
  bigEndian 8 c.epoch.value ++ [c.role.tag] ++ c.object.bytes ++ bigEndian 8 c.sequence ++ c.writer.bytes ++
  [c.objectFormatMajor, c.objectFormatMinor, c.frame.tag, 0, 0, 0]

end CryptoContext

inductive CryptoError where
  | integrityFailure
  | retryableUnavailable
  | keyUnavailable
  | locked
  | unsupportedProfile
  | resourceLimit
  | nonceSessionExhausted
  | invalidEnvelope
  | invalidContext
  | invalidCredential
  deriving DecidableEq, Repr

def envelopeFormatMajor : UInt8 := 1
def envelopeFormatMinor : UInt8 := 0
def objectEnvelopeKind : UInt8 := 0x80
def suiteTag : UInt8 := 1
def tagBytes : Nat := 16
def headerBytes : Nat := 49
def innerLengthBytes : Nat := 8
def maxPlaintextBytes : Nat := 16 * 1024 * 1024
def maxNoncesPerWriterSession : Nat := 1048576

structure EncryptedEnvelope where
  frame : FrameClass
  epoch : KeyEpoch
  nonce : Octets 24
  ciphertext : List UInt8

def objectHeader (frame : FrameClass) (epoch : KeyEpoch) (nonce : Octets 24) (ciphertextLen : Nat) : List UInt8 :=
  ascii "USTE" ++ [objectEnvelopeKind, envelopeFormatMajor, envelopeFormatMinor, suiteTag, frame.tag] ++
  bigEndian 8 epoch.value ++ nonce.bytes ++ bigEndian 8 ciphertextLen

def associatedData (header : List UInt8) (context : CryptoContext) : List UInt8 :=
  ascii "USTE crypto-v1 AEAD" ++ header ++ context.canonicalBytes

def paddedLength (frame : FrameClass) (plaintextLen : Nat) : Nat :=
  (innerLengthBytes + plaintextLen + (frame.bytes - 1)) / frame.bytes * frame.bytes

def validateCiphertextLength (frame : FrameClass) (length : Nat) : Except CryptoError Unit := do
  require (tagBytes ≤ length) .invalidEnvelope
  require (length - tagBytes ≠ 0 ∧ (length - tagBytes) % frame.bytes = 0) .invalidEnvelope
  require (length ≤ paddedLength frame maxPlaintextBytes + tagBytes) .resourceLimit

namespace EncryptedEnvelope

def header (envelope : EncryptedEnvelope) : List UInt8 :=
  objectHeader envelope.frame envelope.epoch envelope.nonce envelope.ciphertext.length

def encode (envelope : EncryptedEnvelope) : List UInt8 := envelope.header ++ envelope.ciphertext

def decode (encoded : List UInt8) : Except CryptoError EncryptedEnvelope := do
  require (headerBytes ≤ encoded.length ∧ slice encoded 0 4 = ascii "USTE") .invalidEnvelope
  require (slice encoded 4 4 = [objectEnvelopeKind, envelopeFormatMajor, envelopeFormatMinor, suiteTag])
    .unsupportedProfile
  let frame ← orError .unsupportedProfile ((slice encoded 8 1).head?.bind FrameClass.fromTag)
  let epoch ← orError .invalidEnvelope (KeyEpoch.new? (ofBigEndian (slice encoded 9 8)))
  let nonce ← orError .invalidEnvelope (Octets.ofList? 24 (slice encoded 17 24))
  let ciphertextLen := ofBigEndian (slice encoded 41 8)
  validateCiphertextLength frame ciphertextLen
  require (encoded.length = headerBytes + ciphertextLen) .integrityFailure
  pure ⟨frame, epoch, nonce, encoded.drop headerBytes⟩

end EncryptedEnvelope

section Cipher

variable [Primitives]

def derive (master : Octets 32) (context : CryptoContext) : Octets 32 :=
  Primitives.hkdf master (ascii "USTE crypto-v1 object-key" ++ context.canonicalBytes)

def derivePublicToken (master : Octets 32) (context : CryptoContext) (input : Octets 32) : Octets 32 :=
  Primitives.hkdf master (ascii "USTE crypto-v1 public opaque token" ++ context.canonicalBytes ++ input.bytes)

/-- The plaintext with its length in front, filled up with zero bytes to a whole frame. -/
def pad (frame : FrameClass) (plaintext : List UInt8) : List UInt8 :=
  bigEndian 8 plaintext.length ++ plaintext ++
  List.replicate (paddedLength frame plaintext.length - (innerLengthBytes + plaintext.length)) 0

def encrypt (master : Octets 32) (context : CryptoContext) (nonce : Octets 24) (plaintext : List UInt8) :
    EncryptedEnvelope :=
  let header := objectHeader context.frame context.epoch nonce (paddedLength context.frame plaintext.length + tagBytes)
  { frame := context.frame
    epoch := context.epoch
    nonce := nonce
    ciphertext := Primitives.aeadSeal (derive master context) nonce (associatedData header context)
      (pad context.frame plaintext) }

def unpad (padded : List UInt8) : Except CryptoError (List UInt8) := do
  require (innerLengthBytes ≤ padded.length) .integrityFailure
  let actual := ofBigEndian (slice padded 0 innerLengthBytes)
  require (actual ≤ maxPlaintextBytes ∧ actual ≤ padded.length - innerLengthBytes) .integrityFailure
  require (∀ b ∈ padded.drop (innerLengthBytes + actual), b = 0) .integrityFailure
  pure (slice padded innerLengthBytes actual)

def decrypt (master : Octets 32) (context : CryptoContext) (envelope : EncryptedEnvelope) :
    Except CryptoError (List UInt8) := do
  require (context.epoch = envelope.epoch ∧ context.frame = envelope.frame) .integrityFailure
  validateCiphertextLength envelope.frame envelope.ciphertext.length
  let padded ← orError .integrityFailure (Primitives.aeadOpen (derive master context) envelope.nonce
    (associatedData envelope.header context) envelope.ciphertext)
  unpad padded

end Cipher

/-! ### Round trips -/

theorem length_objectHeader (frame : FrameClass) (epoch : KeyEpoch) (nonce : Octets 24) (n : Nat) :
    (objectHeader frame epoch nonce n).length = headerBytes := by
  simp [objectHeader, headerBytes, ascii]

theorem paddedLength_bounds (frame : FrameClass) (n : Nat) :
    innerLengthBytes + n ≤ paddedLength frame n ∧ paddedLength frame n < innerLengthBytes + n + frame.bytes := by
  have positive := frame.bytes_pos
  have split := Nat.div_add_mod (innerLengthBytes + n + (frame.bytes - 1)) frame.bytes
  have rest := Nat.mod_lt (innerLengthBytes + n + (frame.bytes - 1)) positive
  rw [Nat.mul_comm] at split
  unfold paddedLength
  omega

variable {n : Nat}

theorem paddedLength_mono (frame : FrameClass) {m : Nat} (h : m ≤ n) : paddedLength frame m ≤ paddedLength frame n :=
  Nat.mul_le_mul_right _ (Nat.div_le_div_right (by omega))

variable {frame : FrameClass}

theorem validateCiphertextLength_padded (fits : n ≤ maxPlaintextBytes) :
    validateCiphertextLength frame (paddedLength frame n + tagBytes) = .ok () := by
  have bounds := paddedLength_bounds frame n
  have bound := paddedLength_mono frame fits
  have whole : paddedLength frame n % frame.bytes = 0 := Nat.mul_mod_left _ _
  have inner : 0 < innerLengthBytes := by decide
  rw [validateCiphertextLength, require_pos _ (Nat.le_add_left _ _), ok_bind, Nat.add_sub_cancel,
    require_pos _ ⟨by omega, whole⟩, ok_bind, require_pos _ (by omega)]

theorem validateCiphertextLength_lt (h : validateCiphertextLength frame n = .ok ()) : n < 2 ^ 64 := by
  obtain ⟨_, -, _, -, h⟩ := bind_ok₂ h
  have bound := require_ok.mp h
  have padded := (paddedLength_bounds frame maxPlaintextBytes).2
  have frameBytes : frame.bytes ≤ 64 * 1024 := by cases frame <;> decide
  simp only [innerLengthBytes, maxPlaintextBytes, tagBytes] at *
  omega

namespace EncryptedEnvelope

variable {envelope : EncryptedEnvelope} {bytes : List UInt8}

theorem decode_eq_ok : decode bytes = .ok envelope ↔
    bytes = envelope.encode ∧ validateCiphertextLength envelope.frame envelope.ciphertext.length = .ok () := by
  have magic : (ascii "USTE").length = 4 := rfl
  obtain ⟨frame, epoch, nonce, ciphertext⟩ := envelope
  have kind : [objectEnvelopeKind, envelopeFormatMajor, envelopeFormatMinor, suiteTag, frame.tag] =
    [objectEnvelopeKind, envelopeFormatMajor, envelopeFormatMinor, suiteTag] ++ [frame.tag] := rfl
  simp only [encode, header, objectHeader, kind, append_assoc]
  simp [↓eq_append_iff, slice_drop, decode, magic, Octets.ofList?_eq_some]
  simp only [headerBytes]
  constructor
  · rintro ⟨⟨long, magic⟩, kind, tagAt, epochAt, nonceAt, ⟨_, valid⟩, total, rfl⟩
    obtain ⟨tag, found⟩ := length_eq_one_iff.mp (length_slice (show 8 + 1 ≤ bytes.length by omega))
    have count : ofBigEndian (slice bytes 41 8) = (bytes.drop 49).length := by rw [length_drop]; omega
    rw [count] at valid
    rw [ofBigEndian_eq (length_slice (by omega))] at epochAt count
    exact ⟨⟨magic, kind, by simpa [found] using tagAt, epochAt.1, nonceAt, count.1, rfl⟩, valid⟩
  · rintro ⟨⟨magic, kind, tagAt, epochAt, nonceAt, count, rfl⟩, valid⟩
    have fits := validateCiphertextLength_lt valid
    have long : 49 ≤ bytes.length := by
      have length := congrArg List.length count
      rw [length_bigEndian, slice, length_take, length_drop] at length
      omega
    rw [epochAt, count, tagAt, ofBigEndian_bigEndian (show _ < 256 ^ 8 from epoch.fits),
      ofBigEndian_bigEndian (show _ < 256 ^ 8 from fits)]
    exact ⟨⟨long, magic⟩, kind, by simp, rfl, nonceAt, ⟨(), valid⟩, by rw [length_drop]; omega, rfl⟩

theorem decode_initial {envelope' : EncryptedEnvelope}
    (valid : validateCiphertextLength envelope.frame envelope.ciphertext.length = .ok ())
    (cut : bytes <+: envelope.encode) (h : decode bytes = .ok envelope') : bytes = envelope.encode := by
  obtain ⟨rfl, valid'⟩ := decode_eq_ok.mp h
  have lengths : envelope'.ciphertext.length = envelope.ciphertext.length := by
    obtain ⟨rest, whole⟩ := cut
    simp only [encode, header, append_assoc] at whole
    have headers := append_inj_left whole (by rw [length_objectHeader, length_objectHeader])
    exact bigEndian_inj (show _ < 256 ^ 8 from validateCiphertextLength_lt valid') (validateCiphertextLength_lt valid)
      (append_inj_right' headers (by simp))
  exact cut.eq_of_length (by simp only [encode, header, length_append, length_objectHeader, lengths])

end EncryptedEnvelope

end Uste.Crypto
