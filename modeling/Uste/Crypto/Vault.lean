import Uste.Crypto.Envelope

/-!
The vault that owns the unlocked master key: it never issues a nonce twice in a session, and what
it sealed for a context it opens again for that context.
-/

namespace Uste.Crypto

open Types Program

/-- A source of random bytes, which fills the whole array or fails. -/
class EntropySource (E : Type) where
  fill : (n : Nat) → E → Option (Octets n) × E

/-- The documented behaviour of the cipher. -/
class Primitives.Lawful [Primitives] : Prop where
  open_seal : ∀ key nonce aad plaintext,
    Primitives.aeadOpen key nonce aad (Primitives.aeadSeal key nonce aad plaintext) = some plaintext
  length_seal : ∀ key nonce aad plaintext,
    (Primitives.aeadSeal key nonce aad plaintext).length = plaintext.length + tagBytes

structure KeyVault (W E : Type) where
  database : DatabaseId
  wrapped : W
  key : Option (Octets 32)
  entropy : E
  usedNonces : List (Octets 24)
  nonceLimit : Nat

namespace KeyVault

variable {W E : Type}

def fromLocked (database : DatabaseId) (wrapped : W) (entropy : E) : KeyVault W E where
  database := database
  wrapped := wrapped
  key := none
  entropy := entropy
  usedNonces := []
  nonceLimit := maxNoncesPerWriterSession

def unlock (unwrap : DatabaseId → W → Except CryptoError (Octets 32)) (vault : KeyVault W E) :
    Except CryptoError (KeyVault W E) :=
  match vault.key with
  | some _ => .ok vault
  | none => do
    let key ← unwrap vault.database vault.wrapped
    pure { vault with key := some key }

variable [Primitives]

def encrypt [EntropySource E] (context : CryptoContext) (plaintext : List UInt8) :
    Program (KeyVault W E) CryptoError EncryptedEnvelope := do
  let vault ← read
  ensure (context.database = vault.database) .invalidContext
  ensure (plaintext.length ≤ maxPlaintextBytes) .resourceLimit
  let key ← lift id (orError .locked vault.key)
  ensure (vault.usedNonces.length < vault.nonceLimit) .nonceSessionExhausted
  let filled := EntropySource.fill 24 vault.entropy
  update fun vault => { vault with entropy := filled.2 }
  let nonce ← lift id (orError .retryableUnavailable filled.1)
  ensure (nonce ∉ vault.usedNonces) .integrityFailure
  update fun vault => { vault with usedNonces := nonce :: vault.usedNonces }
  pure (Crypto.encrypt key context nonce plaintext)

def decrypt (vault : KeyVault W E) (context : CryptoContext) (envelope : EncryptedEnvelope) :
    Except CryptoError (List UInt8) := do
  require (context.database = vault.database) .integrityFailure
  let key ← orError .locked vault.key
  Crypto.decrypt key context envelope

def deriveOpaqueIdentifier (vault : KeyVault W E) (context : CryptoContext) (input : Octets 32) :
    Except CryptoError (Octets 32) := do
  require (context.database = vault.database ∧ (context.role = .blobInventoryName ∨ context.role = .indexName))
    .invalidContext
  let key ← orError .locked vault.key
  pure (derivePublicToken key context input)

end KeyVault

/-! ### What was sealed opens again -/

theorem length_pad (frame : FrameClass) (plaintext : List UInt8) :
    (pad frame plaintext).length = paddedLength frame plaintext.length := by
  have := (paddedLength_bounds frame plaintext.length).1
  simp only [pad, List.length_append, length_bigEndian, List.length_replicate, innerLengthBytes] at *
  omega

theorem unpad_pad {frame : FrameClass} {plaintext : List UInt8} (fits : plaintext.length ≤ maxPlaintextBytes) :
    unpad (pad frame plaintext) = .ok plaintext := by
  have bound := (paddedLength_bounds frame plaintext.length).1
  have size := length_pad frame plaintext
  have word : plaintext.length < 256 ^ 8 := Nat.lt_of_le_of_lt fits (by decide)
  have actual : ofBigEndian (slice (pad frame plaintext) 0 innerLengthBytes) = plaintext.length := by
    have inner : slice (pad frame plaintext) 0 innerLengthBytes = bigEndian 8 plaintext.length := by
      exact slice_here (length_bigEndian 8 _)
    rw [inner, ofBigEndian_bigEndian word]
  have body : slice (pad frame plaintext) innerLengthBytes plaintext.length = plaintext := by
    rw [pad, List.append_assoc, slice_skip (by simp [innerLengthBytes])]
    simp [innerLengthBytes, slice]
  have tail : (pad frame plaintext).drop (innerLengthBytes + plaintext.length) =
      List.replicate (paddedLength frame plaintext.length - (innerLengthBytes + plaintext.length)) 0 := by
    exact List.drop_left' (by simp [innerLengthBytes])
  simp only [unpad, actual, tail, body]
  rw [require_pos _ (by omega), ok_bind, require_pos _ ⟨fits, by omega⟩, ok_bind,
    require_pos _ fun b mem => List.eq_of_mem_replicate mem]
  rfl

section

variable [Primitives] [Primitives.Lawful] {master : Octets 32} {context : CryptoContext} {nonce : Octets 24}
  {plaintext : List UInt8}

theorem length_ciphertext : (encrypt master context nonce plaintext).ciphertext.length =
    paddedLength context.frame plaintext.length + tagBytes := by
  rw [encrypt, Primitives.Lawful.length_seal, length_pad]

theorem encrypt_valid (fits : plaintext.length ≤ maxPlaintextBytes) :
    validateCiphertextLength (encrypt master context nonce plaintext).frame
      (encrypt master context nonce plaintext).ciphertext.length = .ok () := by
  rw [length_ciphertext]
  exact validateCiphertextLength_padded fits

theorem decrypt_encrypt (fits : plaintext.length ≤ maxPlaintextBytes) :
    decrypt master context (encrypt master context nonce plaintext) = .ok plaintext := by
  have opened : Primitives.aeadOpen (derive master context) (encrypt master context nonce plaintext).nonce
      (associatedData (encrypt master context nonce plaintext).header context)
      (encrypt master context nonce plaintext).ciphertext = some (pad context.frame plaintext) := by
    rw [EncryptedEnvelope.header, length_ciphertext]
    exact Primitives.Lawful.open_seal ..
  rw [decrypt, require_pos _ ⟨rfl, rfl⟩, ok_bind, encrypt_valid fits, ok_bind, opened, orError,
    ok_bind, unpad_pad fits]

theorem length_encode : (encrypt master context nonce plaintext).encode.length =
    headerBytes + paddedLength context.frame plaintext.length + tagBytes := by
  rw [EncryptedEnvelope.encode, EncryptedEnvelope.header, List.length_append, length_objectHeader, length_ciphertext,
    Nat.add_assoc]

end

/-- The bytes are an envelope of the plaintext, sealed under the key for the context. -/
def Sealed [Primitives] (key : Octets 32) (context : CryptoContext) (plaintext bytes : List UInt8) : Prop :=
  plaintext.length ≤ maxPlaintextBytes ∧ ∃ nonce, bytes = (encrypt key context nonce plaintext).encode

namespace Sealed

variable [Primitives] [Primitives.Lawful] {key : Octets 32} {context : CryptoContext} {plaintext bytes : List UInt8}

section

variable (h : Sealed key context plaintext bytes)

include h

theorem length : bytes.length = headerBytes + paddedLength context.frame plaintext.length + tagBytes := by
  obtain ⟨-, nonce, rfl⟩ := h
  exact length_encode

theorem decode : ∃ envelope, EncryptedEnvelope.decode bytes = .ok envelope ∧
    envelope.epoch = context.epoch ∧ Crypto.decrypt key context envelope = .ok plaintext := by
  obtain ⟨fits, nonce, rfl⟩ := h
  exact ⟨_, EncryptedEnvelope.decode_eq_ok.mpr ⟨rfl, encrypt_valid fits⟩, rfl, decrypt_encrypt fits⟩

theorem eq_of_initial {part : List UInt8} {envelope : EncryptedEnvelope}
    (cut : part <+: bytes) (accepted : EncryptedEnvelope.decode part = .ok envelope) : part = bytes := by
  obtain ⟨fits, nonce, rfl⟩ := h
  exact EncryptedEnvelope.decode_initial (encrypt_valid fits) cut accepted

end

end Sealed

namespace KeyVault

variable {W E : Type} [Primitives]

def Same (vault vault' : KeyVault W E) : Prop :=
  vault'.database = vault.database ∧ vault'.wrapped = vault.wrapped ∧ vault'.key = vault.key

variable {vault : KeyVault W E} {context : CryptoContext} {plaintext : List UInt8}

theorem encrypt_spec [EntropySource E] {key : Octets 32} (unlocked : vault.key = some key) :
    wp (encrypt context plaintext)
      (fun envelope vault' => vault.Same vault' ∧ Sealed key context plaintext envelope.encode)
      (fun _ vault' => vault.Same vault') vault := by
  rw [encrypt, wp_bind, wp_read, wp_bind, wp_ensure]
  refine ⟨fun _ => ?_, fun _ => ⟨rfl, rfl, rfl⟩⟩
  refine wp_checks (fun fits => ?_) fun _ => ⟨rfl, rfl, rfl⟩
  rw [wp_bind, unlocked]
  refine wp_checks (fun _ => ?_) fun _ => ⟨rfl, rfl, rfl⟩
  refine wp_lifts (fun nonce filled => ?_) fun _ _ => ⟨rfl, rfl, rfl⟩
  refine wp_checks (fun _ => ?_) fun _ => ⟨rfl, rfl, rfl⟩
  exact ⟨⟨rfl, rfl, rfl⟩, fits, nonce, rfl⟩

theorem encrypt_unlocked [EntropySource E] :
    wp (encrypt context plaintext) (fun _ _ => context.database = vault.database ∧ ∃ key, vault.key = some key)
      (fun _ _ => True) vault := by
  rw [encrypt, wp_bind, wp_read, wp_bind, wp_ensure]
  refine ⟨fun scope => ?_, fun _ => trivial⟩
  refine wp_checks (fun _ => ?_) fun _ => trivial
  refine wp_lifts (fun key unlocked => ?_) fun _ _ => trivial
  have here : context.database = vault.database ∧ ∃ key, vault.key = some key := ⟨scope, key, orError_ok.mp unlocked⟩
  refine wp_checks (fun _ => ?_) fun _ => trivial
  refine wp_lifts (fun nonce _ => ?_) fun _ _ => trivial
  rw [wp_bind, wp_ensure]
  exact ⟨fun _ => here, fun _ => trivial⟩

theorem decrypt_sealed [Primitives.Lawful] {key : Octets 32}
    {bytes : List UInt8} (unlocked : vault.key = some key) (scope : context.database = vault.database)
    (h : Sealed key context plaintext bytes) : ∃ envelope, EncryptedEnvelope.decode bytes = .ok envelope ∧
      envelope.epoch = context.epoch ∧ vault.decrypt context envelope = .ok plaintext := by
  obtain ⟨envelope, decoded, epoch, opened⟩ := h.decode
  refine ⟨envelope, decoded, epoch, ?_⟩
  rw [decrypt, require_pos _ scope, ok_bind, unlocked]
  exact opened

end KeyVault

end Uste.Crypto
