import Uste.Crypto.Vault

/-!
What an envelope promises: it opens for the context it was sealed for and for no other, its length
tells the number of frames and nothing else, and no vault uses a nonce twice.
-/

namespace Uste.Crypto

open Types Program List

variable {envelope : EncryptedEnvelope}

/-! ### Contexts -/

theorem ObjectRole.tag_injective {a b : ObjectRole} (same : a.tag = b.tag) : a = b := by
  revert same
  cases a <;> cases b <;> decide

theorem CryptoContext.canonicalBytes_injective {a b : CryptoContext} (fits : a.sequence < 2 ^ 64)
    (fits' : b.sequence < 2 ^ 64) (same : a.canonicalBytes = b.canonicalBytes) : a = b := by
  obtain ⟨same, last⟩ := append_inj' same rfl
  obtain ⟨same, writer⟩ := append_inj' same (by simp)
  obtain ⟨same, sequence⟩ := append_inj' same (by simp)
  obtain ⟨same, object⟩ := append_inj' same (by simp)
  obtain ⟨same, role⟩ := append_inj' same rfl
  obtain ⟨same, epoch⟩ := append_inj' same (by simp)
  obtain ⟨database, scope⟩ := append_inj same (by simp)
  simp only [List.cons.injEq, and_true] at last role
  have frames : a.frame = b.frame :=
    Option.some.inj ((FrameClass.fromTag_eq_some.mpr rfl).symm.trans (FrameClass.fromTag_eq_some.mpr last.2.2))
  have scopes : a.scope = b.scope := by
    revert scope
    cases a.scope <;> cases b.scope <;> intro scope
    · rfl
    · cases (List.cons.inj scope).1
    · cases (List.cons.inj scope).1
    · rw [Identity.ext (Octets.ext (List.cons.inj scope).2)]
  have databases := Identity.ext (Octets.ext database)
  have epochs := KeyEpoch.ext (bigEndian_inj a.epoch.fits b.epoch.fits epoch)
  have roles := ObjectRole.tag_injective role
  have sequences := bigEndian_inj fits fits' sequence
  have objects := Octets.ext object
  have writers := Octets.ext writer
  cases a
  cases b
  simp_all

/-! ### No other context opens an envelope -/

/-- What an ideal cipher promises of a ciphertext: only the data it was sealed with opens it. -/
def Authentic [Primitives] (aad ciphertext : List UInt8) : Prop :=
  ∀ key nonce aad' opened, Primitives.aeadOpen key nonce aad' ciphertext = some opened → aad' = aad

section

variable {master : Octets 32} {context other : CryptoContext}

theorem associatedData_injective {header : List UInt8} (fits : context.sequence < 2 ^ 64) (fits' : other.sequence < 2 ^ 64)
    (same : associatedData header other = associatedData header context) : other = context :=
  CryptoContext.canonicalBytes_injective fits' fits (append_cancel_left same)

theorem decrypt_other [Primitives] (valid : validateCiphertextLength envelope.frame envelope.ciphertext.length = .ok ())
    (authentic : Authentic (associatedData envelope.header context) envelope.ciphertext)
    (fits : context.sequence < 2 ^ 64) (fits' : other.sequence < 2 ^ 64) (differ : other ≠ context) :
    decrypt master other envelope = .error .integrityFailure := by
  unfold decrypt require
  split
  · rw [ok_bind, valid, ok_bind]
    cases opened : Primitives.aeadOpen (derive master other) envelope.nonce (associatedData envelope.header other)
      envelope.ciphertext with
    | none => rfl
    | some padded => exact absurd (associatedData_injective fits fits' (authentic _ _ _ _ opened)) differ
  · rfl

end

/-! ### Nonces -/

def framesNeeded (frame : FrameClass) (plaintextLen : Nat) : Nat := (innerLengthBytes + plaintextLen) ⌈/⌉ frame.bytes

theorem paddedLength_frames (frame : FrameClass) (n : Nat) : paddedLength frame n = framesNeeded frame n * frame.bytes := by
  have positive := frame.bytes_pos
  rw [paddedLength, framesNeeded, Nat.ceilDiv_eq_add_pred_div, Nat.add_sub_assoc positive]

namespace KeyVault

variable {W E : Type}

def lock (vault : KeyVault W E) : KeyVault W E := { vault with key := none }

theorem unlock_nonces (unwrap : DatabaseId → W → Except CryptoError (Octets 32)) (vault : KeyVault W E) :
    ((vault.unlock unwrap).toOption.getD vault).usedNonces = vault.usedNonces := by
  unfold unlock
  cases vault.key with
  | some key => rfl
  | none => cases unwrap vault.database vault.wrapped <;> rfl

inductive Call (W : Type) where
  | encrypt (context : CryptoContext) (plaintext : List UInt8)
  | lock
  | unlock (unwrap : DatabaseId → W → Except CryptoError (Octets 32))

variable [Primitives] [EntropySource E]

def call : Call W → KeyVault W E → Option EncryptedEnvelope × KeyVault W E
  | .encrypt context plaintext, vault =>
    let result := (encrypt context plaintext).run vault
    (result.1.toOption, result.2)
  | .lock, vault => (none, vault.lock)
  | .unlock unwrap, vault => (none, (vault.unlock unwrap).toOption.getD vault)

def envelopes : List (Call W) → KeyVault W E → List EncryptedEnvelope
  | [], _ => []
  | next :: calls, vault => (call next vault).1.toList ++ envelopes calls (call next vault).2

variable {vault vault' : KeyVault W E} {context : CryptoContext} {plaintext : List UInt8}

/-- What is returned was sealed under the key the vault keeps, with a nonce it has not used before. -/
theorem encrypt_made : wp (encrypt context plaintext)
    (fun envelope vault' => context.database = vault'.database ∧ plaintext.length ≤ maxPlaintextBytes ∧
      (∃ key, vault'.key = some key ∧ envelope = Crypto.encrypt key context envelope.nonce plaintext) ∧
      envelope.nonce ∉ vault.usedNonces ∧ vault'.usedNonces = envelope.nonce :: vault.usedNonces)
    (fun _ vault' => vault'.usedNonces = vault.usedNonces) vault := by
  rw [encrypt, wp_bind, wp_read]
  refine wp_checks (fun here => ?_) fun _ => rfl
  refine wp_checks (fun fits => ?_) fun _ => rfl
  refine wp_lifts (fun key unlocked => ?_) fun _ _ => rfl
  refine wp_checks (fun _ => ?_) fun _ => rfl
  refine wp_lifts (fun nonce _ => ?_) fun _ _ => rfl
  refine wp_checks (fun fresh => ?_) fun _ => rfl
  exact ⟨here, fits, ⟨key, orError_ok.mp unlocked, rfl⟩, fresh, rfl⟩

theorem call_nonces (next : Call W) (vault : KeyVault W E) :
    (call next vault).2.usedNonces = (call next vault).1.toList.map (·.nonce) ++ vault.usedNonces ∧
    ∀ envelope ∈ (call next vault).1, envelope.nonce ∉ vault.usedNonces := by
  cases next with
  | encrypt context plaintext =>
    have spec : wp (encrypt context plaintext) _ _ vault := encrypt_made
    rw [wp_iff] at spec
    rw [call]
    cases ran : (encrypt context plaintext).run vault with
    | mk result vault' =>
      cases result with
      | error e => simpa [Except.toOption] using spec.2 e vault' ran
      | ok envelope =>
        obtain ⟨-, -, -, fresh, used⟩ := spec.1 envelope vault' ran
        simpa [Except.toOption, used] using fresh
  | lock => exact ⟨rfl, nofun⟩
  | unlock unwrap => exact ⟨unlock_nonces unwrap vault, nofun⟩

theorem envelopes_nonces (calls : List (Call W)) (vault : KeyVault W E) :
    ((envelopes calls vault).map (·.nonce)).Nodup ∧
    ∀ envelope ∈ envelopes calls vault, envelope.nonce ∉ vault.usedNonces := by
  induction calls generalizing vault with
  | nil => exact ⟨nodup_nil, nofun⟩
  | cons next calls ih =>
    obtain ⟨used, fresh⟩ := call_nonces next vault
    obtain ⟨distinct, later⟩ := ih (call next vault).2
    rw [used] at later
    cases returned : (call next vault).1 with
    | none =>
      simp only [returned, envelopes, Option.toList_none, nil_append, map_nil] at later ⊢
      exact ⟨distinct, later⟩
    | some first =>
      simp only [returned, envelopes, Option.toList_some, cons_append, nil_append, map_cons, map_nil,
        mem_cons, not_or, forall_eq_or_imp] at later ⊢
      have apart : first.nonce ∉ (envelopes calls (call next vault).2).map (·.nonce) := by
        intro mem
        obtain ⟨envelope, mem, same⟩ := mem_map.mp mem
        exact (later envelope mem).1 same
      exact ⟨nodup_cons.mpr ⟨apart, distinct⟩, fresh first returned, fun envelope mem => (later envelope mem).2⟩

/-! ### What an envelope promises -/

/-- An envelope reads back from its bytes, opens for the context it was sealed for alone, and is as
long as its frames. -/
structure Promise (vault : KeyVault W E) (context : CryptoContext) (plaintext : List UInt8) (envelope : EncryptedEnvelope) :
    Prop where
  survives : EncryptedEnvelope.decode envelope.encode = .ok envelope
  length : envelope.encode.length =
    headerBytes + framesNeeded context.frame plaintext.length * context.frame.bytes + tagBytes
  opens : vault.decrypt context envelope = .ok plaintext
  alone : Authentic (associatedData envelope.header context) envelope.ciphertext →
    ∀ other : CryptoContext, other.sequence < 2 ^ 64 → other ≠ context →
      vault.decrypt other envelope = .error .integrityFailure

variable [Primitives.Lawful]

theorem encrypt_promise (fits : context.sequence < 2 ^ 64)
    (sealed : (encrypt context plaintext).run vault = (.ok envelope, vault')) :
    vault'.Promise context plaintext envelope := by
  obtain ⟨here, short, ⟨key, unlocked, made⟩, -, -⟩ := wp_ok encrypt_made sealed
  have valid : validateCiphertextLength envelope.frame envelope.ciphertext.length = .ok () := by
    rw [made]
    exact encrypt_valid short
  refine ⟨EncryptedEnvelope.decode_eq_ok.mpr ⟨rfl, valid⟩, ?_, ?_, ?_⟩
  · rw [made, length_encode, paddedLength_frames]
  · rw [decrypt, require_pos _ here, ok_bind, unlocked, made]
    exact decrypt_encrypt short
  · intro authentic other fits' differ
    unfold decrypt require
    split
    · rw [unlocked]
      exact decrypt_other valid authentic fits fits' differ
    · rfl

/-- Sealing keeps its promises, every accepted byte string is the encoding of what was read, and no
two envelopes of one vault share a nonce, whatever the source of randomness returns. -/
theorem envelopes_keep_promises :
    (∀ (vault vault' : KeyVault W E) context plaintext envelope, context.sequence < 2 ^ 64 →
      (encrypt context plaintext).run vault = (.ok envelope, vault') → vault'.Promise context plaintext envelope) ∧
    (∀ bytes envelope, EncryptedEnvelope.decode bytes = .ok envelope → envelope.encode = bytes) ∧
    ∀ (calls : List (Call W)) (vault : KeyVault W E), ((envelopes calls vault).map (·.nonce)).Nodup := by
  refine ⟨?_, ?_, fun calls vault => (envelopes_nonces calls vault).1⟩
  · intro vault vault' context plaintext envelope fits sealed
    exact encrypt_promise fits sealed
  · intro bytes envelope read
    exact (EncryptedEnvelope.decode_eq_ok.mp read).1.symm

end KeyVault

section Sample

def sampleContext : CryptoContext := ⟨default, .database, .first, .snapshot, default, 7, default, 1, 0, .small4KiB⟩

def sampleData : List UInt8 := associatedData (objectHeader .small4KiB .first default (4096 + tagBytes)) sampleContext

def sampleTag (aad : List UInt8) : List UInt8 := List.replicate tagBytes (if aad = sampleData then 1 else 0)

/-- Primitives whose tag tells one piece of associated data from all others. -/
@[reducible] def markingPrimitives : Primitives where
  sha256 _ := default
  aeadSeal _ _ aad plaintext := plaintext ++ sampleTag aad
  aeadOpen _ _ aad bytes := if sampleTag aad <:+ bytes then some (bytes.take (bytes.length - tagBytes)) else none
  hkdf _ _ := default

attribute [local instance] markingPrimitives

theorem markingPrimitives_lawful : Primitives.Lawful where
  open_seal _ _ aad plaintext := by
    show (if sampleTag aad <:+ plaintext ++ sampleTag aad then
      some ((plaintext ++ sampleTag aad).take ((plaintext ++ sampleTag aad).length - tagBytes)) else none) = _
    rw [if_pos (suffix_append _ _)]
    simp [sampleTag]
  length_seal _ _ aad plaintext := by
    show (plaintext ++ sampleTag aad).length = plaintext.length + tagBytes
    simp [sampleTag]

instance zeroEntropy : EntropySource Unit where
  fill _ _ := (some default, ())

def sampleVault : KeyVault Unit Unit := ⟨default, (), some default, (), [], 100⟩

theorem sample_authentic (bytes : List UInt8) : Authentic sampleData (bytes ++ sampleTag sampleData) := by
  intro key nonce aad opened found
  by_contra other
  have marks : sampleTag aad <:+ bytes ++ sampleTag sampleData := by
    by_contra missing
    exact absurd (found.symm.trans (if_neg missing)) nofun
  have same := List.IsSuffix.eq_of_length (suffix_of_suffix_length_le marks (suffix_append _ _) (by simp [sampleTag]))
    (by simp [sampleTag])
  simp [sampleTag, other, tagBytes] at same

theorem envelopes_keep_promises_sample : ∃ envelope vault,
    (KeyVault.encrypt sampleContext [1, 2, 3]).run sampleVault = (.ok envelope, vault) ∧
    Authentic (associatedData envelope.header sampleContext) envelope.ciphertext ∧
    vault.Promise sampleContext [1, 2, 3] envelope := by
  have ran : (KeyVault.encrypt sampleContext [1, 2, 3]).run sampleVault =
      (.ok (encrypt default sampleContext default [1, 2, 3]), { sampleVault with usedNonces := [default] }) := rfl
  have := markingPrimitives_lawful
  refine ⟨_, _, ran, ?_, ?_⟩
  · rw [EncryptedEnvelope.header, length_ciphertext]
    exact sample_authentic _
  · exact KeyVault.envelopes_keep_promises.1 _ _ _ _ _ (by decide) ran

end Sample

end Uste.Crypto
