import Uste.Storage.Blob
import Uste.Storage.FileModel

/-!
Inventories read back as they were written, entry names do not collide, and `verify_reference`
depends on the directory only through what its chunk files hold.
-/

namespace Uste.Storage

open Types Crypto Program FileSystem Std List

/-! ### Inventories -/

variable {n offset : Nat} {bytes : List UInt8} {a : Octets n}

@[simp] theorem readArray_ok : readArray n bytes offset = .ok a ↔ slice bytes offset n = a.bytes := by
  rw [readArray, orError_ok, Octets.ofList?_eq_some]

def word (width n : Nat) : Octets width := ⟨bigEndian width n, length_bigEndian width n⟩

theorem ofBigEndian_octets {width n : Nat} {w : Octets width} : ofBigEndian w.bytes = n ↔ w = word width n ∧ n < 256 ^ width := by
  rw [ofBigEndian_eq w.length_bytes, word, Octets.ext_iff]

theorem word_ok {width n : Nat} : (do
      let word ← readArray width bytes offset
      pure (ofBigEndian word.bytes) : Except StorageError Nat) = .ok n ↔
    slice bytes offset width = bigEndian width n ∧ n < 256 ^ width := by
  simp [ofBigEndian_octets, word]

variable {r : BlobReference}

theorem BlobReference.shape_bounds (h : r.validReferenceShape = true) :
    r.byteLen < 256 ^ 8 ∧ r.chunkCount < 256 ^ 4 := by
  unfold validReferenceShape maxBlobBytes blobChunkBytes at h
  split at h
  · cases h
  · have count := of_decide_eq_true h
    split at count <;> omega

theorem length_encodeReference (r : BlobReference) : (encodeReference r).length = inventoryEntryBytes := by
  simp [encodeReference, inventoryEntryBytes]

theorem decodeReference_ok {scope : NamespaceRef} : decodeReference scope bytes = .ok r ↔
    r.scope = scope ∧ r.byteLen < 256 ^ 8 ∧ r.chunkCount < 256 ^ 4 ∧ slice bytes 0 inventoryEntryBytes = encodeReference r := by
  obtain ⟨_, id, byteLen, chunkCount, digest⟩ := r
  have long (h : slice bytes 32 32 = digest.bytes) : 64 ≤ bytes.length := by
    have length := congrArg List.length h
    rw [digest.length_bytes, slice, length_take, length_drop] at length
    omega
  have zeros (h : 64 ≤ bytes.length) : (∀ b ∈ slice bytes 28 4, b = 0) ↔ slice bytes 28 4 = [0, 0, 0, 0] := by
    rw [show [0, 0, 0, 0] = List.replicate 4 (0 : UInt8) from rfl, eq_replicate_iff, length_slice (by omega)]
    simp
  have whole (h : 64 ≤ bytes.length) : (slice bytes 0 64).length = 64 := length_slice (by omega)
  simp only [encodeReference, append_assoc, inventoryEntryBytes]
  simp [decodeReference, ofBigEndian_octets, ↓eq_append_iff, slice_drop, drop_eq_iff, slice_within, word]
  grind

theorem decodeReference_encode (shape : r.validReferenceShape = true) (rest : List UInt8) :
    decodeReference r.scope (encodeReference r ++ rest) = .ok r := by
  obtain ⟨bytes, chunks⟩ := BlobReference.shape_bounds shape
  exact decodeReference_ok.mpr ⟨rfl, bytes, chunks, slice_here (length_encodeReference r)⟩

theorem decodeReferences_encode {scope : NamespaceRef} {references : List BlobReference} {previous : Option BlobId}
    (shape : ∀ r ∈ references, r.scope = scope ∧ r.validReferenceShape = true)
    (sorted : references.Pairwise fun a b => compare a.id b.id = .lt)
    (after : ∀ p ∈ previous, ∀ r ∈ references, compare p r.id = .lt) :
    decodeReferences scope references.length previous (references.flatMap encodeReference) = .ok references := by
  induction references generalizing previous with
  | nil => rfl
  | cons r rest ih =>
    obtain ⟨rfl, valid⟩ := shape r mem_cons_self
    obtain ⟨above, sorted⟩ := pairwise_cons.mp sorted
    have next : decodeReferences r.scope rest.length (some r.id) (rest.flatMap encodeReference) = .ok rest := by
      refine ih (fun q mem => shape q (mem_cons_of_mem r mem)) sorted ?_
      intro p here q mem
      obtain rfl := Option.some.inj here
      exact above q mem
    rw [flatMap_cons, length_cons, decodeReferences, decodeReference_encode valid, ok_bind,
      require_pos _ ⟨valid, fun p before => after p before r mem_cons_self⟩, ok_bind,
      ← length_encodeReference r, drop_left, next]
    rfl

theorem length_flatMap_encodeReference (references : List BlobReference) :
    (references.flatMap encodeReference).length = references.length * inventoryEntryBytes := by
  induction references with
  | nil => simp
  | cons r rest ih =>
    rw [flatMap_cons, length_append, ih, length_encodeReference, length_cons,
      Nat.succ_mul, Nat.add_comm]

namespace BlobInventory

variable {inventory : BlobInventory}

theorem encoded_of_nonempty (nonempty : inventory.isEmpty = false) :
    inventory.encoded = encodeInventory inventory.scope inventory.references := by
  rw [encoded, if_neg]
  intro empty
  simp [isEmpty, empty] at nonempty

theorem length_encoded (nonempty : inventory.isEmpty = false) :
    inventory.encoded.length = inventoryHeaderBytes + inventory.references.length * inventoryEntryBytes := by
  rw [encoded_of_nonempty nonempty, encodeInventory]
  simp only [length_append, length_flatMap_encodeReference, length_bigEndian, Octets.length_bytes,
    length_replicate, length_cons, length_nil, inventoryHeaderBytes]
  rfl

variable {scope : NamespaceRef} {count : Nat} {bytes : List UInt8}

theorem decodeEntries_ok (bounded : count ≤ maxBlobsPerInventory) (inScope : inventory.scope = scope)
    (decoded : decodeReferences scope count none bytes = .ok inventory.references) :
    decodeEntries scope count bounded bytes = .ok inventory := by
  unfold decodeEntries
  split
  · rename_i failed
    rw [decoded] at failed
    cases failed
  · rename_i references again
    rw [decoded] at again
    exact congrArg Except.ok (ext inScope.symm (Except.ok.inj again).symm)

theorem decode_encoded (nonempty : inventory.isEmpty = false) :
    decode inventory.scope.database inventory.encoded = .ok inventory := by
  have size := length_encoded nonempty
  have bounded := inventory.valid.bounded
  have magic : (ascii "UBIN").length = 4 := rfl
  have some : inventory.references.length ≠ 0 := by simpa [isEmpty] using nonempty
  have fields := encoded_of_nonempty nonempty
  simp only [encodeInventory, append_assoc] at fields
  simp [↓eq_append_iff, slice_drop, magic] at fields
  obtain ⟨magicField, version, namespaceField, countField, reserved, body⟩ := fields
  have fits : inventory.references.length < 256 ^ 4 := Nat.lt_of_le_of_lt bounded (by decide)
  have counted : ofBigEndian (slice inventory.encoded 24 4) = inventory.references.length := by
    rw [countField, ofBigEndian_bigEndian fits]
  have namespaceRead : readArray 16 inventory.encoded 8 = .ok inventory.scope.namespaceId.bytes :=
    readArray_ok.mpr namespaceField
  rw [decode, require_pos _ ⟨by omega, magicField, version, by simp [reserved]⟩, ok_bind]
  simp only [counted]
  rw [dif_pos ⟨some, bounded, size⟩, namespaceRead, ok_bind, show inventory.encoded.drop inventoryHeaderBytes = _ from body]
  exact decodeEntries_ok bounded rfl (decodeReferences_encode inventory.valid.shape inventory.valid.sorted nofun)

/-! An inventory is the one form of its references: their order does not matter, nor is there another encoding. -/

/-- As `new` compares them. -/
abbrev NotAfter (a b : BlobReference) : Prop := (compare a.id b.id).isLE = true

instance : Std.Total NotAfter where
  total a b := by
    unfold NotAfter
    rw [@OrientedCmp.eq_swap _ compare _ b.id a.id]
    cases compare a.id b.id <;> simp

instance : IsTrans BlobReference NotAfter := ⟨fun _ _ _ => TransCmp.isLE_trans⟩

theorem ids_nodup (inventory : BlobInventory) : (inventory.references.map (·.id)).Nodup := by
  refine pairwise_map.mpr (inventory.valid.sorted.imp fun less same => ?_)
  rw [same, ReflOrd.compare_self] at less
  cases less

variable {references : List BlobReference}

theorem new_of_perm (perm : references.Perm inventory.references) : new inventory.scope references = .ok inventory := by
  have sorted : references.insertionSort (fun a b => (compare a.id b.id).isLE) = inventory.references := by
    have order : inventory.references.Pairwise NotAfter := inventory.valid.sorted.imp fun less => by rw [NotAfter, less]; rfl
    have sort := (perm_insertionSort NotAfter references).trans perm
    refine sort.eq_of_pairwise (fun a b here there le ge => ?_) (pairwise_insertionSort NotAfter references) order
    exact inj_on_of_nodup_map inventory.ids_nodup (sort.mem_iff.mp here) there
      (LawfulEqCmp.eq_of_compare (OrientedCmp.isLE_antisymm le ge))
  unfold new
  rw [dif_pos (perm.length_eq ▸ inventory.valid.bounded)]
  simp only [sorted]
  rw [dif_pos ⟨inventory.valid.shape, inventory.valid.sorted⟩]

theorem exists_of_distinct (bounded : references.length ≤ maxBlobsPerInventory)
    (shape : ∀ r ∈ references, r.scope = scope ∧ r.validReferenceShape = true) (distinct : (references.map (·.id)).Nodup) :
    ∃ inventory : BlobInventory, inventory.scope = scope ∧ references.Perm inventory.references := by
  have sort := perm_insertionSort NotAfter references
  have apart : (references.insertionSort NotAfter).Pairwise fun a b => a.id ≠ b.id :=
    pairwise_map.mp ((sort.map _).nodup_iff.mpr distinct)
  refine ⟨⟨scope, references.insertionSort NotAfter, ?_, fun r mem => shape r (sort.mem_iff.mp mem), ?_⟩, rfl, sort.symm⟩
  · rw [sort.length_eq]
    exact bounded
  · refine ((pairwise_insertionSort NotAfter references).and apart).imp fun {a b} ⟨le, ne⟩ => ?_
    unfold NotAfter at le
    cases less : compare a.id b.id with
    | lt => rfl
    | eq => exact absurd (LawfulEqCmp.eq_of_compare less) ne
    | gt => simp [less] at le

theorem encode_decodeReferences {previous : Option BlobId}
    (h : decodeReferences scope count previous bytes = .ok references)
    (length : bytes.length = count * inventoryEntryBytes) : references.flatMap encodeReference = bytes := by
  induction count generalizing previous bytes references with
  | zero =>
    cases h
    rw [Nat.zero_mul] at length
    rw [length_eq_zero_iff.mp length, flatMap_nil]
  | succ count ih =>
    obtain ⟨r, decoded, _, -, rest, decodedRest, h⟩ := bind_ok₃ h
    cases h
    have tail := ih decodedRest (by rw [length_drop, length, Nat.succ_mul, Nat.add_sub_cancel])
    rw [flatMap_cons, ← (decodeReference_ok.mp decoded).2.2.2, tail]
    exact take_append_drop _ _

theorem encoded_decode {database : DatabaseId} (h : decode database bytes = .ok inventory) :
    inventory.encoded = bytes := by
  obtain ⟨_, header, h⟩ := bind_ok h
  obtain ⟨long, magic, version, zeros⟩ := require_ok.mp header
  dsimp only at h
  split at h
  · rename_i bounded
    obtain ⟨some, few, length⟩ := bounded
    obtain ⟨namespaceId, namespaceAt, h⟩ := bind_ok h
    unfold decodeEntries at h
    split at h
    · cases h
    · rename_i references decoded
      cases h
      have count := (decodeReferences_valid decoded).1
      have body := encode_decodeReferences decoded (by rw [length_drop, length, Nat.add_sub_cancel_left])
      have filled : references ≠ [] := by
        rintro rfl
        exact some count.symm
      have reserved : List.replicate 4 0 = slice bytes 28 4 :=
        (eq_replicate_iff.mpr ⟨length_slice (by unfold inventoryHeaderBytes at long; omega), zeros⟩).symm
      have counted : bigEndian 4 references.length = slice bytes 24 4 :=
        ((ofBigEndian_eq (length_slice (by unfold inventoryHeaderBytes at long; omega))).mp count.symm).1.symm
      rw [encoded, if_neg filled, encodeInventory, body, reserved, counted, ← readArray_ok.mp namespaceAt, ← version, ← magic,
        slice_join rfl, slice_join rfl, slice_join rfl, slice_join rfl]
      exact take_append_drop _ _
  · cases h

theorem references_of_encoded {a b : BlobInventory} (database : a.scope.database = b.scope.database)
    (same : a.encoded = b.encoded) : a.references = b.references := by
  have length {inventory : BlobInventory} (nonempty : inventory.isEmpty = false) : inventory.encoded ≠ [] := by
    intro none
    have size := length_encoded nonempty
    rw [none, inventoryHeaderBytes, length_nil] at size
    omega
  cases first : a.isEmpty with
  | false =>
    cases second : b.isEmpty with
    | false =>
      have decoded := decode_encoded second
      rw [← database, ← same, decode_encoded first] at decoded
      rw [Except.ok.inj decoded]
    | true =>
      rw [encoded.eq_1 b, if_pos (isEmpty_iff.mp second)] at same
      exact absurd same (length first)
  | true =>
    cases second : b.isEmpty with
    | false =>
      rw [encoded.eq_1 a, if_pos (isEmpty_iff.mp first)] at same
      exact absurd same.symm (length second)
    | true => rw [isEmpty_iff.mp first, isEmpty_iff.mp second]

end BlobInventory

/-! ### Names -/

def segmentName (id : Octets 16) : EntryName := taggedName 106 (by decide) id.bytes (by simp)

def IsSegment (n : EntryName) : Prop := n.text.head? = some 106

/-- Index objects have the tag of an inventory and a shorter identity. -/
def IsInventory (n : EntryName) : Prop := n.text.head? = some 105 ∧ n.text.length = 66

def IsChunk (n : EntryName) : Prop := n.text.head? = some 98

/-- The names that are never renamed or removed once they exist. -/
def Kept (n : EntryName) : Prop :=
  n = lockName ∨ n = keyName ∨ n = manifestName ∨ n = certificatesName ∨ IsSegment n ∨ IsInventory n ∨ IsChunk n

theorem taggedName_injective {tag : UInt8} {letter : 97 ≤ tag.toNat} {a b : List UInt8} {ha : a.length ≤ 64}
    {hb : b.length ≤ 64} (same : taggedName tag letter a ha = taggedName tag letter b hb) : a = b :=
  hex_injective (List.cons.inj (List.cons.inj (congrArg EntryName.text same)).2).2

theorem segmentName_injective {a b : Octets 16} (same : segmentName a = segmentName b) : a = b :=
  Octets.ext (taggedName_injective same)

theorem isSegment_segmentName (id : Octets 16) : IsSegment (segmentName id) := rfl

theorem isChunk_finalChunkName (blob : BlobId) (chunk : Nat) : IsChunk (finalChunkName blob chunk) := rfl

theorem kinds_disjoint (n : EntryName) : (IsSegment n → ¬ IsInventory n ∧ ¬ IsChunk n) ∧ (IsInventory n → ¬ IsChunk n) := by
  refine ⟨fun segment => ⟨fun inventory => ?_, fun chunk => ?_⟩, fun inventory chunk => ?_⟩
  · exact absurd (segment.symm.trans inventory.1) (by decide)
  · exact absurd (segment.symm.trans chunk) (by decide)
  · exact absurd (inventory.1.symm.trans chunk) (by decide)

/-! ### Verified references -/

abbrev Image := EntryName → Option (List UInt8)

/-- The identities every object of a database is sealed under. -/
structure Origin where
  database : DatabaseId
  epoch : KeyEpoch
  writer : Octets 16
  key : Octets 32

namespace Origin

structure Opens {W E : Type} (o : Origin) (vault : KeyVault W E) : Prop where
  database : vault.database = o.database
  key : vault.key = some o.key

theorem Opens.same {W E : Type} {o : Origin} {vault vault' : KeyVault W E} (h : o.Opens vault)
    (same : vault.Same vault') : o.Opens vault' :=
  ⟨same.1.trans h.database, same.2.2.trans h.key⟩

section

variable [Primitives] (o : Origin) (image : Image) (reference : BlobReference)

structure HoldsChunk (chunk : Nat) (plaintext : List UInt8) : Prop where
  within : chunk < reference.chunkCount
  scope : reference.scope.database = o.database
  file : ∃ bytes envelope, image (finalChunkName reference.id chunk) = some bytes ∧ bytes.length ≠ 0 ∧
    bytes.length ≤ maxEncodedChunkBytes ∧ EncryptedEnvelope.decode bytes = .ok envelope ∧
    Crypto.decrypt o.key (chunkContext reference.scope o.epoch o.writer reference.id chunk) envelope = .ok plaintext
  length : plaintext.length = min (reference.byteLen - chunk * blobChunkBytes) blobChunkBytes

/-- The first chunks of a reference, one after the other. -/
inductive Content : Nat → List UInt8 → Prop
  | start : Content 0 []
  | next {chunk : Nat} {data plaintext : List UInt8} : Content chunk data →
      HoldsChunk o image reference chunk plaintext → Content (chunk + 1) (data ++ plaintext)

/-- Every chunk of the reference is there, and together they have the digest it names. -/
structure Verified : Prop where
  scope : reference.scope.database = o.database
  shape : reference.validReferenceShape = true
  content : ∃ data, Content o image reference reference.chunkCount data ∧ data.length = reference.byteLen ∧
    sha256 data = reference.contentDigest

end

variable [Primitives] {o : Origin} {image image' : Image} {reference : BlobReference} {chunk : Nat}

/-- What the file of a chunk decrypts to, whatever the reference says of its length. -/
def Decrypts (o : Origin) (image : Image) (reference : BlobReference) (chunk : Nat) (plaintext : List UInt8) : Prop :=
  ∃ bytes envelope, image (finalChunkName reference.id chunk) = some bytes ∧ bytes.length ≠ 0 ∧
    bytes.length ≤ maxEncodedChunkBytes ∧ EncryptedEnvelope.decode bytes = .ok envelope ∧
    Crypto.decrypt o.key (chunkContext reference.scope o.epoch o.writer reference.id chunk) envelope = .ok plaintext

variable {p : List UInt8}

theorem Decrypts.unique {p' : List UInt8} (h : Decrypts o image reference chunk p)
    (h' : Decrypts o image reference chunk p') : p = p' := by
  obtain ⟨bytes, envelope, found, -, -, decoded, opened⟩ := h
  obtain ⟨bytes', envelope', found', -, -, decoded', opened'⟩ := h'
  obtain rfl := Option.some.inj (found.symm.trans found')
  obtain rfl := Except.ok.inj (decoded.symm.trans decoded')
  exact Except.ok.inj (opened.symm.trans opened')

theorem HoldsChunk.mono (h : HoldsChunk o image reference chunk p)
    (more : ∀ n bytes, IsChunk n → image n = some bytes → image' n = some bytes) :
    HoldsChunk o image' reference chunk p := by
  obtain ⟨bytes, envelope, found, rest⟩ := h.file
  exact { h with file := ⟨bytes, envelope, more _ _ (isChunk_finalChunkName _ _) found, rest⟩ }

variable {d : List UInt8}

section

variable (h : Content o image reference chunk d)

include h

theorem Content.unique {d' : List UInt8} (h' : Content o image reference chunk d') : d = d' := by
  induction h generalizing d' with
  | start => cases h'; rfl
  | next _ holds ih =>
    cases h' with
    | next before holds' => rw [ih before, Decrypts.unique holds.file holds'.file]

theorem Content.mono (more : ∀ n bytes, IsChunk n → image n = some bytes → image' n = some bytes) :
    Content o image' reference chunk d := by
  induction h with
  | start => exact .start
  | next _ holds ih => exact .next ih (holds.mono more)

theorem Content.length_eq : d.length = min reference.byteLen (chunk * blobChunkBytes) := by
  induction h with
  | start => simp
  | next _ holds ih =>
    have := holds.length
    rw [length_append, Nat.succ_mul]
    omega

end

theorem Content.held {count : Nat} (h : Content o image reference count d) (before : chunk < count) :
    HoldsChunk o image reference chunk (slice d (chunk * blobChunkBytes) blobChunkBytes) := by
  induction h with
  | start => omega
  | @next last data p content holds ih =>
    have size := content.length_eq
    have length := holds.length
    rcases Nat.lt_succ_iff_lt_or_eq.mp before with earlier | rfl
    · have room := Nat.mul_le_mul_right blobChunkBytes (Nat.succ_le_of_lt earlier)
      rw [Nat.succ_mul] at room
      have kept : slice (data ++ p) (chunk * blobChunkBytes) blobChunkBytes =
          slice data (chunk * blobChunkBytes) blobChunkBytes := by
        rcases Nat.lt_or_ge reference.byteLen (last * blobChunkBytes) with short | full
        · rw [length_eq_zero_iff.mp (by omega : p.length = 0), append_nil]
        · rw [slice, drop_append_of_le_length (by omega), take_append_of_le_length, slice]
          rw [length_drop]
          omega
      rw [kept]
      exact ih earlier
    · have whole : slice (data ++ p) (chunk * blobChunkBytes) blobChunkBytes = p := by
        rw [slice_skip (by omega), slice]
        rcases Nat.lt_or_ge reference.byteLen (chunk * blobChunkBytes) with short | full
        · rw [length_eq_zero_iff.mp (by omega : p.length = 0), drop_nil, take_nil]
        · rw [size, Nat.min_eq_right full, Nat.sub_self, drop_zero, take_of_length_le (by omega)]
      rw [whole]
      exact holds

theorem Verified.mono (h : Verified o image reference)
    (more : ∀ n bytes, IsChunk n → image n = some bytes → image' n = some bytes) : Verified o image' reference := by
  obtain ⟨data, content, rest⟩ := h.content
  exact { h with content := ⟨data, content.mono more, rest⟩ }

end Origin

section

variable {F W E : Type} {H : Handles} [FileSystem F H] [Primitives] {quiet : Prop} (M : FileModel F Kept quiet)
  {fs : F} {v : View EntryName H} {d : H.Directory} {o : Origin} {vault : KeyVault W E} {reference : BlobReference}

theorem decrypt_eq (opens : o.Opens vault) {context : CryptoContext} (scope : context.database = o.database)
    (envelope : EncryptedEnvelope) : vault.decrypt context envelope = Crypto.decrypt o.key context envelope := by
  rw [KeyVault.decrypt, require_pos _ (scope.trans opens.database.symm), ok_bind, opens.key]
  rfl

variable {chunk : Nat}

section

variable (opens : o.Opens vault) (shows : M.Shows fs v) (handle : v.directories d)

include opens shows handle

theorem openChunk_wp
    (scope : reference.scope.database = o.database) {α : Type} {next : List UInt8 → Program F StorageError α}
    {Q : α → F → Prop} {R : StorageError → F → Prop}
    (decrypted : ∀ p fs', M.Shows fs' v → o.Decrypts v.now reference chunk p → wp (next p) Q R fs')
    (failed : ∀ error fs', M.Shows fs' v → (quiet → ∀ p, ¬ o.Decrypts v.now reference chunk p) → R error fs') : wp (do
      let file ← mapError (fun _ => .integrityFailure) (openExisting d (finalChunkName reference.id chunk))
      let plaintext ← decryptChunk vault o.epoch o.writer file reference.scope reference.id chunk
      next plaintext) Q R fs := by
  rw [wp_bind, wp_mapError]
  cases found : v.cells (finalChunkName reference.id chunk) with
  | none =>
    have keep : Kept (finalChunkName reference.id chunk) := by simp [Kept, isChunk_finalChunkName]
    refine wp_mono (M.openMissing shows handle keep found) (fun _ _ h => h.elim) ?_
    rintro kind fs' ⟨shows, -⟩
    refine failed _ _ shows fun _ p holds => ?_
    obtain ⟨bytes, -, there, -⟩ := holds
    simp [View.now, found] at there
  | some c =>
    have here : v.now (finalChunkName reference.id chunk) = some c.bytes := by simp [View.now, found]
    refine wp_mono (M.openExisting shows handle found) ?_ fun _ _ h => failed _ _ h.1 fun q => absurd q h.2
    rintro file fs' ⟨shows, opened⟩
    rw [decryptChunk, wp_bind, wp_bind, wp_mapError]
    refine wp_mono (M.metadata shows opened found) ?_ fun _ _ h => failed _ _ h.1 fun q => absurd q h.2
    rintro length fs' ⟨shows, rfl⟩
    refine wp_checks (fun bounds => ?_) fun outside => failed _ _ shows fun _ p holds => ?_
    swap
    · obtain ⟨bytes, -, there, some, small, -⟩ := holds
      obtain rfl := Option.some.inj (here.symm.trans there)
      exact absurd ⟨some, small⟩ outside
    refine wp_maps (M.readExactAt_spec opened found shows) ?_ fun _ _ h =>
      failed _ _ h.1 fun q => absurd (h.2.2 q) (by omega)
    rintro data fs' ⟨shows, rfl, -⟩
    rw [slice_all (Nat.le_refl _), wp_bind, wp_lift]
    refine ⟨fun envelope decoded => ?_, fun _ rejected => failed _ _ shows fun _ p holds => ?_⟩
    swap
    · obtain ⟨bytes, envelope, there, -, -, decoded, -⟩ := holds
      obtain rfl := Option.some.inj (here.symm.trans there)
      cases rejected.symm.trans decoded
    rw [wp_lift, decrypt_eq opens scope]
    refine ⟨fun plaintext opened => ?_, fun _ rejected => failed _ _ shows fun _ p holds => ?_⟩
    · exact decrypted plaintext fs' shows ⟨_, envelope, here, bounds.1, bounds.2, decoded, opened⟩
    · obtain ⟨bytes, envelope', there, -, -, decoded', opened⟩ := holds
      obtain rfl := Option.some.inj (here.symm.trans there)
      obtain rfl := Except.ok.inj (decoded.symm.trans decoded')
      cases rejected.symm.trans opened

theorem verifyChunk_spec (within : chunk < reference.chunkCount) (scope : reference.scope.database = o.database)
    (hashed : List UInt8 × Nat) : wp (verifyChunk d vault o.epoch o.writer reference hashed chunk)
      (fun hashed' fs' => M.Shows fs' v ∧ ∃ p, o.HoldsChunk v.now reference chunk p ∧
        hashed' = (hashed.1 ++ p, hashed.2 + p.length))
      (fun _ fs' => M.Shows fs' v ∧ (quiet → ∀ p, o.HoldsChunk v.now reference chunk p →
        wordLimit ≤ hashed.2 + p.length)) fs := by
  refine openChunk_wp M opens shows handle scope (fun plaintext fs' shows decrypts => ?_) fun _ fs' shows failed =>
    ⟨shows, fun q p holds => (failed q p holds.file).elim⟩
  rw [expectedChunkLen, require_pos _ within, ok_bind, wp_bind]
  refine wp_lift.mpr ⟨?_, by rintro _ ⟨⟩⟩
  rintro expected ⟨⟩
  refine wp_checks (fun length => ?_) fun other => ⟨shows, fun _ p holds => ?_⟩
  swap
  · obtain rfl := Origin.Decrypts.unique holds.file decrypts
    exact absurd holds.length other
  refine wp_checks (fun _ => ?_) fun large => ⟨shows, fun _ p holds => ?_⟩
  · exact ⟨shows, plaintext, ⟨within, scope, decrypts, length⟩, rfl⟩
  · obtain rfl := Origin.Decrypts.unique holds.file decrypts
    omega

/-- The check succeeds only on a verified reference, and a quiet file system lets it. -/
theorem verifyReference_spec : wp (verifyReference d vault o.database o.epoch o.writer reference)
      (fun _ fs' => M.Shows fs' v ∧ o.Verified v.now reference)
      (fun _ fs' => M.Shows fs' v ∧ (quiet → ¬ o.Verified v.now reference)) fs := by
  rw [verifyReference, wp_bind, wp_ensure]
  refine ⟨fun ⟨scope, shape⟩ => ?_, fun outside => ⟨shows, fun _ verified => outside ⟨verified.scope, verified.shape⟩⟩⟩
  have few := (BlobReference.shape_bounds shape).2
  -- the chunks still to come are the last ones, and the hash is over the ones before
  let Inv : List Nat → List UInt8 × Nat → F → Prop := fun rest hashed fs => M.Shows fs v ∧
    ∃ done, done ≤ reference.chunkCount ∧ rest = List.range' done (reference.chunkCount - done) ∧
      o.Content v.now reference done hashed.1 ∧ hashed.2 = hashed.1.length
  refine wp_next (wp_foldlM Inv ⟨shows, 0, Nat.zero_le _, by simp [range_eq_range'], .start, rfl⟩ ?_) ?_
  · rintro chunk rest hashed fs ⟨shows, done, le, rest_eq, content, length⟩
    have within : done < reference.chunkCount := by
      by_contra full
      simp [Nat.sub_eq_zero_of_le (Nat.le_of_not_lt full)] at rest_eq
    rw [← Nat.succ_sub_one (reference.chunkCount - done), Nat.succ_sub (by omega), List.range'_succ] at rest_eq
    obtain ⟨rfl, rfl⟩ := List.cons.inj rest_eq
    refine wp_mono (verifyChunk_spec M opens shows handle within scope hashed) ?_ ?_
    · rintro _ fs' ⟨shows, p, holds, rfl⟩
      exact ⟨shows, chunk + 1, within, by rw [Nat.sub_sub], .next content holds, by simp [length]⟩
    · rintro _ fs' ⟨shows, failed⟩
      refine ⟨shows, fun q verified => ?_⟩
      obtain ⟨data, whole, -⟩ := verified.content
      have holds := whole.held within
      have := failed q _ holds
      have := content.length_eq
      have := holds.length
      simp only [blobChunkBytes, wordLimit] at *
      omega
  · rintro hashed fs' ⟨shows, done, le, rest_eq, content, length⟩
    obtain rfl : done = reference.chunkCount := by
      by_contra other
      have := congrArg List.length rest_eq
      simp at this
      omega
    refine wp_ensure.mpr ⟨fun ⟨whole, digest⟩ => ⟨shows, scope, shape, _, content, length.symm.trans whole, digest⟩, ?_⟩
    refine fun outside => ⟨shows, fun _ verified => ?_⟩
    obtain ⟨data, again, whole, digest⟩ := verified.content
    obtain rfl := content.unique again
    exact outside ⟨length.trans whole, digest⟩

end

end

end Uste.Storage
