import Uste.Memory.PilotCodec

/-!
What the pilot's codec does to a transaction: an accepted byte string is the encoding of what was
read, while a transaction that names records of other namespaces is read back as one about local
records.
-/

namespace Uste.Memory

open Types Crypto Policy Storage Txn List
open Time (UtcInstant)
open Reader (stringBytes optionBytes)

variable {input rest bytes : List UInt8} {scope : NamespaceRef}

/-! ### What each reader accepts -/

theorem encodeString_ok {text : String} : encodeString text = .ok bytes ↔ Utf8.len text < 2 ^ 32 ∧ stringBytes text = bytes := by
  simp [encodeString, map_eq_ok, stringBytes]

theorem encodeOptionalString_ok {text : Option String} : encodeOptionalString text = .ok bytes ↔
    (∀ value ∈ text, Utf8.len value < 2 ^ 32) ∧ optionBytes stringBytes text = bytes := by
  cases text with
  | none => simp [encodeOptionalString, pure_eq_ok, optionBytes]
  | some text => simp [encodeOptionalString, map_eq_ok, encodeString_ok, optionBytes]

theorem optionalInstant_iff {ε : Type} {short : ε} {found : Option UtcInstant} :
    Reader.optional short (do
      let seconds ← Reader.word short 8
      let nanoseconds ← Reader.word short 4
      Program.lift id (orError short (UtcInstant.new (ofSigned seconds) nanoseconds))) input = (.ok found, rest) ↔
      True ∧ input = encodeOptionalInstant found ++ rest := by
  have same : encodeOptionalInstant found = optionBytes encodeInstant found := by cases found <;> rfl
  rw [Reader.optional_iff (fun input instant rest => ?_), same]
  · exact and_congr_left' (iff_of_true (fun _ _ => trivial) trivial)
  obtain ⟨low, high, below⟩ := instant.inRange
  unfold Time.minEpochSeconds at low
  unfold Time.maxEpochSeconds at high
  simp only [Reader.bind_iff, Reader.word_iff, Reader.lift_iff, orError_ok, UtcInstant.new_eq_some]
  constructor
  · rintro ⟨seconds, _, ⟨fits, rfl⟩, _, _, ⟨-, rfl⟩, ⟨value, rfl⟩, rfl⟩
    rw [encodeInstant, signedBytes, ← value, emod_ofSigned fits, append_assoc]
    exact ⟨trivial, rfl⟩
  · rintro ⟨-, rfl⟩
    rw [encodeInstant, signedBytes, append_assoc]
    exact ⟨_, _, ⟨by omega, rfl⟩, _, _, ⟨by omega, rfl⟩, ⟨ofSigned_emod (by omega) (by omega), rfl⟩, rfl⟩

def SourceLocator.Words : SourceLocator → Prop
  | .byteRange first last => first < 256 ^ 8 ∧ last < 256 ^ 8
  | .utf8Lines first last firstLine lastLine => first < 256 ^ 8 ∧ last < 256 ^ 8 ∧ firstLine < 256 ^ 4 ∧ lastLine < 256 ^ 4

theorem taggedLocator_iff {ε : Type} {short : ε} {locator : SourceLocator} :
    (do
      let tag ← Reader.byte short
      let first ← Reader.word short 8
      let last ← Reader.word short 8
      if tag = 1 then pure (.byteRange first last)
      else if tag = 2 then do
        let firstLine ← Reader.word short 4
        let lastLine ← Reader.word short 4
        pure (.utf8Lines first last firstLine lastLine)
      else Program.fail short : Reader ε SourceLocator) input = (.ok locator, rest) ↔
      locator.Words ∧ input = encodeLocator locator ++ rest := by
  simp only [Reader.bind_iff, Reader.byte_iff, Reader.word_iff]
  constructor
  · rintro ⟨tag, _, rfl, first, _, ⟨firstFits, rfl⟩, last, _, ⟨lastFits, rfl⟩, read⟩
    split at read
    · obtain ⟨rfl, rfl⟩ := Reader.pure_iff.mp read
      subst tag
      exact ⟨⟨firstFits, lastFits⟩, by simp [encodeLocator]⟩
    · split at read
      · subst tag
        simp only [Reader.bind_iff, Reader.word_iff, Reader.pure_iff] at read
        obtain ⟨_, _, ⟨fits, rfl⟩, _, _, ⟨fits', rfl⟩, rfl, rfl⟩ := read
        exact ⟨⟨firstFits, lastFits, fits, fits'⟩, by simp [encodeLocator]⟩
      · cases read
  · rintro ⟨words, rfl⟩
    cases locator with
    | byteRange first last =>
      exact ⟨1, _, rfl, first, _, ⟨words.1, by simp⟩, last, rest, ⟨words.2, rfl⟩, rfl⟩
    | utf8Lines first last firstLine lastLine =>
      refine ⟨2, _, rfl, first, _, ⟨words.1, by simp; rfl⟩, last, _, ⟨words.2.1, rfl⟩, ?_⟩
      simpa using words.2.2

theorem instant_iff {found : Option UtcInstant} :
    Cursor.instant input = (.ok found, rest) ↔ True ∧ input = encodeOptionalInstant found ++ rest := optionalInstant_iff

theorem locator_iff {locator : SourceLocator} :
    Cursor.locator input = (.ok locator, rest) ↔ locator.Words ∧ input = encodeLocator locator ++ rest := taggedLocator_iff

theorem sourceId_iff {id : SourceVersionId} :
    decodeSourceId scope input = (.ok id, rest) ↔
      (id.source.scope = scope ∧ id.version < 256 ^ 4) ∧ input = encodeSourceId id ++ rest := by
  obtain ⟨⟨_, ⟨_⟩⟩, _⟩ := id
  simp [decodeSourceId, encodeSourceId, Cursor.record, Cursor.array, Cursor.u32]
  constructor <;> (intro h; simp_all)

/-! ### Sources and facts -/

theorem optionalString_iff {maximum : Nat} {text : Option String} : Cursor.optionalString maximum input = (.ok text, rest) ↔
    (∀ value ∈ text, Utf8.len value ≤ maximum ∧ Utf8.len value < 2 ^ 32) ∧ input = optionBytes stringBytes text ++ rest :=
  Reader.optional_iff fun _ _ _ => Reader.string_iff

def moved (scope : NamespaceRef) (record : RecordRef) : RecordRef := ⟨scope, record.id⟩

def SourceVersionId.moved (scope : NamespaceRef) (id : SourceVersionId) : SourceVersionId :=
  ⟨Memory.moved scope id.source, id.version⟩

namespace SourceVersionInput

variable (source : SourceVersionInput)

/-- The source has these fields in machine words, and checks the shape of a blob before there is one. -/
def Words : Prop := source.id.version < 256 ^ 4 ∧ source.blob.validReferenceShape = true

def Readable : Prop := Utf8.len source.mediaType ≤ 256 ∧
  ∀ text ∈ source.exactUtf8, Utf8.len text ≤ pilotProfile.maximumTextBytesPerVersion

def Local (scope : NamespaceRef) : Prop := source.id.source.scope = scope ∧ source.blob.scope = scope

def moved (scope : NamespaceRef) : SourceVersionInput :=
  { source with id := source.id.moved scope, blob := { source.blob with scope := scope } }

end SourceVersionInput

namespace FactInput

variable (fact : FactInput)

def Words : Prop := fact.source.version < 256 ^ 4 ∧ fact.locator.Words

def Readable : Prop := (∀ field ∈ [fact.subject, fact.predicate, fact.value], Utf8.len field ≤ pilotProfile.maximumFactFieldBytes) ∧
  fact.links.length ≤ pilotProfile.maximumFactLinks

def Local (scope : NamespaceRef) : Prop :=
  fact.id.scope = scope ∧ fact.source.source.scope = scope ∧ ∀ link ∈ fact.links, link.scope = scope

def moved (scope : NamespaceRef) : FactInput :=
  { fact with
    id := Memory.moved scope fact.id
    links := fact.links.map (Memory.moved scope)
    source := fact.source.moved scope }

end FactInput

theorem decodeSource_iff {source : SourceVersionInput} :
    decodeSource scope input = (.ok source, rest) ↔ (source.Words ∧ source.Readable ∧ source.Local scope) ∧
      ∃ bytes, encodeSource source = .ok bytes ∧ input = bytes ++ rest := by
  obtain ⟨⟨⟨_, ⟨_⟩⟩, _⟩, ⟨_, _, _, _, _⟩, _, _, _⟩ := source
  simp [decodeSource, sourceId_iff, Cursor.array, Cursor.u64, Cursor.u32, Cursor.string, optionalString_iff, instant_iff, encodeSource, bind_eq_ok, map_eq_ok, encodeString_ok,
    encodeOptionalString_ok, SourceVersionInput.Words, SourceVersionInput.Readable, SourceVersionInput.Local]
  constructor
  · rintro ⟨⟨⟨rfl, version⟩, rfl⟩, -, -, shape, media, text, rfl⟩
    exact ⟨⟨⟨version, shape⟩, ⟨media.1, fun t h => (text t h).1⟩, rfl, rfl⟩, ⟨media.2, fun t h => (text t h).2⟩, rfl⟩
  · rintro ⟨⟨⟨version, shape⟩, ⟨media, text⟩, rfl, rfl⟩, ⟨mediaFits, textFits⟩, rfl⟩
    obtain ⟨length, count⟩ := BlobReference.shape_bounds shape
    exact ⟨⟨⟨rfl, version⟩, rfl⟩, length, count, shape, ⟨media, mediaFits⟩, fun t h => ⟨text t h, textFits t h⟩, rfl⟩

theorem record_iff {record : RecordRef} :
    Cursor.record scope input = (.ok record, rest) ↔ record.scope = scope ∧ input = record.id.bytes.bytes ++ rest := by
  obtain ⟨_, ⟨_⟩⟩ := record
  simp [Cursor.record, Cursor.array]
  constructor <;> (intro h; simp_all)

theorem decodeFact_iff {fact : FactInput} :
    decodeFact scope input = (.ok fact, rest) ↔ (fact.Words ∧ fact.Readable ∧ fact.Local scope) ∧
      ∃ bytes, encodeFact fact = .ok bytes ∧ input = bytes ++ rest := by
  obtain ⟨⟨_, ⟨_⟩⟩, _, _, _, _, _, _, _⟩ := fact
  simp [decodeFact, record_iff, sourceId_iff, Cursor.u32, Cursor.string, locator_iff, instant_iff,
    Reader.replicate_iff (fun _ _ _ => record_iff), encodeFact, bind_eq_ok, map_eq_ok, encodeString_ok, FactInput.Words,
    FactInput.Readable, FactInput.Local]
  constructor <;> (intro h; simp_all)

/-! ### Transactions -/

namespace MemoryMutation

def Meets (next : Nat → Prop) (source : SourceVersionInput → Prop) (fact : FactInput → Prop) (target : RecordRef → Prop)
    (version : SourceVersionId → Prop) : MemoryMutation → Prop
  | .beginRebuild nextGeneration => next nextGeneration
  | .putSource input => source input
  | .putFact input => fact input
  | .correctFact record replacement => target record ∧ fact replacement
  | .retractFact record => target record
  | .revokeSource id => version id
  | .completeRebuild => True

def Words : MemoryMutation → Prop :=
  Meets (· < 256 ^ 8) SourceVersionInput.Words FactInput.Words (fun _ => True) (·.version < 256 ^ 4)

/-- No text is longer, and no list of links, than the decoder reads. -/
def Readable : MemoryMutation → Prop :=
  Meets (fun _ => True) SourceVersionInput.Readable FactInput.Readable (fun _ => True) (fun _ => True)

/-- Every record and every blob that is named is of the scope. -/
def Local (scope : NamespaceRef) : MemoryMutation → Prop :=
  Meets (fun _ => True) (·.Local scope) (·.Local scope) (·.scope = scope) (·.source.scope = scope)

def moved (scope : NamespaceRef) : MemoryMutation → MemoryMutation
  | .beginRebuild nextGeneration => .beginRebuild nextGeneration
  | .putSource source => .putSource (source.moved scope)
  | .putFact fact => .putFact (fact.moved scope)
  | .correctFact target replacement => .correctFact (Memory.moved scope target) (replacement.moved scope)
  | .retractFact target => .retractFact (Memory.moved scope target)
  | .revokeSource source => .revokeSource (source.moved scope)
  | .completeRebuild => .completeRebuild

end MemoryMutation

theorem decodeMutation_iff {tag : UInt8} {mutation : MemoryMutation} : decodeMutation tag scope input = (.ok mutation, rest) ↔
    mutation.tag = tag ∧ (mutation.Words ∧ mutation.Readable ∧ mutation.Local scope) ∧
      ∃ bytes, encodeMutation mutation = .ok bytes ∧ input = bytes ++ rest := by
  unfold decodeMutation
  split
  case h_8 =>
    refine ⟨nofun, ?_⟩
    rintro ⟨rfl, -⟩
    cases mutation <;> simp_all [MemoryMutation.tag]
  all_goals
    cases mutation <;>
      simp [decodeSource_iff, decodeFact_iff, record_iff, sourceId_iff, Cursor.u64, encodeMutation, MemoryMutation.tag,
        MemoryMutation.Words, MemoryMutation.Readable, MemoryMutation.Local, MemoryMutation.Meets, pure_eq_ok, map_eq_ok] <;>
      grind

theorem transactionCursor_iff {transaction : MemoryTransaction} : transactionCursor input = (.ok transaction, rest) ↔
    rest = [] ∧ (transaction.generation < 256 ^ 8 ∧ transaction.mutation.Words ∧ transaction.mutation.Readable ∧
      transaction.mutation.Local transaction.scope) ∧ ∃ body, encodeMutation transaction.mutation = .ok body ∧
        input = ascii "UMEM" ++ [1, 0, transaction.mutation.tag, 0] ++ transaction.scope.database.bytes.bytes ++
          transaction.scope.namespaceId.bytes.bytes ++ bigEndian 8 transaction.generation ++ body := by
  obtain ⟨⟨⟨_⟩, ⟨_⟩⟩, _, _⟩ := transaction
  have magic : (ascii "UMEM").length = 4 := rfl
  simp [transactionCursor, Cursor.byte, Cursor.array, Cursor.u64, decodeMutation_iff, magic]
  grind

theorem decodeTransaction_iff {transaction : MemoryTransaction} : decodeTransaction input = .ok transaction ↔
    (transaction.generation < 256 ^ 8 ∧ transaction.mutation.Words ∧ transaction.mutation.Readable ∧
      transaction.mutation.Local transaction.scope) ∧ encodeTransaction transaction = .ok input := by
  simp only [decodeTransaction, encodeTransaction, bind_eq_ok, pure_eq_ok, require_ok, Reader.run_iff,
    transactionCursor_iff]
  constructor
  · rintro ⟨-, short, _, ⟨_, rfl, admitted, body, encoded, rfl⟩, -, -, rfl⟩
    exact ⟨admitted, body, encoded, (), short, rfl⟩
  · rintro ⟨admitted, body, encoded, -, short, rfl⟩
    have magic : (ascii "UMEM").length = 4 := rfl
    exact ⟨(), short, transaction, ⟨[], rfl, admitted, body, encoded, rfl⟩, (), by simp [headerBytes, magic]; omega, rfl⟩

/-! ### What an encoding shows -/

theorem SourceVersionInput.Readable.of_encoding {a b : SourceVersionInput} (readable : b.Readable) (wordsA : a.Words)
    (wordsB : b.Words) (first : encodeSource a = .ok bytes) (second : encodeSource b = .ok bytes) : a.Readable := by
  obtain ⟨versionA, shapeA⟩ := wordsA
  obtain ⟨versionB, shapeB⟩ := wordsB
  obtain ⟨lengthA, countA⟩ := BlobReference.shape_bounds shapeA
  obtain ⟨lengthB, countB⟩ := BlobReference.shape_bounds shapeB
  simp only [encodeSource, bind_eq_ok, pure_eq_ok, encodeString_ok, encodeOptionalString_ok, encodeSourceId] at first second
  obtain ⟨_, ⟨mediaA, rfl⟩, _, ⟨textA, rfl⟩, rfl⟩ := first
  obtain ⟨_, ⟨mediaB, rfl⟩, _, ⟨textB, rfl⟩, same⟩ := second
  simp only [append_assoc, Octets.append_inj, bigEndian_append_inj, Reader.stringBytes_append_inj, *] at same
  obtain ⟨-, -, -, -, -, -, media, same⟩ := same
  obtain ⟨text, -⟩ := Reader.append_inj_of_iff (fun _ _ _ => optionalString_iff)
    (fun t mem => ⟨(textB t mem).le, textB t mem⟩) (fun t mem => ⟨(textA t mem).le, textA t mem⟩) same
  rwa [Readable, media, text] at readable

theorem FactInput.Readable.of_encoding {a b : FactInput} (readable : b.Readable) (first : encodeFact a = .ok bytes)
    (second : encodeFact b = .ok bytes) : a.Readable := by
  simp only [encodeFact, bind_eq_ok, pure_eq_ok, encodeString_ok, require_ok] at first second
  obtain ⟨_, ⟨subjectA, rfl⟩, _, ⟨predicateA, rfl⟩, _, ⟨valueA, rfl⟩, -, countA, rfl⟩ := first
  obtain ⟨_, ⟨subjectB, rfl⟩, _, ⟨predicateB, rfl⟩, _, ⟨valueB, rfl⟩, -, countB, same⟩ := second
  rw [show 2 ^ 32 = 256 ^ 4 from rfl] at countA countB
  simp only [append_assoc, Octets.append_inj, bigEndian_append_inj, Reader.stringBytes_append_inj, *] at same
  obtain ⟨-, subject, predicate, value, count, -⟩ := same
  rwa [Readable, subject, predicate, value, count] at readable

theorem MemoryMutation.Readable.of_encoding {a b : MemoryMutation} (readable : b.Readable) (tags : b.tag = a.tag)
    (wordsA : a.Words) (wordsB : b.Words) (first : encodeMutation a = .ok bytes) (second : encodeMutation b = .ok bytes) :
    a.Readable := by
  cases a <;> cases b <;> try cases tags
  case putSource.putSource => exact SourceVersionInput.Readable.of_encoding readable wordsA wordsB first second
  case putFact.putFact => exact FactInput.Readable.of_encoding readable first second
  case correctFact.correctFact =>
    obtain ⟨_, first', rfl⟩ := map_eq_ok.mp first
    obtain ⟨_, second', same⟩ := map_eq_ok.mp second
    obtain ⟨-, rfl⟩ := Octets.append_inj.mp same
    exact ⟨trivial, FactInput.Readable.of_encoding readable.2 first' second'⟩
  all_goals trivial

theorem moved_mutation (scope : NamespaceRef) (mutation : MemoryMutation) :
    (mutation.moved scope).tag = mutation.tag ∧ encodeMutation (mutation.moved scope) = encodeMutation mutation ∧
      ((mutation.moved scope).Words ↔ mutation.Words) ∧ ((mutation.moved scope).Readable ↔ mutation.Readable) ∧
      (mutation.moved scope).Local scope := by
  have shape (blob : BlobReference) : { blob with scope := scope }.validReferenceShape = blob.validReferenceShape := rfl
  cases mutation <;>
    simp [MemoryMutation.moved, MemoryMutation.tag, MemoryMutation.Words, MemoryMutation.Readable, MemoryMutation.Local,
      MemoryMutation.Meets, encodeMutation, encodeSource, encodeFact, SourceVersionInput.moved, FactInput.moved,
      SourceVersionId.moved, moved, encodeSourceId, SourceVersionInput.Words, SourceVersionInput.Readable,
      SourceVersionInput.Local, FactInput.Words, FactInput.Readable, FactInput.Local, flatMap_map, shape]

theorem moved_of_local {mutation : MemoryMutation} (here : mutation.Local scope) : mutation.moved scope = mutation := by
  have record {r : RecordRef} (h : r.scope = scope) : moved scope r = r := h ▸ rfl
  have version {id : SourceVersionId} (h : id.source.scope = scope) : id.moved scope = id := h ▸ rfl
  have fact {f : FactInput} (h : f.Local scope) : f.moved scope = f := by
    have links : f.links.map (moved scope) = f.links := (map_congr_left fun r mem => record (h.2.2 r mem)).trans (map_id _)
    simp only [FactInput.moved, record h.1, version h.2.1, links]
  cases mutation with
  | beginRebuild | completeRebuild => rfl
  | putSource source =>
    obtain ⟨id, rfl⟩ := here
    simp only [MemoryMutation.moved, SourceVersionInput.moved, version id]
  | putFact => rw [MemoryMutation.moved, fact here]
  | correctFact => rw [MemoryMutation.moved, record here.1, fact here.2]
  | retractFact => rw [MemoryMutation.moved, record here]
  | revokeSource => rw [MemoryMutation.moved, version here]

/-- A transaction is read back as itself or not at all exactly where it names nothing of another
scope, or is too large to be read; and what is read is what the bytes encode. -/
theorem transactions_read_back_iff (transaction : MemoryTransaction) (bytes : List UInt8) :
    (transaction.generation < 256 ^ 8 → transaction.mutation.Words → encodeTransaction transaction = .ok bytes →
      ((∀ read, decodeTransaction bytes = .ok read → read = transaction) ↔
        transaction.mutation.Local transaction.scope ∨ ¬ transaction.mutation.Readable)) ∧
    ∀ read, decodeTransaction bytes = .ok read → encodeTransaction read = .ok bytes := by
  refine ⟨?_, fun _ decoded => (decodeTransaction_iff.mp decoded).2⟩
  intro fits words encoded
  obtain ⟨scope, generation, mutation⟩ := transaction
  obtain ⟨tag, same, movedWords, movedReadable, movedLocal⟩ := moved_mutation scope mutation
  have readBack (readable : mutation.Readable) :
      decodeTransaction bytes = .ok ⟨scope, generation, mutation.moved scope⟩ := by
    refine decodeTransaction_iff.mpr ⟨⟨fits, movedWords.mpr words, movedReadable.mpr readable, movedLocal⟩, ?_⟩
    rw [← encoded]
    simp only [encodeTransaction, tag, same]
  constructor
  · intro only
    by_cases readable : mutation.Readable
    · left
      have back := only _ (readBack readable)
      rw [MemoryTransaction.mk.injEq] at back
      exact back.2.2 ▸ movedLocal
    · exact .inr readable
  · intro condition read decoded
    obtain ⟨⟨fits', words', readable', -⟩, encoded'⟩ := decodeTransaction_iff.mp decoded
    have readable : mutation.Readable := by
      simp only [encodeTransaction, bind_eq_ok, pure_eq_ok] at encoded encoded'
      obtain ⟨_, first, -, -, rfl⟩ := encoded
      obtain ⟨_, second, -, -, layout⟩ := encoded'
      simp only [append_assoc, append_cancel_left_eq, cons_append, nil_append, List.cons.injEq,
        Octets.append_inj, bigEndian_append_inj fits' fits, true_and] at layout
      obtain ⟨tags, -, -, -, rfl⟩ := layout
      exact .of_encoding readable' tags words words' first second
    rw [readBack readable] at decoded
    cases decoded
    rw [moved_of_local (condition.resolve_right (not_not.mpr readable))]

/-- The retraction, in one namespace, of the record with identity zero in the namespace given. -/
def sampleRetraction (namespaceId : NamespaceId) : MemoryTransaction :=
  ⟨⟨default, default⟩, 1, .retractFact ⟨⟨default, namespaceId⟩, default⟩⟩

theorem transactions_read_back_iff_sample : ∃ bytes, encodeTransaction (sampleRetraction default) = .ok bytes ∧
    ∀ read, decodeTransaction bytes = .ok read → read = sampleRetraction default := by
  refine ⟨_, rfl, ?_⟩
  exact ((transactions_read_back_iff (sampleRetraction default) _).1 (by decide) trivial rfl).mpr (.inl rfl)

theorem foreign_record_becomes_local : sampleRetraction ⟨⟨List.replicate 16 1, rfl⟩⟩ ≠ sampleRetraction default ∧
    (encodeTransaction (sampleRetraction ⟨⟨List.replicate 16 1, rfl⟩⟩) >>= decodeTransaction) = .ok (sampleRetraction default) := by
  decide +kernel

end Uste.Memory
