import Uste.Memory.Identities

/-!
Citations of the pilot: a fact that a caller can read resolves to the bytes it was located at,
unless its byte range cuts a character of the text.
-/

namespace Uste.Memory

open Types Crypto Policy Storage Txn Std

def SourceLocator.OnCharacters (locator : SourceLocator) (source : SourceVersionInput) : Prop :=
  ∀ first last, locator = .byteRange first last → ∀ text ∈ source.exactUtf8,
    Utf8.isCharBoundary text first = true ∧ Utf8.isCharBoundary text last = true

def SourceLocator.excerptBytes (locator : SourceLocator) (source : SourceVersionInput) : Nat :=
  if source.exactUtf8 = none then 0 else locator.range.2 - locator.range.1

/-- A citation that reports its source as it is, and of its text exactly the range. -/
structure Citation.Faithful [Primitives] (citation : Citation) (locator : SourceLocator) (source : SourceVersionInput) : Prop where
  located : citation.locator = locator
  blob : citation.blob = source.blob
  contentDigest : citation.contentDigest = source.blob.contentDigest
  unquoted : source.exactUtf8 = none → citation.exactUtf8Excerpt = none
  quoted : ∀ text ∈ source.exactUtf8, ∃ excerpt, citation.exactUtf8Excerpt = some excerpt ∧
    Utf8.bytes excerpt = ((Utf8.bytes text).drop locator.range.1).take (locator.range.2 - locator.range.1)
  whole : ∀ text ∈ source.exactUtf8, sha256 (Utf8.bytes text) = citation.contentDigest ∧ Utf8.len text = citation.blob.byteLen

variable {locator : SourceLocator} {source : SourceVersionInput}

theorem boundaries_of_validate
    (valid : validateLocator locator source = .ok ()) (onCharacters : locator.OnCharacters source) :
    ∀ text ∈ source.exactUtf8, Utf8.isCharBoundary text locator.range.1 = true ∧ Utf8.isCharBoundary text locator.range.2 = true := by
  intro text kept
  cases locator with
  | byteRange first last => exact onCharacters first last rfl text kept
  | utf8Lines first last firstLine lastLine =>
    obtain ⟨_, -, other, found, _, checked, -⟩ := bind_ok₃ valid
    obtain rfl : text = other := Option.some.inj (kept.symm.trans (orError_ok.mp found))
    exact (require_ok.mp checked).2.2

theorem range_of_validate (valid : validateLocator locator source = .ok ()) :
    locator.range.1 ≤ locator.range.2 ∧ locator.range.2 ≤ source.blob.byteLen := by
  obtain ⟨_, checked, -⟩ := bind_ok valid
  exact require_ok.mp checked

namespace MemoryState

variable {s : MemoryState} {authorize : Authorize} {source : SourceVersionRecord} {locator : SourceLocator}

theorem excerpt_of_none (textless : source.input.exactUtf8 = none) : excerpt source locator = .ok none := by
  unfold excerpt
  rw [textless]
  rfl

theorem excerpt_of_some [Primitives] {text : String}
    (kept : source.input.exactUtf8 = some text) (sound : SoundSource source.input)
    (valid : validateLocator locator source.input = .ok ()) :
    excerpt source locator = some <$> orError .integrityFailure (Utf8.getRange text locator.range.1 locator.range.2) := by
  obtain ⟨ordered, within⟩ := range_of_validate valid
  have length := sound.length text kept
  have bounded : Utf8.len text ≤ 65536 := sound.bounded text kept
  have room : 65536 < wordLimit := by decide
  unfold excerpt
  rw [kept]
  rw [require_pos _ (by omega)]
  rfl

theorem excerpt_faithful [Primitives] (sound : SoundSource source.input)
    (valid : validateLocator locator source.input = .ok ()) (onCharacters : locator.OnCharacters source.input) :
    ∃ quote, excerpt source locator = .ok quote ∧ (quote.map Utf8.len).getD 0 = locator.excerptBytes source.input ∧
      (source.input.exactUtf8 = none → quote = none) ∧
      ∀ text ∈ source.input.exactUtf8, ∃ part, quote = some part ∧
        Utf8.bytes part = ((Utf8.bytes text).drop locator.range.1).take (locator.range.2 - locator.range.1) := by
  cases kept : source.input.exactUtf8 with
  | none => exact ⟨none, excerpt_of_none kept, by simp [SourceLocator.excerptBytes, kept], fun _ => rfl, nofun⟩
  | some text =>
    obtain ⟨ordered, within⟩ := range_of_validate valid
    obtain ⟨first, last⟩ := boundaries_of_validate valid onCharacters text kept
    obtain ⟨part, found⟩ := Option.isSome_iff_exists.mp (Utf8.isSome_getRange.mpr ⟨ordered, first, last⟩)
    have bytes := Utf8.bytes_getRange found
    refine ⟨some part, ?_, ?_, nofun, ?_⟩
    · rw [excerpt_of_some kept sound valid, found]
      rfl
    · show (Utf8.bytes part).length = _
      have length : (Utf8.bytes text).length = source.input.blob.byteLen := sound.length text kept
      rw [bytes, List.length_take, List.length_drop, SourceLocator.excerptBytes, if_neg (by simp [kept])]
      omega
    · intro other same
      cases same
      exact ⟨part, rfl, bytes⟩

theorem excerpt_ok_of_boundary [Primitives] {quote : Option String}
    (sound : SoundSource source.input) (valid : validateLocator locator source.input = .ok ())
    (h : excerpt source locator = .ok quote) : locator.OnCharacters source.input := by
  intro first last is_range text kept
  rw [excerpt_of_some kept sound valid] at h
  obtain ⟨part, found, -⟩ := map_ok h
  have found := orError_ok.mp found
  have boundaries := (Utf8.isSome_getRange.mp (Option.isSome_iff_exists.mpr ⟨part, found⟩)).2
  rw [is_range] at boundaries
  exact boundaries

theorem resolveCitation_iff [Primitives] (valid : Valid s) {revision : CommitRevision} {knowledge : KnowledgeAt} {id : RecordRef}
    {fact : FactRecord} {maximumOutputBytes : Nat}
    (resolved : s.resolveRevision knowledge = .ok revision) (eligible : s.Eligible revision authorize id fact)
    (rests : s.sources[fact.input.source]? = some source)
    (mayReadBlob : authorize .readBlob (.record fact.input.source.source) = true)
    (fits : fact.input.locator.excerptBytes source.input + 160 ≤ maximumOutputBytes)
    (allowed : maximumOutputBytes ≤ pilotProfile.maximumQueryOutputBytes) :
    (∃ citation, s.resolveCitation id knowledge maximumOutputBytes authorize = .ok citation ∧
      citation.Faithful fact.input.locator source.input) ↔ fact.input.locator.OnCharacters source.input := by
  obtain ⟨-, sound, -⟩ := valid.source _ source rests
  obtain ⟨-, -, ⟨other, found, located⟩, -⟩ := valid.fact id fact eligible.found
  obtain rfl : other = source := Option.some.inj (found.symm.trans rests)
  have limit : checkOutputLimit maximumOutputBytes = .ok () := require_pos _ ⟨by omega, allowed⟩
  constructor
  · rintro ⟨citation, h, -⟩
    unfold resolveCitation at h
    rw [limit, resolved] at h
    simp only [ok_bind, eligibleFact_iff.mpr eligible, orError, require_pos _ mayReadBlob, rests] at h
    obtain ⟨quote, quoted, -⟩ := bind_ok h
    exact excerpt_ok_of_boundary sound located quoted
  · intro onCharacters
    obtain ⟨quote, quoted, size, unquoted, part⟩ := excerpt_faithful sound located onCharacters
    let citation : Citation := ⟨id, fact.input.source, other.input.blob, other.input.blob.contentDigest, fact.input.locator, quote,
      other.recordedRevision, fact.recordedRevision⟩
    refine ⟨citation, ?_, ⟨rfl, rfl, rfl, unquoted, part, ?_⟩⟩
    · unfold resolveCitation
      rw [limit, resolved]
      simp only [ok_bind, eligibleFact_iff.mpr eligible, orError, require_pos _ mayReadBlob, rests, quoted]
      rw [require_pos _ (by omega)]
      rfl
    · exact fun text kept => ⟨sound.digest text kept, sound.length text kept⟩

end MemoryState

section Sample

attribute [local instance] plainPrimitives

theorem sampleAccent_valid : InventoryOf sampleScope [sampleBlobOf 1 3] := ⟨by decide, by decide, by simp⟩

def sampleAccent : SourceVersionInput := ⟨⟨sampleRecord 1, 1⟩, sampleBlobOf 1 3, textMediaType, some "aé", none⟩

def sampleCited (last : Nat) : FactInput := { sampleFact 2 with locator := .byteRange 0 last }

def sampleCitedState (last : Nat) := samplePublish
  [(sampleRequest 2 (.beginRebuild 2), none),
    (sampleRequest 2 (.putSource sampleAccent), some (sampleInventoryOf _ sampleAccent_valid)),
    (sampleRequest 2 (.putFact (sampleCited last)), none), (sampleRequest 2 .completeRebuild, none)]

def sampleCite : MemoryReadRequest := .resolveCitation 2 (sampleRecord 2) .current 65536

end Sample

end Uste.Memory
