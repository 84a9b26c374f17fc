import Uste.Memory.PilotQuery

/-!
Records of `research-memory-v1`: sources as they were fetched, artifacts made from them, claims that
cite spans of them, and edges between records; and what a record is checked for without storage.
-/

namespace Uste.Memory.Research

open Types Crypto Policy Storage Txn Std
open Time (UtcInstant)

structure ResearchProfile where
  maximumSources : Nat
  maximumSourceVersions : Nat
  maximumSourceBytes : Nat
  maximumSourceBytesPerVersion : Nat
  maximumArtifacts : Nat
  maximumClaims : Nat
  maximumEdges : Nat
  maximumCitationsPerClaim : Nat
  maximumEdgesPerRecord : Nat
  maximumArtifactInputs : Nat
  maximumClaimFieldBytes : Nat
  maximumExcerptBytes : Nat
  maximumLocatorTextBytes : Nat
  maximumLabelBytes : Nat
  maximumReasonBytes : Nat
  maximumMediaTypeBytes : Nat
  maximumRequestBytes : Nat
  maximumQueryCandidates : Nat
  maximumQueryResults : Nat
  maximumQueryOutputBytes : Nat

def researchProfile : ResearchProfile where
  maximumSources := 65536
  maximumSourceVersions := 262144
  maximumSourceBytes := 4 * 1024 * 1024 * 1024
  maximumSourceBytesPerVersion := 16 * 1024 * 1024
  maximumArtifacts := 262144
  maximumClaims := 1048576
  maximumEdges := 4194304
  maximumCitationsPerClaim := 16
  maximumEdgesPerRecord := 256
  maximumArtifactInputs := 16
  maximumClaimFieldBytes := 4 * 1024
  maximumExcerptBytes := 4 * 1024
  maximumLocatorTextBytes := 2 * 1024
  maximumLabelBytes := 256
  maximumReasonBytes := 1024
  maximumMediaTypeBytes := 256
  maximumRequestBytes := 1024 * 1024
  maximumQueryCandidates := 65536
  maximumQueryResults := 256
  maximumQueryOutputBytes := 1024 * 1024

inductive ResearchCodecError where
  | invalid
  | resourceLimit
  | unsupportedVersion
  | scopeMismatch
  deriving DecidableEq, Repr

/-! ### Records -/

inductive SourceKind where
  | webPage
  | docPackPage
  | repositoryFile
  | repositoryManifest
  | suppliedDocument
  deriving DecidableEq

inductive FetchOutcome where
  | complete
  | partiallyFetched (reason : String)
  | truncated (limitBytes : Nat)
  | inaccessible (reason : String)
  deriving DecidableEq

inductive Freshness where
  | pinned
  | maxAge (seconds : Nat)
  deriving DecidableEq

structure RetainedContent where
  blob : BlobReference
  mediaType : String
  deriving DecidableEq

structure SourceRecordInput where
  id : SourceVersionId
  kind : SourceKind
  locatorText : String
  versionLabel : String
  retrievedAt : UtcInstant
  runIdentity : Octets 16
  routeLabel : String
  outcome : FetchOutcome
  content : Option RetainedContent
  licenseLabel : String
  redistributable : Bool
  freshness : Freshness
  deriving DecidableEq

structure ProducerIdentity where
  name : String
  revision : String
  configurationDigest : Octets 32
  deriving DecidableEq

structure ArtifactInput where
  id : RecordRef
  inputs : List SourceVersionId
  producer : ProducerIdentity
  content : Option RetainedContent
  completeCoverage : Bool
  limitations : String
  deriving DecidableEq

inductive SupportKind where
  | directQuote
  | paraphrase
  | inference
  | unsupported
  deriving DecidableEq

structure CitationInput where
  source : SourceVersionId
  locator : SourceLocator
  excerptDigest : Octets 32
  excerpt : Option String
  deriving DecidableEq

structure ClaimInput where
  id : RecordRef
  subject : String
  predicate : String
  value : String
  support : SupportKind
  citations : List CitationInput
  validFrom : Option UtcInstant
  validUntil : Option UtcInstant
  corrects : Option RecordRef
  deriving DecidableEq

inductive EdgeKind where
  | supports
  | contradicts
  | corrects
  | derivedFrom
  | dependsOn
  | documents
  | related
  deriving DecidableEq

structure EdgeInput where
  id : RecordRef
  kind : EdgeKind
  fromRecord : RecordRef
  toRecord : RecordRef
  assertedBy : RecordRef
  validFrom : Option UtcInstant
  validUntil : Option UtcInstant
  deriving DecidableEq

inductive ResearchRecord where
  | source (source : SourceRecordInput)
  | artifact (artifact : ArtifactInput)
  | claim (claim : ClaimInput)
  | edge (edge : EdgeInput)
  deriving DecidableEq

/-! ### Checks on one record -/

def sameScope (scope : NamespaceRef) (record : RecordRef) : Except ResearchCodecError Unit :=
  require (record.scope = scope) .scopeMismatch

def boundedText (value : String) (maximum : Nat) (allowEmpty : Bool) : Except ResearchCodecError Unit := do
  require (Utf8.len value ≤ maximum) .resourceLimit
  require (value ≠ "" ∨ allowEmpty = true) .invalid

def validateInterval : Option UtcInstant → Option UtcInstant → Except ResearchCodecError Unit
  | some first, some last => require (before first last) .invalid
  | _, _ => pure ()

def validateSourceId (scope : NamespaceRef) (id : SourceVersionId) : Except ResearchCodecError Unit := do
  sameScope scope id.source
  require (id.version ≠ 0) .invalid

def validateContent (scope : NamespaceRef) (content : RetainedContent) : Except ResearchCodecError Unit := do
  require (content.blob.scope = scope) .scopeMismatch
  require (content.blob.byteLen ≤ researchProfile.maximumSourceBytesPerVersion) .resourceLimit
  boundedText content.mediaType researchProfile.maximumMediaTypeBytes false

/-- Bytes are retained exactly when there was something to fetch. -/
def validateOutcome (scope : NamespaceRef) : FetchOutcome → Option RetainedContent → Except ResearchCodecError Unit
  | .inaccessible reason, none => boundedText reason researchProfile.maximumReasonBytes false
  | .inaccessible _, some _ => .error .invalid
  | _, none => .error .invalid
  | .complete, some content => validateContent scope content
  | .partiallyFetched reason, some content => do
    boundedText reason researchProfile.maximumReasonBytes false
    validateContent scope content
  | .truncated limitBytes, some content => do
    validateContent scope content
    require (limitBytes ≠ 0 ∧ content.blob.byteLen ≤ limitBytes) .invalid

def validateSource (scope : NamespaceRef) (source : SourceRecordInput) : Except ResearchCodecError Unit := do
  validateSourceId scope source.id
  boundedText source.locatorText researchProfile.maximumLocatorTextBytes false
  boundedText source.versionLabel researchProfile.maximumLabelBytes false
  boundedText source.routeLabel researchProfile.maximumLabelBytes false
  boundedText source.licenseLabel researchProfile.maximumLabelBytes false
  validateOutcome scope source.outcome source.content
  require (source.freshness ≠ .maxAge 0) .invalid

def validateInputs (scope : NamespaceRef) : Option SourceVersionId → List SourceVersionId → Except ResearchCodecError Unit
  | _, [] => pure ()
  | previous, input :: rest => do
    validateSourceId scope input
    require (∀ before ∈ previous, compare before input = .lt) .invalid
    validateInputs scope (some input) rest

def validateArtifact (scope : NamespaceRef) (artifact : ArtifactInput) : Except ResearchCodecError Unit := do
  sameScope scope artifact.id
  require (artifact.inputs ≠ []) .invalid
  require (artifact.inputs.length ≤ researchProfile.maximumArtifactInputs) .resourceLimit
  validateInputs scope none artifact.inputs
  boundedText artifact.producer.name researchProfile.maximumLabelBytes false
  boundedText artifact.producer.revision researchProfile.maximumLabelBytes false
  artifact.content.forM (validateContent scope)
  boundedText artifact.limitations researchProfile.maximumReasonBytes true

def validateLocator : SourceLocator → Except ResearchCodecError Unit
  | .byteRange first last => require (first < last) .invalid
  | .utf8Lines first last firstLine lastLine => require (first < last ∧ 1 ≤ firstLine ∧ firstLine ≤ lastLine) .invalid

/-- `earlier` are the citations before this one: no span is cited twice. -/
def validateCitations [Primitives] (scope : NamespaceRef) :
    List CitationInput → List CitationInput → Except ResearchCodecError Unit
  | _, [] => pure ()
  | earlier, citation :: rest => do
    validateSourceId scope citation.source
    validateLocator citation.locator
    citation.excerpt.forM fun excerpt => do
      boundedText excerpt researchProfile.maximumExcerptBytes false
      require (sha256 (Utf8.bytes excerpt) = citation.excerptDigest) .invalid
    require (∀ other ∈ earlier, ¬(other.source = citation.source ∧ other.locator = citation.locator)) .invalid
    validateCitations scope (citation :: earlier) rest

def validateClaim [Primitives] (scope : NamespaceRef) (claim : ClaimInput) : Except ResearchCodecError Unit := do
  sameScope scope claim.id
  boundedText claim.subject researchProfile.maximumClaimFieldBytes false
  boundedText claim.predicate researchProfile.maximumClaimFieldBytes false
  boundedText claim.value researchProfile.maximumClaimFieldBytes true
  require (claim.citations.length ≤ researchProfile.maximumCitationsPerClaim) .resourceLimit
  require (claim.support = .unsupported ↔ claim.citations = []) .invalid
  validateCitations scope [] claim.citations
  validateInterval claim.validFrom claim.validUntil
  claim.corrects.forM fun predecessor => do
    sameScope scope predecessor
    require (predecessor ≠ claim.id) .invalid

def validateEdge (scope : NamespaceRef) (edge : EdgeInput) : Except ResearchCodecError Unit := do
  [edge.id, edge.fromRecord, edge.toRecord, edge.assertedBy].forM (sameScope scope)
  require (edge.fromRecord ≠ edge.toRecord) .invalid
  validateInterval edge.validFrom edge.validUntil

def ResearchRecord.validate [Primitives] (scope : NamespaceRef) : ResearchRecord → Except ResearchCodecError Unit
  | .source record => validateSource scope record
  | .artifact record => validateArtifact scope record
  | .claim record => validateClaim scope record
  | .edge record => validateEdge scope record

end Uste.Memory.Research
