import Uste.Memory.Research

/-! The canonical bytes of research records and of the transactions that carry them. -/

namespace Uste.Memory.Research

open Types Crypto Policy Storage Txn
open Time (UtcInstant)

/-! ### Encoding a record -/

def encodeString (value : String) : Except ResearchCodecError (List UInt8) := do
  require (Utf8.len value < 2 ^ 32) .resourceLimit
  pure (bigEndian 4 (Utf8.len value) ++ Utf8.bytes value)

def encodeContent : Option RetainedContent → Except ResearchCodecError (List UInt8)
  | some content => do
    let mediaType ← encodeString content.mediaType
    pure (1 :: content.blob.id.bytes ++ bigEndian 8 content.blob.byteLen ++ bigEndian 4 content.blob.chunkCount ++
      content.blob.contentDigest.bytes ++ mediaType)
  | none => pure [0]

def encodeCount (count : Nat) : Except ResearchCodecError (List UInt8) := do
  require (count < 2 ^ 16) .resourceLimit
  pure (bigEndian 2 count)

def encodeFlag (flag : Bool) : UInt8 := if flag then 1 else 0

def SourceKind.tag : SourceKind → UInt8
  | .webPage => 1
  | .docPackPage => 2
  | .repositoryFile => 3
  | .repositoryManifest => 4
  | .suppliedDocument => 5

def encodeOutcome : FetchOutcome → Except ResearchCodecError (List UInt8)
  | .complete => pure [1]
  | .partiallyFetched reason => (2 :: ·) <$> encodeString reason
  | .truncated limitBytes => pure (3 :: bigEndian 8 limitBytes)
  | .inaccessible reason => (4 :: ·) <$> encodeString reason

def encodeFreshness : Freshness → List UInt8
  | .pinned => [1]
  | .maxAge seconds => 2 :: bigEndian 8 seconds

def encodeSource (source : SourceRecordInput) : Except ResearchCodecError (List UInt8) := do
  let locatorText ← encodeString source.locatorText
  let versionLabel ← encodeString source.versionLabel
  let routeLabel ← encodeString source.routeLabel
  let outcome ← encodeOutcome source.outcome
  let content ← encodeContent source.content
  let licenseLabel ← encodeString source.licenseLabel
  pure (encodeSourceId source.id ++ [source.kind.tag] ++ locatorText ++ versionLabel ++
    encodeOptionalInstant (some source.retrievedAt) ++ source.runIdentity.bytes ++ routeLabel ++ outcome ++ content ++
    licenseLabel ++ [encodeFlag source.redistributable] ++ encodeFreshness source.freshness)

def encodeArtifact (artifact : ArtifactInput) : Except ResearchCodecError (List UInt8) := do
  let count ← encodeCount artifact.inputs.length
  let name ← encodeString artifact.producer.name
  let revision ← encodeString artifact.producer.revision
  let content ← encodeContent artifact.content
  let limitations ← encodeString artifact.limitations
  pure (artifact.id.id.bytes.bytes ++ count ++ artifact.inputs.flatMap encodeSourceId ++ name ++ revision ++
    artifact.producer.configurationDigest.bytes ++ content ++ [encodeFlag artifact.completeCoverage] ++ limitations)

def SupportKind.tag : SupportKind → UInt8
  | .directQuote => 1
  | .paraphrase => 2
  | .inference => 3
  | .unsupported => 4

def encodeCitation (citation : CitationInput) : Except ResearchCodecError (List UInt8) := do
  let excerpt ← match citation.excerpt with
    | some excerpt => (1 :: ·) <$> encodeString excerpt
    | none => pure [0]
  pure (encodeSourceId citation.source ++ encodeLocator citation.locator ++ citation.excerptDigest.bytes ++ excerpt)

def encodeClaim (claim : ClaimInput) : Except ResearchCodecError (List UInt8) := do
  let subject ← encodeString claim.subject
  let predicate ← encodeString claim.predicate
  let value ← encodeString claim.value
  let count ← encodeCount claim.citations.length
  let citations ← claim.citations.mapM encodeCitation
  let corrects := match claim.corrects with
    | some predecessor => 1 :: predecessor.id.bytes.bytes
    | none => [0]
  pure (claim.id.id.bytes.bytes ++ subject ++ predicate ++ value ++ [claim.support.tag] ++ count ++ citations.flatten ++
    encodeOptionalInstant claim.validFrom ++ encodeOptionalInstant claim.validUntil ++ corrects)

def EdgeKind.tag : EdgeKind → UInt8
  | .supports => 1
  | .contradicts => 2
  | .corrects => 3
  | .derivedFrom => 4
  | .dependsOn => 5
  | .documents => 6
  | .related => 7

def encodeEdge (edge : EdgeInput) : List UInt8 :=
  edge.id.id.bytes.bytes ++ [edge.kind.tag] ++ edge.fromRecord.id.bytes.bytes ++ edge.toRecord.id.bytes.bytes ++
  edge.assertedBy.id.bytes.bytes ++ encodeOptionalInstant edge.validFrom ++ encodeOptionalInstant edge.validUntil

def ResearchRecord.kindTag : ResearchRecord → UInt8
  | .source _ => 1
  | .artifact _ => 2
  | .claim _ => 3
  | .edge _ => 4

def ResearchRecord.encodeBody : ResearchRecord → Except ResearchCodecError (List UInt8)
  | .source record => encodeSource record
  | .artifact record => encodeArtifact record
  | .claim record => encodeClaim record
  | .edge record => pure (encodeEdge record)

def encodeResearchRecord [Primitives] (scope : NamespaceRef) (record : ResearchRecord) :
    Except ResearchCodecError (List UInt8) := do
  record.validate scope
  let body ← record.encodeBody
  let output := ascii "URSM" ++ [1, 0, record.kindTag, 0] ++ scope.database.bytes.bytes ++ scope.namespaceId.bytes.bytes ++ body
  require (output.length ≤ researchProfile.maximumRequestBytes) .resourceLimit
  pure output

/-! ### Decoding a record -/

abbrev ResearchCursor := Reader ResearchCodecError

namespace ResearchCursor

def array (n : Nat) : ResearchCursor (Octets n) := Reader.array .invalid n
def byte : ResearchCursor UInt8 := Reader.byte .invalid
def u32 : ResearchCursor Nat := Reader.word .invalid 4
def u64 : ResearchCursor Nat := Reader.word .invalid 8
def string (maximum : Nat) : ResearchCursor String := Reader.string .invalid .resourceLimit maximum

def flag : ResearchCursor Bool := do
  let tag ← byte
  if tag = 0 then pure false
  else if tag = 1 then pure true
  else Program.fail .invalid

def count (maximum : Nat) : ResearchCursor Nat := do
  let count ← Reader.word .invalid 2
  Program.ensure (count ≤ maximum) .resourceLimit
  pure count

def record (scope : NamespaceRef) : ResearchCursor RecordRef := do
  let id ← array 16
  pure ⟨scope, ⟨id⟩⟩

def instant : ResearchCursor (Option UtcInstant) := Reader.optional .invalid do
  let seconds ← u64
  let nanoseconds ← u32
  Program.lift id (orError .invalid (UtcInstant.new (ofSigned seconds) nanoseconds))

def sourceId (scope : NamespaceRef) : ResearchCursor SourceVersionId := do
  let source ← record scope
  let version ← u32
  pure ⟨source, version⟩

def locator : ResearchCursor SourceLocator := do
  let tag ← byte
  let first ← u64
  let last ← u64
  if tag = 1 then pure (.byteRange first last)
  else if tag = 2 then do
    let firstLine ← u32
    let lastLine ← u32
    pure (.utf8Lines first last firstLine lastLine)
  else Program.fail .invalid

def content (scope : NamespaceRef) : ResearchCursor (Option RetainedContent) := Reader.optional .invalid do
  let blobId ← array 16
  let byteLen ← u64
  let chunkCount ← u32
  let contentDigest ← array 32
  let blob : BlobReference := ⟨scope, blobId, byteLen, chunkCount, contentDigest⟩
  Program.ensure (blob.validReferenceShape = true) .invalid
  let mediaType ← string researchProfile.maximumMediaTypeBytes
  pure ⟨blob, mediaType⟩

end ResearchCursor

open ResearchCursor

def decodeSourceKind : ResearchCursor SourceKind := do
  match ← byte with
  | 1 => pure .webPage
  | 2 => pure .docPackPage
  | 3 => pure .repositoryFile
  | 4 => pure .repositoryManifest
  | 5 => pure .suppliedDocument
  | _ => Program.fail .invalid

def decodeOutcome : ResearchCursor FetchOutcome := do
  match ← byte with
  | 1 => pure .complete
  | 2 => .partiallyFetched <$> string researchProfile.maximumReasonBytes
  | 3 => .truncated <$> u64
  | 4 => .inaccessible <$> string researchProfile.maximumReasonBytes
  | _ => Program.fail .invalid

def decodeFreshness : ResearchCursor Freshness := do
  match ← byte with
  | 1 => pure .pinned
  | 2 => .maxAge <$> u64
  | _ => Program.fail .invalid

def decodeSource (scope : NamespaceRef) : ResearchCursor SourceRecordInput := do
  let id ← sourceId scope
  let kind ← decodeSourceKind
  let locatorText ← string researchProfile.maximumLocatorTextBytes
  let versionLabel ← string researchProfile.maximumLabelBytes
  let retrieved ← instant
  let retrievedAt ← Program.lift (fun e => e) (orError .invalid retrieved)
  let runIdentity ← array 16
  let routeLabel ← string researchProfile.maximumLabelBytes
  let outcome ← decodeOutcome
  let content ← content scope
  let licenseLabel ← string researchProfile.maximumLabelBytes
  let redistributable ← flag
  let freshness ← decodeFreshness
  pure ⟨id, kind, locatorText, versionLabel, retrievedAt, runIdentity, routeLabel, outcome, content, licenseLabel,
    redistributable, freshness⟩

def decodeArtifact (scope : NamespaceRef) : ResearchCursor ArtifactInput := do
  let id ← record scope
  let count ← count researchProfile.maximumArtifactInputs
  let inputs ← Reader.replicate count (sourceId scope)
  let name ← string researchProfile.maximumLabelBytes
  let revision ← string researchProfile.maximumLabelBytes
  let configurationDigest ← array 32
  let content ← content scope
  let completeCoverage ← flag
  let limitations ← string researchProfile.maximumReasonBytes
  pure ⟨id, inputs, ⟨name, revision, configurationDigest⟩, content, completeCoverage, limitations⟩

def decodeSupport : ResearchCursor SupportKind := do
  match ← byte with
  | 1 => pure .directQuote
  | 2 => pure .paraphrase
  | 3 => pure .inference
  | 4 => pure .unsupported
  | _ => Program.fail .invalid

def decodeCitation (scope : NamespaceRef) : ResearchCursor CitationInput := do
  let source ← sourceId scope
  let locator ← locator
  let excerptDigest ← array 32
  let excerpt ← Reader.optional .invalid (string researchProfile.maximumExcerptBytes)
  pure ⟨source, locator, excerptDigest, excerpt⟩

def decodeClaim (scope : NamespaceRef) : ResearchCursor ClaimInput := do
  let id ← record scope
  let subject ← string researchProfile.maximumClaimFieldBytes
  let predicate ← string researchProfile.maximumClaimFieldBytes
  let value ← string researchProfile.maximumClaimFieldBytes
  let support ← decodeSupport
  let count ← count researchProfile.maximumCitationsPerClaim
  let citations ← Reader.replicate count (decodeCitation scope)
  let validFrom ← instant
  let validUntil ← instant
  let corrects ← Reader.optional .invalid (record scope)
  pure ⟨id, subject, predicate, value, support, citations, validFrom, validUntil, corrects⟩

def decodeEdgeKind : ResearchCursor EdgeKind := do
  match ← byte with
  | 1 => pure .supports
  | 2 => pure .contradicts
  | 3 => pure .corrects
  | 4 => pure .derivedFrom
  | 5 => pure .dependsOn
  | 6 => pure .documents
  | 7 => pure .related
  | _ => Program.fail .invalid

def decodeEdge (scope : NamespaceRef) : ResearchCursor EdgeInput := do
  let id ← record scope
  let kind ← decodeEdgeKind
  let fromRecord ← record scope
  let toRecord ← record scope
  let assertedBy ← record scope
  let validFrom ← instant
  let validUntil ← instant
  pure ⟨id, kind, fromRecord, toRecord, assertedBy, validFrom, validUntil⟩

def decodeBody (kind : UInt8) (scope : NamespaceRef) : ResearchCursor ResearchRecord :=
  match kind with
  | 1 => .source <$> decodeSource scope
  | 2 => .artifact <$> decodeArtifact scope
  | 3 => .claim <$> decodeClaim scope
  | 4 => .edge <$> decodeEdge scope
  | _ => Program.fail .unsupportedVersion

def recordCursor : ResearchCursor (NamespaceRef × ResearchRecord) := do
  let magic ← Reader.take .invalid 4
  Program.ensure (magic = ascii "URSM") .unsupportedVersion
  let major ← byte
  Program.ensure (major = 1) .unsupportedVersion
  let minor ← byte
  Program.ensure (minor = 0) .unsupportedVersion
  let kind ← byte
  let reserved ← byte
  Program.ensure (reserved = 0) .invalid
  let database ← array 16
  let namespaceId ← array 16
  let scope : NamespaceRef := ⟨⟨database⟩, ⟨namespaceId⟩⟩
  let record ← decodeBody kind scope
  let rest ← Program.read
  Program.ensure (rest = []) .invalid
  pure (scope, record)

def decodeResearchRecord [Primitives] (input : List UInt8) : Except ResearchCodecError (NamespaceRef × ResearchRecord) := do
  require (input.length ≤ researchProfile.maximumRequestBytes) .resourceLimit
  let decoded ← (recordCursor.run input).1
  decoded.2.validate decoded.1
  pure decoded

/-! ### Transactions -/

inductive ResearchMutation where
  | beginRebuild (nextGeneration : Nat)
  | put (record : ResearchRecord)
  | retractClaim (target : RecordRef)
  | expireClaim (target : RecordRef)
  | revokeSource (source : SourceVersionId)
  | completeRebuild
  deriving DecidableEq

structure ResearchTransaction where
  scope : NamespaceRef
  generation : Nat
  mutation : ResearchMutation
  deriving DecidableEq

def researchTransactionHeaderBytes : Nat := 48

def ResearchMutation.tag : ResearchMutation → UInt8
  | .beginRebuild _ => 1
  | .put _ => 2
  | .retractClaim _ => 3
  | .expireClaim _ => 4
  | .revokeSource _ => 5
  | .completeRebuild => 6

def ResearchMutation.encode [Primitives] (scope : NamespaceRef) : ResearchMutation → Except ResearchCodecError (List UInt8)
  | .beginRebuild nextGeneration => pure (bigEndian 8 nextGeneration)
  | .put record => do
    let encoded ← encodeResearchRecord scope record
    require (encoded.length < 2 ^ 32) .resourceLimit
    pure (bigEndian 4 encoded.length ++ encoded)
  | .retractClaim target => do
    sameScope scope target
    pure target.id.bytes.bytes
  | .expireClaim target => do
    sameScope scope target
    pure target.id.bytes.bytes
  | .revokeSource source => do
    sameScope scope source.source
    require (source.version ≠ 0) .invalid
    pure (encodeSourceId source)
  | .completeRebuild => pure []

def encodeResearchTransaction [Primitives] (transaction : ResearchTransaction) : Except ResearchCodecError (List UInt8) := do
  let body ← transaction.mutation.encode transaction.scope
  let output := ascii "URST" ++ [1, 0, transaction.mutation.tag, 0] ++ transaction.scope.database.bytes.bytes ++
    transaction.scope.namespaceId.bytes.bytes ++ bigEndian 8 transaction.generation ++ body
  require (output.length ≤ researchProfile.maximumRequestBytes) .resourceLimit
  pure output

def arrayOf (n : Nat) (bytes : List UInt8) : Except ResearchCodecError (Octets n) := orError .invalid (Octets.ofList? n bytes)

def decodeResearchMutation [Primitives] (tag : UInt8) (scope : NamespaceRef) (body : List UInt8) :
    Except ResearchCodecError ResearchMutation :=
  match tag with
  | 1 => do
    let next ← arrayOf 8 body
    pure (.beginRebuild (ofBigEndian next.bytes))
  | 2 => do
    require (4 ≤ body.length) .invalid
    require (ofBigEndian (body.take 4) = (body.drop 4).length) .invalid
    let (recordScope, record) ← decodeResearchRecord (body.drop 4)
    require (recordScope = scope) .scopeMismatch
    pure (.put record)
  | 3 => do
    let target ← arrayOf 16 body
    pure (.retractClaim ⟨scope, ⟨target⟩⟩)
  | 4 => do
    let target ← arrayOf 16 body
    pure (.expireClaim ⟨scope, ⟨target⟩⟩)
  | 5 => do
    let bytes ← arrayOf 20 body
    let version := ofBigEndian (bytes.bytes.drop 16)
    require (version ≠ 0) .invalid
    let source ← arrayOf 16 (bytes.bytes.take 16)
    pure (.revokeSource ⟨⟨scope, ⟨source⟩⟩, version⟩)
  | 6 => do
    require (body = []) .invalid
    pure .completeRebuild
  | _ => .error .unsupportedVersion

def decodeResearchTransaction [Primitives] (input : List UInt8) : Except ResearchCodecError ResearchTransaction := do
  require (input.length ≤ researchProfile.maximumRequestBytes) .resourceLimit
  require (researchTransactionHeaderBytes ≤ input.length) .invalid
  require (input.take 6 = ascii "URST" ++ [1, 0]) .unsupportedVersion
  require ((slice input 7 1) = [0]) .invalid
  let database ← arrayOf 16 (slice input 8 16)
  let namespaceId ← arrayOf 16 (slice input 24 16)
  let scope : NamespaceRef := ⟨⟨database⟩, ⟨namespaceId⟩⟩
  let mutation ← decodeResearchMutation ((input.drop 6).headD 0) scope (input.drop researchTransactionHeaderBytes)
  pure ⟨scope, ofBigEndian (slice input 40 8), mutation⟩

def ResearchCodecError.apply : ResearchCodecError → ApplyError
  | .resourceLimit => .resourceLimit
  | .invalid => .invalidRequest
  | .unsupportedVersion => .invalidRequest
  | .scopeMismatch => .invalidRequest

end Uste.Memory.Research
