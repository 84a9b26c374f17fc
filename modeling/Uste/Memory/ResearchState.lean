import Uste.Memory.ResearchCodec

/-! The reducer of `research-memory-v1`. -/

namespace Uste.Memory.Research

open Types Crypto Policy Storage Txn Std

inductive ClaimStatus where
  | active
  | superseded (revision : CommitRevision)
  | retracted (revision : CommitRevision)
  | expired (revision : CommitRevision)
  deriving DecidableEq

structure ResearchSourceEntry where
  input : SourceRecordInput
  recordedRevision : CommitRevision
  supersededRevision : Option CommitRevision
  revokedRevision : Option CommitRevision
  deriving DecidableEq

structure ResearchArtifactEntry where
  input : ArtifactInput
  recordedRevision : CommitRevision
  deriving DecidableEq

structure ResearchClaimEntry where
  input : ClaimInput
  recordedRevision : CommitRevision
  status : ClaimStatus
  deriving DecidableEq

structure ResearchEdgeEntry where
  input : EdgeInput
  recordedRevision : CommitRevision
  deriving DecidableEq

/-- As in the pilot, the counter that snapshots share is kept outside. -/
structure ResearchState where
  scope : NamespaceRef
  generation : Option Nat := none
  ready : Bool := false
  retainedFrom : Option CommitRevision := none
  currentRevision : Option CommitRevision := none
  sources : ExtTreeMap SourceVersionId ResearchSourceEntry := ∅
  distinctSources : Nat := 0
  retainedBytes : Nat := 0
  artifacts : ExtTreeMap RecordRef ResearchArtifactEntry := ∅
  claims : ExtTreeMap RecordRef ResearchClaimEntry := ∅
  edges : ExtTreeMap RecordRef ResearchEdgeEntry := ∅
  fanOut : ExtTreeMap RecordRef Nat := ∅

/-- Retained content arrives with exactly its own blob, and nothing else does. -/
def requireInventory (scope : NamespaceRef) : Option RetainedContent → Option BlobInventory → Except ApplyError Unit
  | none, none => pure ()
  | some content, some inventory =>
    require (inventory.scope = scope ∧ inventory.references = [content.blob]) .invalidRequest
  | _, _ => .error .invalidRequest

namespace ResearchState

variable (s : ResearchState)

def versionsOf (source : RecordRef) : List (SourceVersionId × ResearchSourceEntry) :=
  s.sources.toList.filter (·.1.source = source)

def latestVersion (source : RecordRef) : Option Nat := (s.versionsOf source).getLast?.map (·.1.version)

/-- Identities are unique across the kinds of records. -/
def occupied (id : RecordRef) : Bool :=
  (s.latestVersion id).isSome || s.artifacts.contains id || s.claims.contains id || s.edges.contains id

def requireGeneration (generation : Nat) : Except ApplyError Unit := require (s.generation = some generation) .sourceChanged

def chargeRetained (content : Option RetainedContent) : Except ApplyError ResearchState := do
  let next ← orError .resourceLimit (checkedAdd wordLimit s.retainedBytes ((content.map (·.blob.byteLen)).getD 0))
  require (next ≤ researchProfile.maximumSourceBytes) .resourceLimit
  pure { s with retainedBytes := next }

def endClaim (target : RecordRef) (terminal : ClaimStatus) : Except ApplyError ResearchState := do
  let claim ← orError .conflict s.claims[target]?
  require (claim.status = .active) .conflict
  pure { s with claims := s.claims.insert target { claim with status := terminal } }

def supersede (source : RecordRef) (revision : CommitRevision) : Except ApplyError ResearchState :=
  match s.latestVersion source with
  | some previous => do
    let entry ← orError .conflict s.sources[(⟨source, previous⟩ : SourceVersionId)]?
    pure { s with sources := s.sources.insert ⟨source, previous⟩ { entry with supersededRevision := some revision } }
  | none => pure { s with distinctSources := s.distinctSources + 1 }

def putSource (source : SourceRecordInput) (inventory : Option BlobInventory) (revision : CommitRevision) :
    Except ApplyError ResearchState := do
  let latest := s.latestVersion source.id.source
  require (¬(latest = none ∧ s.occupied source.id.source = true)) .conflict
  let expected ← orError .resourceLimit (checkedAdd (2 ^ 32) (latest.getD 0) 1)
  require (source.id.version = expected) .conflict
  require (¬(latest = none ∧ researchProfile.maximumSources ≤ s.distinctSources)) .resourceLimit
  require (s.sources.size < researchProfile.maximumSourceVersions) .resourceLimit
  requireInventory s.scope source.content inventory
  let s ← s.chargeRetained source.content
  let s ← s.supersede source.id.source revision
  pure { s with sources := s.sources.insert source.id ⟨source, revision, none, none⟩ }

def usableSource (id : SourceVersionId) : Except ApplyError SourceRecordInput := do
  let entry ← orError .conflict s.sources[id]?
  require (entry.revokedRevision = none) .conflict
  pure entry.input

def putArtifact (artifact : ArtifactInput) (inventory : Option BlobInventory) (revision : CommitRevision) :
    Except ApplyError ResearchState := do
  require (s.occupied artifact.id = false) .conflict
  require (s.artifacts.size < researchProfile.maximumArtifacts) .resourceLimit
  artifact.inputs.forM fun input => do
    let _ ← s.usableSource input
  requireInventory s.scope artifact.content inventory
  let s ← s.chargeRetained artifact.content
  pure { s with artifacts := s.artifacts.insert artifact.id ⟨artifact, revision⟩ }

def checkCitation (citation : CitationInput) : Except ApplyError Unit := do
  let source ← s.usableSource citation.source
  match source.outcome with
  | .inaccessible _ => .error .conflict
  | _ => require (citation.locator.range.2 ≤ (source.content.map (·.blob.byteLen)).getD 0) .invalidRequest

def supersedeClaim (corrects : Option RecordRef) (revision : CommitRevision) : Except ApplyError ResearchState :=
  match corrects with
  | none => pure s
  | some predecessor => s.endClaim predecessor (.superseded revision)

def putClaim (claim : ClaimInput) (revision : CommitRevision) : Except ApplyError ResearchState := do
  require (s.occupied claim.id = false) .conflict
  require (s.claims.size < researchProfile.maximumClaims) .resourceLimit
  claim.citations.forM s.checkCitation
  let s ← s.supersedeClaim claim.corrects revision
  pure { s with claims := s.claims.insert claim.id ⟨claim, revision, .active⟩ }

def fanOutOf (record : RecordRef) : Nat := s.fanOut[record]?.getD 0

def countEdge (fanOut : ExtTreeMap RecordRef Nat) (edge : EdgeInput) : ExtTreeMap RecordRef Nat :=
  [edge.fromRecord, edge.toRecord].foldl (fun counts endpoint => counts.insert endpoint (counts[endpoint]?.getD 0 + 1)) fanOut

def putEdge (edge : EdgeInput) (revision : CommitRevision) : Except ApplyError ResearchState := do
  require (s.occupied edge.id = false ∧ s.occupied edge.fromRecord = true ∧ s.occupied edge.toRecord = true) .conflict
  require (edge.assertedBy ∈ s.claims ∨ edge.assertedBy ∈ s.artifacts) .conflict
  require (s.edges.size < researchProfile.maximumEdges) .resourceLimit
  [edge.fromRecord, edge.toRecord].forM fun endpoint =>
    require (s.fanOutOf endpoint < researchProfile.maximumEdgesPerRecord) .resourceLimit
  pure { s with
    fanOut := countEdge s.fanOut edge
    edges := s.edges.insert edge.id ⟨edge, revision⟩ }

def beginRebuild (generation nextGeneration : Nat) (inventory : Option BlobInventory) (revision : CommitRevision) :
    Except ApplyError ResearchState := do
  require (inventory = none ∧ generation = nextGeneration ∧
    ∀ current ∈ s.generation, checkedAdd wordLimit current 1 = some nextGeneration) .conflict
  pure { scope := s.scope, generation := some nextGeneration, retainedFrom := some revision }

def put (record : ResearchRecord) (inventory : Option BlobInventory) (revision : CommitRevision) :
    Except ApplyError ResearchState :=
  match record with
  | .source source => s.putSource source inventory revision
  | .artifact artifact => s.putArtifact artifact inventory revision
  | .claim claim => do
    requireNoInventory inventory
    s.putClaim claim revision
  | .edge edge => do
    requireNoInventory inventory
    s.putEdge edge revision

def revokeSource (id : SourceVersionId) (revision : CommitRevision) : Except ApplyError ResearchState := do
  let entry ← orError .conflict s.sources[id]?
  require (entry.revokedRevision = none) .conflict
  pure { s with sources := s.sources.insert id { entry with revokedRevision := some revision } }

def mutate (transaction : ResearchTransaction) (inventory : Option BlobInventory) (revision : CommitRevision) :
    Except ApplyError ResearchState :=
  match transaction.mutation with
  | .beginRebuild nextGeneration => s.beginRebuild transaction.generation nextGeneration inventory revision
  | .put record => do
    s.requireGeneration transaction.generation
    s.put record inventory revision
  | .retractClaim target => do
    s.requireGeneration transaction.generation
    requireNoInventory inventory
    s.endClaim target (.retracted revision)
  | .expireClaim target => do
    s.requireGeneration transaction.generation
    requireNoInventory inventory
    s.endClaim target (.expired revision)
  | .revokeSource source => do
    s.requireGeneration transaction.generation
    requireNoInventory inventory
    s.revokeSource source revision
  | .completeRebuild => do
    s.requireGeneration transaction.generation
    requireNoInventory inventory
    require (s.ready = false) .conflict
    pure { s with ready := true }

def apply (transaction : ResearchTransaction) (inventory : Option BlobInventory) (revision : CommitRevision) :
    Except ApplyError ResearchState := do
  require (transaction.scope = s.scope ∧ transaction.generation ≠ 0) .invalidRequest
  let s ← s.mutate transaction inventory revision
  pure { s with currentRevision := some revision }

def prepare [Primitives] (s : ResearchState) (canonicalRequest : List UInt8) (inventory : Option BlobInventory)
    (revision : CommitRevision) : Except ApplyError ResearchState := do
  let transaction ← (decodeResearchTransaction canonicalRequest).mapError ResearchCodecError.apply
  s.apply transaction inventory revision

end ResearchState

end Uste.Memory.Research
