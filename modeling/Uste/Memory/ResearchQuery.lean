import Uste.Memory.ResearchState

/-! Reads of `research-memory-v1`: hidden records add neither content nor counts. -/

namespace Uste.Memory.Research

open Types Crypto Policy Storage Txn Std
open Time (UtcInstant)

def maximumResearchQueryTerms : Nat := 8

def maximumResearchQueryTermBytes : Nat := 256

inductive ResearchReadRequest where
  | getClaim (authorityGeneration : Nat) (claim : RecordRef) (knowledge : KnowledgeAt) (evaluatedAt : UtcInstant)
      (maximumOutputBytes : Nat)
  | sourceVersions (authorityGeneration : Nat) (source : RecordRef) (knowledge : KnowledgeAt) (evaluatedAt : UtcInstant)
      (maximumResults : Nat)
  | sourceVersion (authorityGeneration : Nat) (id : SourceVersionId) (evaluatedAt : UtcInstant)
  | edgesFrom (authorityGeneration : Nat) (fromRecord : RecordRef) (kind : Option EdgeKind) (knowledge : KnowledgeAt)
      (maximumCandidates maximumResults : Nat)
  | search (scope : NamespaceRef) (authorityGeneration : Nat) (terms : List String) (knowledge : KnowledgeAt)
      (evaluatedAt : UtcInstant) (maximumCandidates maximumResults maximumOutputBytes : Nat)
  deriving DecidableEq

inductive FreshnessState where
  | fresh
  | stale (ageSeconds : Nat)
  | unknown
  deriving DecidableEq

inductive EffectiveSupport where
  | asRecorded (support : SupportKind)
  | recordedUnsupported
  | revoked (revision : CommitRevision)
  | noVisibleCitation
  deriving DecidableEq

structure CitationView where
  source : SourceVersionId
  locator : SourceLocator
  excerptDigest : Octets 32
  excerpt : Option String
  revokedRevision : Option CommitRevision
  freshness : FreshnessState
  deriving DecidableEq

structure ClaimView where
  id : RecordRef
  subject : String
  predicate : String
  value : String
  recordedSupport : SupportKind
  effectiveSupport : EffectiveSupport
  status : ClaimStatus
  recordedRevision : CommitRevision
  corrects : Option RecordRef
  citations : List CitationView
  deriving DecidableEq

structure SourceVersionView where
  id : SourceVersionId
  kind : SourceKind
  locatorText : String
  versionLabel : String
  retrievedAt : UtcInstant
  runIdentity : Octets 16
  routeLabel : String
  outcome : FetchOutcome
  licenseLabel : String
  redistributable : Bool
  freshnessPolicy : Freshness
  mediaType : Option String
  retainedBytes : Option Nat
  contentDigest : Option (Octets 32)
  recordedRevision : CommitRevision
  supersededRevision : Option CommitRevision
  revokedRevision : Option CommitRevision
  freshness : FreshnessState
  deriving DecidableEq

structure ResearchReadResults (α : Type) where
  knowledgeRevision : CommitRevision
  items : List α := []
  visitedCandidates : Nat := 0
  truncated : Bool := false
  deriving DecidableEq

inductive ResearchReadOutput where
  | claim (view : ClaimView)
  | sourceVersion (view : SourceVersionView)
  | sourceVersions (results : ResearchReadResults SourceVersionView)
  | edges (results : ResearchReadResults EdgeInput)
  | search (results : ResearchReadResults ClaimView)
  deriving DecidableEq

inductive ResearchReadError where
  | staleView
  | staleGeneration
  | rebuilding
  | historyUnavailable
  | notFound
  | resourceLimit
  | unsupportedQuery
  deriving DecidableEq, Repr

def readRequirements : ResearchReadRequest → List AuthorizationRequirement
  | .getClaim _ claim _ _ _ => [⟨.readRecord, .record claim⟩]
  | .sourceVersions _ source _ _ _ => [⟨.readRecord, .record source⟩, ⟨.readHistory, .record source⟩]
  | .sourceVersion _ id _ => [⟨.readRecord, .record id.source⟩]
  | .edgesFrom _ fromRecord _ _ _ _ => [⟨.readRecord, .record fromRecord⟩, ⟨.expandGraph, .record fromRecord⟩]
  | .search scope _ _ _ _ _ _ _ => [⟨.search, .namespace scope⟩]

/-! ### Pieces of a read -/

def checkCount (requested maximum : Nat) : Except ResearchReadError Unit :=
  require (requested ≠ 0 ∧ requested ≤ maximum) .resourceLimit

def checkOutput (requested : Nat) : Except ResearchReadError Unit :=
  checkCount requested researchProfile.maximumQueryOutputBytes

def freshnessAt (policy : Freshness) (retrievedAt evaluatedAt : UtcInstant) : FreshnessState :=
  if before evaluatedAt retrievedAt then .unknown
  else match policy with
    | .pinned => .fresh
    | .maxAge seconds =>
      let age := (evaluatedAt.seconds - retrievedAt.seconds).natAbs
      if age > seconds then .stale age else .fresh

/-- A revocation counts for every later read, historical ones too. -/
def sourceView (id : SourceVersionId) (entry : ResearchSourceEntry) (revision : CommitRevision) (evaluatedAt : UtcInstant) :
    SourceVersionView where
  id := id
  kind := entry.input.kind
  locatorText := entry.input.locatorText
  versionLabel := entry.input.versionLabel
  retrievedAt := entry.input.retrievedAt
  runIdentity := entry.input.runIdentity
  routeLabel := entry.input.routeLabel
  outcome := entry.input.outcome
  licenseLabel := entry.input.licenseLabel
  redistributable := entry.input.redistributable
  freshnessPolicy := entry.input.freshness
  mediaType := entry.input.content.map (·.mediaType)
  retainedBytes := entry.input.content.map (·.blob.byteLen)
  contentDigest := entry.input.content.map (·.blob.contentDigest)
  recordedRevision := entry.recordedRevision
  supersededRevision := entry.supersededRevision.filter fun superseded => superseded.value ≤ revision.value
  revokedRevision := entry.revokedRevision
  freshness := freshnessAt entry.input.freshness entry.input.retrievedAt evaluatedAt

def ClaimStatus.revision? : ClaimStatus → Option CommitRevision
  | .active => none
  | .superseded revision => some revision
  | .retracted revision => some revision
  | .expired revision => some revision

def statusAt (entry : ResearchClaimEntry) (revision : CommitRevision) : ClaimStatus :=
  match entry.status.revision? with
  | some ended => if ended.value ≤ revision.value then entry.status else .active
  | none => .active

def claimViewBytes (view : ClaimView) : Nat :=
  Utf8.len view.subject + Utf8.len view.predicate + Utf8.len view.value +
  (view.citations.map fun citation => 64 + (citation.excerpt.map Utf8.len).getD 0).sum + 128

def latestRevocation (citations : List CitationView) : Option CommitRevision := do
  let revocations ← citations.mapM CitationView.revokedRevision
  revocations.foldl (fun latest revision => if latest.any (revision.value < ·.value) then latest else some revision) none

def effectiveSupport (support : SupportKind) (citations : List CitationView) : EffectiveSupport :=
  if support = .unsupported then .recordedUnsupported
  else if citations = [] then .noVisibleCitation
  else match latestRevocation citations with
    | some latest => .revoked latest
    | none => .asRecorded support

def searchText (view : ClaimView) : String :=
  Utf8.toAsciiLowercase (view.citations.foldl
    (fun text citation => match citation.excerpt with
      | some excerpt => text ++ " " ++ excerpt
      | none => text)
    (view.subject ++ " " ++ view.predicate ++ " " ++ view.value))

def collectVersion (maximumResults : Nat) (results : ResearchReadResults SourceVersionView) (view : SourceVersionView) :
    Except ResearchReadError (Bool × ResearchReadResults SourceVersionView) :=
  let results := { results with visitedCandidates := results.visitedCandidates + 1 }
  if results.items.length = maximumResults then pure (false, { results with truncated := true })
  else pure (true, { results with items := results.items ++ [view] })

def collectEdge (maximumCandidates maximumResults : Nat) (results : ResearchReadResults EdgeInput) (edge : EdgeInput) :
    Except ResearchReadError (Bool × ResearchReadResults EdgeInput) :=
  if results.visitedCandidates = maximumCandidates then pure (false, { results with truncated := true })
  else
    let results := { results with visitedCandidates := results.visitedCandidates + 1 }
    if results.items.length = maximumResults then pure (false, { results with truncated := true })
    else pure (true, { results with items := results.items ++ [edge] })

structure SearchProgress where
  results : ResearchReadResults ClaimView
  output : Nat := 0

def collectClaim (terms : List String) (maximumCandidates maximumResults maximumOutputBytes : Nat) (progress : SearchProgress)
    (view : ClaimView) : Except ResearchReadError (Bool × SearchProgress) :=
  let results := progress.results
  if results.visitedCandidates = maximumCandidates then
    pure (false, { progress with results := { results with truncated := true } })
  else
    let results := { results with visitedCandidates := results.visitedCandidates + 1 }
    if terms.all fun term => Utf8.contains (searchText view) term then
      if results.items.length = maximumResults ∨ progress.output + claimViewBytes view > maximumOutputBytes then
        pure (false, { progress with results := { results with truncated := true } })
      else pure (true, ⟨{ results with items := results.items ++ [view] }, progress.output + claimViewBytes view⟩)
    else pure (true, { progress with results := results })

namespace ResearchState

variable (s : ResearchState)

def requireCurrent (runtime generation : Nat) : Except ResearchReadError Unit := do
  require (runtime = (s.currentRevision.map (·.value)).getD 0) .staleView
  require (s.generation = some generation) .staleGeneration

/-- `runtime` is the shared counter of the latest published revision, as the reading thread finds it. -/
def ensureQueryable (runtime generation : Nat) : Except ResearchReadError Unit := do
  s.requireCurrent runtime generation
  require (s.ready = true) .rebuilding

def resolve (knowledge : KnowledgeAt) : Except ResearchReadError CommitRevision := do
  let current ← orError .historyUnavailable s.currentRevision
  let revision := match knowledge with
    | .current => current
    | .revision revision => revision
  require (revision.value ≤ current.value ∧ ∃ start ∈ s.retainedFrom, start.value ≤ revision.value) .historyUnavailable
  pure revision

def visibleClaim (id : RecordRef) (revision : CommitRevision) (authorize : Authorize) : Option ResearchClaimEntry := do
  let entry ← s.claims[id]?
  guard (entry.recordedRevision.value ≤ revision.value ∧ authorize.mayRead id = true)
  pure entry

def citationView (evaluatedAt : UtcInstant) (authorize : Authorize) (citation : CitationInput) : Option CitationView := do
  guard (authorize.mayRead citation.source.source = true)
  let source ← s.sources[citation.source]?
  pure {
    source := citation.source
    locator := citation.locator
    excerptDigest := citation.excerptDigest
    excerpt := if source.revokedRevision.isSome then none else citation.excerpt
    revokedRevision := source.revokedRevision
    freshness := freshnessAt source.input.freshness source.input.retrievedAt evaluatedAt }

def claimView (entry : ResearchClaimEntry) (revision : CommitRevision) (evaluatedAt : UtcInstant) (authorize : Authorize) :
    ClaimView :=
  let citations := entry.input.citations.filterMap (s.citationView evaluatedAt authorize)
  { id := entry.input.id
    subject := entry.input.subject
    predicate := entry.input.predicate
    value := entry.input.value
    recordedSupport := entry.input.support
    effectiveSupport := effectiveSupport entry.input.support citations
    status := statusAt entry revision
    recordedRevision := entry.recordedRevision
    corrects := entry.input.corrects
    citations := citations }

def getClaim (claim : RecordRef) (knowledge : KnowledgeAt) (evaluatedAt : UtcInstant) (maximumOutputBytes : Nat)
    (authorize : Authorize) : Except ResearchReadError ClaimView := do
  checkOutput maximumOutputBytes
  let revision ← s.resolve knowledge
  let entry ← orError .notFound (s.visibleClaim claim revision authorize)
  let view := s.claimView entry revision evaluatedAt authorize
  require (claimViewBytes view ≤ maximumOutputBytes) .resourceLimit
  pure view

def sourceVersions (source : RecordRef) (knowledge : KnowledgeAt) (evaluatedAt : UtcInstant) (maximumResults : Nat) :
    Except ResearchReadError (ResearchReadResults SourceVersionView) := do
  checkCount maximumResults researchProfile.maximumQueryResults
  let revision ← s.resolve knowledge
  let results ← loop (fun results (version : SourceVersionId × ResearchSourceEntry) =>
    if version.2.recordedRevision.value > revision.value then .ok (false, results)
    else collectVersion maximumResults results (sourceView version.1 version.2 revision evaluatedAt))
    (s.versionsOf source) { knowledgeRevision := revision }
  require (results.items ≠ []) .notFound
  pure results

def sourceVersion (runtime generation : Nat) (id : SourceVersionId) (evaluatedAt : UtcInstant) :
    Except ResearchReadError SourceVersionView := do
  s.requireCurrent runtime generation
  let revision ← orError .notFound s.currentRevision
  let entry ← orError .notFound s.sources[id]?
  pure (sourceView id entry revision evaluatedAt)

def visibleEdge (fromRecord : RecordRef) (kind : Option EdgeKind) (revision : CommitRevision) (authorize : Authorize)
    (entry : ResearchEdgeEntry) : Option EdgeInput :=
  if entry.input.fromRecord = fromRecord ∧ entry.recordedRevision.value ≤ revision.value ∧
      (∀ wanted ∈ kind, wanted = entry.input.kind) ∧ authorize.mayRead entry.input.id = true ∧
      authorize.mayRead entry.input.toRecord = true ∧ authorize.mayRead entry.input.assertedBy = true then some entry.input
  else none

def visitEdges (fromRecord : RecordRef) (kind : Option EdgeKind) (revision : CommitRevision) (authorize : Authorize)
    (maximumCandidates maximumResults : Nat) : Except ResearchReadError (ResearchReadResults EdgeInput) :=
  loop (fun results (entry : RecordRef × ResearchEdgeEntry) =>
    match visibleEdge fromRecord kind revision authorize entry.2 with
    | none => .ok (true, results)
    | some edge => collectEdge maximumCandidates maximumResults results edge)
    s.edges.toList { knowledgeRevision := revision }

def edgesFrom (fromRecord : RecordRef) (kind : Option EdgeKind) (knowledge : KnowledgeAt) (maximumCandidates maximumResults : Nat)
    (authorize : Authorize) : Except ResearchReadError (ResearchReadResults EdgeInput) := do
  checkCount maximumCandidates researchProfile.maximumQueryCandidates
  checkCount maximumResults researchProfile.maximumQueryResults
  let revision ← s.resolve knowledge
  s.visitEdges fromRecord kind revision authorize maximumCandidates maximumResults

def searchedClaim (revision : CommitRevision) (evaluatedAt : UtcInstant) (authorize : Authorize) (entry : ResearchClaimEntry) :
    Option ClaimView :=
  if entry.recordedRevision.value ≤ revision.value ∧ statusAt entry revision = .active ∧
      authorize.mayRead entry.input.id = true then some (s.claimView entry revision evaluatedAt authorize)
  else none

def visitClaims (terms : List String) (revision : CommitRevision) (evaluatedAt : UtcInstant) (authorize : Authorize)
    (maximumCandidates maximumResults maximumOutputBytes : Nat) : Except ResearchReadError SearchProgress :=
  loop (fun progress (entry : RecordRef × ResearchClaimEntry) =>
    match s.searchedClaim revision evaluatedAt authorize entry.2 with
    | none => .ok (true, progress)
    | some view => collectClaim terms maximumCandidates maximumResults maximumOutputBytes progress view)
    s.claims.toList { results := { knowledgeRevision := revision } }

def search (terms : List String) (knowledge : KnowledgeAt) (evaluatedAt : UtcInstant)
    (maximumCandidates maximumResults maximumOutputBytes : Nat) (authorize : Authorize) :
    Except ResearchReadError (ResearchReadResults ClaimView) := do
  require (terms ≠ [] ∧ terms.length ≤ maximumResearchQueryTerms) .unsupportedQuery
  require (∀ term ∈ terms, term ≠ "" ∧ Utf8.len term ≤ maximumResearchQueryTermBytes) .unsupportedQuery
  checkCount maximumCandidates researchProfile.maximumQueryCandidates
  checkCount maximumResults researchProfile.maximumQueryResults
  checkOutput maximumOutputBytes
  let revision ← s.resolve knowledge
  let terms := terms.map Utf8.toAsciiLowercase
  let progress ← s.visitClaims terms revision evaluatedAt authorize maximumCandidates maximumResults maximumOutputBytes
  pure progress.results

def readAuthorized (runtime : Nat) (request : ResearchReadRequest) (authorize : Authorize) :
    Except ResearchReadError ResearchReadOutput :=
  match request with
  | .getClaim generation claim knowledge evaluatedAt maximumOutputBytes => do
    s.ensureQueryable runtime generation
    .claim <$> s.getClaim claim knowledge evaluatedAt maximumOutputBytes authorize
  | .sourceVersions generation source knowledge evaluatedAt maximumResults => do
    s.ensureQueryable runtime generation
    .sourceVersions <$> s.sourceVersions source knowledge evaluatedAt maximumResults
  | .sourceVersion generation id evaluatedAt => .sourceVersion <$> s.sourceVersion runtime generation id evaluatedAt
  | .edgesFrom generation fromRecord kind knowledge maximumCandidates maximumResults => do
    s.ensureQueryable runtime generation
    .edges <$> s.edgesFrom fromRecord kind knowledge maximumCandidates maximumResults authorize
  | .search scope generation terms knowledge evaluatedAt maximumCandidates maximumResults maximumOutputBytes => do
    require (scope = s.scope) .notFound
    s.ensureQueryable runtime generation
    .search <$> s.search terms knowledge evaluatedAt maximumCandidates maximumResults maximumOutputBytes authorize

end ResearchState

end Uste.Memory.Research
