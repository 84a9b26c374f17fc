import Uste.Foundation.Loop
import Uste.Memory.PilotCodec

/-! Reads of the memory pilot, in which every candidate is asked for before it counts. -/

namespace Uste.Memory

open Types Crypto Policy Storage Txn Std
open Time (UtcInstant)

abbrev Authorize := Action → Target → Bool

abbrev Authorize.mayRead (authorize : Authorize) (record : RecordRef) : Bool := authorize .readRecord (.record record)

inductive KnowledgeAt where
  | current
  | revision (revision : CommitRevision)
  deriving DecidableEq

inductive EventTimeFilter where
  | any
  | exact (instant : UtcInstant)
  | missing
  deriving DecidableEq

inductive MemoryReadRequest where
  | getFact (authorityGeneration : Nat) (fact : RecordRef) (knowledge : KnowledgeAt) (maximumOutputBytes : Nat)
  | search (scope : NamespaceRef) (authorityGeneration : Nat) (terms : List String) (knowledge : KnowledgeAt)
      (eventTime : EventTimeFilter) (maximumCandidates maximumResults maximumOutputBytes : Nat)
  | oneHop (authorityGeneration : Nat) (origin : RecordRef) (knowledge : KnowledgeAt)
      (maximumCandidates maximumResults maximumOutputBytes : Nat)
  | resolveCitation (authorityGeneration : Nat) (fact : RecordRef) (knowledge : KnowledgeAt) (maximumOutputBytes : Nat)
  | unsupported (authorityGeneration : Nat)
  deriving DecidableEq

structure FactView where
  id : RecordRef
  subject : String
  predicate : String
  value : String
  links : List RecordRef
  source : SourceVersionId
  locator : SourceLocator
  sourceEventTime : Option UtcInstant
  recordedRevision : CommitRevision
  corrects : Option RecordRef
  deriving DecidableEq

structure Citation where
  fact : RecordRef
  source : SourceVersionId
  blob : BlobReference
  contentDigest : Octets 32
  locator : SourceLocator
  exactUtf8Excerpt : Option String
  sourceRecordedRevision : CommitRevision
  factRecordedRevision : CommitRevision
  deriving DecidableEq

structure SearchResults where
  knowledgeRevision : CommitRevision
  facts : List FactView := []
  visitedCandidates : Nat := 0
  outputBytes : Nat := 0
  truncated : Bool := false
  deriving DecidableEq

inductive MemoryReadOutput where
  | fact (view : FactView)
  | search (results : SearchResults)
  | citation (citation : Citation)
  deriving DecidableEq

inductive MemoryReadError where
  | staleGeneration
  | staleView
  | rebuilding
  | historyUnavailable
  | notFound
  | resourceLimit
  | unsupportedQuery
  | integrityFailure
  deriving DecidableEq, Repr

def MemoryReadRequest.authorityGeneration : MemoryReadRequest → Nat
  | .getFact generation _ _ _ => generation
  | .search _ generation _ _ _ _ _ _ => generation
  | .oneHop generation _ _ _ _ _ => generation
  | .resolveCitation generation _ _ _ => generation
  | .unsupported generation => generation

def readRequirements : MemoryReadRequest → Except ApplyError (List AuthorizationRequirement)
  | .getFact _ fact _ _ => .ok [⟨.readRecord, .record fact⟩]
  | .search scope _ _ _ _ _ _ _ => .ok [⟨.search, .namespace scope⟩]
  | .oneHop _ origin _ _ _ _ => .ok [⟨.expandGraph, .record origin⟩, ⟨.readRecord, .record origin⟩]
  | .resolveCitation _ fact _ _ => .ok [⟨.readRecord, .record fact⟩]
  | .unsupported _ => .error .unsupportedPredicate

/-! ### Pieces of a read -/

def FactTerminal.revision : FactTerminal → CommitRevision
  | .superseded revision => revision
  | .retracted revision => revision

def eventMatches (value : Option UtcInstant) : EventTimeFilter → Bool
  | .any => true
  | .exact expected => value = some expected
  | .missing => value = none

def factView (fact : FactRecord) : FactView where
  id := fact.input.id
  subject := fact.input.subject
  predicate := fact.input.predicate
  value := fact.input.value
  links := fact.input.links
  source := fact.input.source
  locator := fact.input.locator
  sourceEventTime := fact.input.sourceEventTime
  recordedRevision := fact.recordedRevision
  corrects := fact.corrects

def factViewBytes (fact : FactView) : Except MemoryReadError Nat :=
  orError .resourceLimit (do
    let size ← checkedAdd wordLimit 192 (Utf8.len fact.subject)
    let size ← checkedAdd wordLimit size (Utf8.len fact.predicate)
    let size ← checkedAdd wordLimit size (Utf8.len fact.value)
    checkedAdd wordLimit size (fact.links.length * 16))

def checkQueryLimits (terms : List String) (maximumCandidates maximumResults maximumOutputBytes : Nat) :
    Except MemoryReadError Unit :=
  require (terms.length ≤ pilotProfile.maximumQueryTerms ∧ (∀ term ∈ terms, term ≠ "" ∧ Utf8.len term ≤ 256) ∧
    maximumCandidates ≠ 0 ∧ maximumCandidates ≤ pilotProfile.maximumQueryCandidates ∧
    maximumResults ≠ 0 ∧ maximumResults ≤ pilotProfile.maximumQueryResults ∧
    maximumOutputBytes ≠ 0 ∧ maximumOutputBytes ≤ pilotProfile.maximumQueryOutputBytes) .resourceLimit

def checkOutputLimit (maximum : Nat) : Except MemoryReadError Unit :=
  require (maximum ≠ 0 ∧ maximum ≤ pilotProfile.maximumQueryOutputBytes) .resourceLimit

/-- One visible candidate is counted and, where it `hits`, added while there is room. -/
def collectFact (maximumCandidates maximumResults maximumOutputBytes : Nat) (hits : FactRecord → Bool)
    (results : SearchResults) (fact : FactRecord) : Except MemoryReadError (Bool × SearchResults) := do
  require (results.visitedCandidates + 1 < wordLimit) .resourceLimit
  let results := { results with visitedCandidates := results.visitedCandidates + 1 }
  require (results.visitedCandidates ≤ maximumCandidates) .resourceLimit
  if hits fact then do
    let view := factView fact
    let bytes ← factViewBytes view
    if results.facts.length = maximumResults ∨ (checkedAdd wordLimit results.outputBytes bytes).all (maximumOutputBytes < ·) then
      pure (false, { results with truncated := true })
    else pure (true, { results with
      outputBytes := results.outputBytes + bytes
      facts := results.facts ++ [view] })
  else pure (true, results)

namespace MemoryState

variable (s : MemoryState)

/-- `runtime` is the shared counter of the latest published revision, as the reading thread finds it. -/
def ensureQueryable (runtime : Nat) (generation : Nat) : Except MemoryReadError Unit := do
  require (runtime = (s.currentRevision.map (·.value)).getD 0) .staleView
  require (s.generation = some generation) .staleGeneration
  require (s.ready = true) .rebuilding

def resolveRevision (knowledge : KnowledgeAt) : Except MemoryReadError CommitRevision := do
  let current ← orError .historyUnavailable s.currentRevision
  let revision := match knowledge with
    | .current => current
    | .revision revision => revision
  require (revision.value ≤ current.value ∧ ∃ start ∈ s.retainedFrom, start.value ≤ revision.value) .historyUnavailable
  pure revision

def eligibleFact (id : RecordRef) (revision : CommitRevision) (authorize : Authorize) : Option FactRecord := do
  let fact ← s.facts[id]?
  guard (fact.recordedRevision.value ≤ revision.value ∧
    (∀ terminal ∈ fact.terminal, revision.value < terminal.revision.value) ∧
    authorize.mayRead id = true ∧ authorize.mayRead fact.input.source.source = true ∧
    ∀ link ∈ fact.input.links, authorize.mayRead link = true)
  let source ← s.sources[fact.input.source]?
  guard (source.recordedRevision.value ≤ revision.value ∧ source.revokedRevision = none ∧
    ∀ superseded ∈ source.supersededRevision, revision.value < superseded.value)
  pure fact

def lexicalMatch (fact : FactRecord) (terms : List String) : Bool :=
  let text := (s.sources[fact.input.source]?.bind (·.input.exactUtf8)).getD ""
  let haystack := Utf8.toAsciiLowercase
    (fact.input.subject ++ "\n" ++ fact.input.predicate ++ "\n" ++ fact.input.value ++ "\n" ++ text)
  terms.all fun term => Utf8.contains haystack term

def visitFacts (revision : CommitRevision) (authorize : Authorize) (maximumCandidates maximumResults maximumOutputBytes : Nat)
    (hits : FactRecord → Bool) (candidates : List RecordRef) : Except MemoryReadError SearchResults :=
  loop (fun results id =>
    match s.eligibleFact id revision authorize with
    | none => .ok (true, results)
    | some fact => collectFact maximumCandidates maximumResults maximumOutputBytes hits results fact)
    candidates { knowledgeRevision := revision }

def search (terms : List String) (knowledge : KnowledgeAt) (eventTime : EventTimeFilter)
    (maximumCandidates maximumResults maximumOutputBytes : Nat) (authorize : Authorize) :
    Except MemoryReadError SearchResults := do
  require (terms ≠ []) .unsupportedQuery
  checkQueryLimits terms maximumCandidates maximumResults maximumOutputBytes
  let revision ← s.resolveRevision knowledge
  let normalized := terms.map Utf8.toAsciiLowercase
  s.visitFacts revision authorize maximumCandidates maximumResults maximumOutputBytes
    (fun fact => eventMatches fact.input.sourceEventTime eventTime && s.lexicalMatch fact normalized) s.facts.keys

def oneHop (origin : RecordRef) (knowledge : KnowledgeAt) (maximumCandidates maximumResults maximumOutputBytes : Nat)
    (authorize : Authorize) : Except MemoryReadError SearchResults := do
  checkQueryLimits [] maximumCandidates maximumResults maximumOutputBytes
  let revision ← s.resolveRevision knowledge
  let root ← orError .notFound (s.eligibleFact origin revision authorize)
  s.visitFacts revision authorize maximumCandidates maximumResults maximumOutputBytes (fun _ => true) root.input.links

def excerpt (source : SourceVersionRecord) (locator : SourceLocator) : Except MemoryReadError (Option String) :=
  match source.input.exactUtf8 with
  | none => pure none
  | some text => do
    require (locator.range.1 < wordLimit ∧ locator.range.2 < wordLimit) .resourceLimit
    some <$> orError .integrityFailure (Utf8.getRange text locator.range.1 locator.range.2)

def resolveCitation (id : RecordRef) (knowledge : KnowledgeAt) (maximumOutputBytes : Nat) (authorize : Authorize) :
    Except MemoryReadError Citation := do
  checkOutputLimit maximumOutputBytes
  let revision ← s.resolveRevision knowledge
  let fact ← orError .notFound (s.eligibleFact id revision authorize)
  require (authorize .readBlob (.record fact.input.source.source) = true) .notFound
  let source ← orError .integrityFailure s.sources[fact.input.source]?
  let excerpt ← excerpt source fact.input.locator
  require ((excerpt.map Utf8.len).getD 0 + 160 ≤ maximumOutputBytes) .resourceLimit
  pure {
    fact := id
    source := fact.input.source
    blob := source.input.blob
    contentDigest := source.input.blob.contentDigest
    locator := fact.input.locator
    exactUtf8Excerpt := excerpt
    sourceRecordedRevision := source.recordedRevision
    factRecordedRevision := fact.recordedRevision }

def getFact (id : RecordRef) (knowledge : KnowledgeAt) (maximumOutputBytes : Nat) (authorize : Authorize) :
    Except MemoryReadError FactView := do
  checkOutputLimit maximumOutputBytes
  let revision ← s.resolveRevision knowledge
  let fact ← orError .notFound (s.eligibleFact id revision authorize)
  let bytes ← factViewBytes (factView fact)
  require (bytes ≤ maximumOutputBytes) .resourceLimit
  pure (factView fact)

def readAuthorized (runtime : Nat) (request : MemoryReadRequest) (authorize : Authorize) :
    Except MemoryReadError MemoryReadOutput := do
  s.ensureQueryable runtime request.authorityGeneration
  match request with
  | .getFact _ fact knowledge maximumOutputBytes => .fact <$> s.getFact fact knowledge maximumOutputBytes authorize
  | .search _ _ terms knowledge eventTime maximumCandidates maximumResults maximumOutputBytes =>
    .search <$> s.search terms knowledge eventTime maximumCandidates maximumResults maximumOutputBytes authorize
  | .oneHop _ origin knowledge maximumCandidates maximumResults maximumOutputBytes =>
    .search <$> s.oneHop origin knowledge maximumCandidates maximumResults maximumOutputBytes authorize
  | .resolveCitation _ fact knowledge maximumOutputBytes =>
    .citation <$> s.resolveCitation fact knowledge maximumOutputBytes authorize
  | .unsupported _ => .error .unsupportedQuery

end MemoryState

end Uste.Memory
