import Uste.Foundation.Utf8
import Uste.Txn.Authorized

/-!
The reducer of the memory pilot: source versions with their exact text, facts that cite a span of
one, corrections, retractions and revocations, under one authority generation at a time.
-/

namespace Uste.Memory

open Types Crypto Policy Storage Txn Std
open Time (UtcInstant)

/-- Lengths and counts of the source are machine words. -/
def checkedAdd (limit a b : Nat) : Option Nat := if a + b < limit then some (a + b) else none

theorem checkedAdd_eq_some {limit a b sum : Nat} : checkedAdd limit a b = some sum ↔ a + b < limit ∧ a + b = sum := by
  unfold checkedAdd
  split <;> simp_all

/-! ### The profile -/

structure PilotProfile where
  maximumCommits : Nat
  maximumSourceVersions : Nat
  maximumFacts : Nat
  maximumSourceBytes : Nat
  maximumSourceBytesPerVersion : Nat
  maximumTextBytesPerVersion : Nat
  maximumFactFieldBytes : Nat
  maximumFactLinks : Nat
  maximumRequestBytes : Nat
  maximumLogicalStateBytes : Nat
  maximumQueryTerms : Nat
  maximumQueryCandidates : Nat
  maximumQueryResults : Nat
  maximumQueryOutputBytes : Nat

def pilotProfile : PilotProfile where
  maximumCommits := 4096
  maximumSourceVersions := 256
  maximumFacts := 2048
  maximumSourceBytes := 32 * 1024 * 1024
  maximumSourceBytesPerVersion := 1024 * 1024
  maximumTextBytesPerVersion := 64 * 1024
  maximumFactFieldBytes := 4 * 1024
  maximumFactLinks := 8
  maximumRequestBytes := 128 * 1024
  maximumLogicalStateBytes := 16 * 1024 * 1024
  maximumQueryTerms := 8
  maximumQueryCandidates := 2048
  maximumQueryResults := 32
  maximumQueryOutputBytes := 64 * 1024

/-! ### Records -/

structure SourceVersionId where
  source : RecordRef
  version : Nat
  deriving DecidableEq

namespace SourceVersionId

def order : SourceVersionId → SourceVersionId → Ordering := compareLex (compareOn source) (compareOn version)

instance : Ord SourceVersionId := ⟨order⟩

instance : TransOrd SourceVersionId := inferInstanceAs (TransCmp (compareLex (compareOn source) (compareOn version)))

theorem order_eq {a b : SourceVersionId} (h : order a b = .eq) : a = b := by
  obtain ⟨source, version⟩ := compareLex_eq_eq.mp h
  have source := LawfulEqOrd.eq_of_compare source
  have version := LawfulEqOrd.eq_of_compare version
  cases a
  cases b
  cases source
  cases version
  rfl

instance : LawfulEqOrd SourceVersionId := ⟨order_eq⟩

end SourceVersionId

inductive SourceLocator where
  | byteRange (first last : Nat)
  | utf8Lines (first last firstLine lastLine : Nat)
  deriving DecidableEq

def SourceLocator.range : SourceLocator → Nat × Nat
  | .byteRange first last => (first, last)
  | .utf8Lines first last _ _ => (first, last)

def textMediaType : String := "text/plain; charset=utf-8"

def opaqueMediaType : String := "application/octet-stream"

structure SourceVersionInput where
  id : SourceVersionId
  blob : BlobReference
  mediaType : String
  exactUtf8 : Option String
  sourceEventTime : Option UtcInstant
  deriving DecidableEq

structure FactInput where
  id : RecordRef
  subject : String
  predicate : String
  value : String
  links : List RecordRef
  source : SourceVersionId
  locator : SourceLocator
  sourceEventTime : Option UtcInstant
  deriving DecidableEq

inductive MemoryMutation where
  | beginRebuild (nextGeneration : Nat)
  | putSource (source : SourceVersionInput)
  | putFact (fact : FactInput)
  | correctFact (target : RecordRef) (replacement : FactInput)
  | retractFact (target : RecordRef)
  | revokeSource (source : SourceVersionId)
  | completeRebuild
  deriving DecidableEq

structure MemoryTransaction where
  scope : NamespaceRef
  generation : Nat
  mutation : MemoryMutation
  deriving DecidableEq

structure SourceVersionRecord where
  input : SourceVersionInput
  recordedRevision : CommitRevision
  supersededRevision : Option CommitRevision
  revokedRevision : Option CommitRevision
  deriving DecidableEq

inductive FactTerminal where
  | superseded (revision : CommitRevision)
  | retracted (revision : CommitRevision)
  deriving DecidableEq

structure FactRecord where
  input : FactInput
  recordedRevision : CommitRevision
  corrects : Option RecordRef
  terminal : Option FactTerminal
  deriving DecidableEq

/-- The counter that snapshots share with the live state is kept outside, see `ensureQueryable`. -/
structure MemoryState where
  scope : NamespaceRef
  generation : Option Nat := none
  ready : Bool := false
  retainedFrom : Option CommitRevision := none
  currentRevision : Option CommitRevision := none
  sources : ExtTreeMap SourceVersionId SourceVersionRecord := ∅
  facts : ExtTreeMap RecordRef FactRecord := ∅
  sourceBytes : Nat := 0
  logicalBytes : Nat := 0

/-! ### Checks on a request -/

def requireScope (record : RecordRef) (scope : NamespaceRef) : Except ApplyError Unit :=
  require (record.scope = scope) .invalidRequest

def requireNoInventory (inventory : Option BlobInventory) : Except ApplyError Unit :=
  require (inventory = none) .invalidRequest

def sourceLogicalBytes (source : SourceVersionInput) : Except ApplyError Nat :=
  orError .resourceLimit (do
    let size ← checkedAdd wordLimit 160 (Utf8.len source.mediaType)
    checkedAdd wordLimit size ((source.exactUtf8.map Utf8.len).getD 0))

def factLogicalBytes (fact : FactInput) : Except ApplyError Nat :=
  orError .resourceLimit (do
    let size ← checkedAdd wordLimit 192 (Utf8.len fact.subject)
    let size ← checkedAdd wordLimit size (Utf8.len fact.predicate)
    let size ← checkedAdd wordLimit size (Utf8.len fact.value)
    checkedAdd wordLimit size (fact.links.length * 16))

def validateSource [Primitives] (source : SourceVersionInput) (scope : NamespaceRef) (inventory : Option BlobInventory) :
    Except ApplyError Unit := do
  requireScope source.id.source scope
  require (source.id.version ≠ 0 ∧ source.blob.scope = scope ∧
    source.blob.byteLen ≤ pilotProfile.maximumSourceBytesPerVersion ∧
    (source.mediaType = match source.exactUtf8 with | some _ => textMediaType | none => opaqueMediaType)) .invalidRequest
  let inventory ← orError .invalidRequest inventory
  require (inventory.scope = scope ∧ inventory.references = [source.blob]) .invalidRequest
  match source.exactUtf8 with
  | some text => require (Utf8.len text ≤ pilotProfile.maximumTextBytesPerVersion ∧ Utf8.len text = source.blob.byteLen ∧
      sha256 (Utf8.bytes text) = source.blob.contentDigest) .sourceChanged
  | none => pure ()

def lineAt (bytes : List UInt8) (offset : Nat) : Except ApplyError Nat := do
  require (offset ≤ bytes.length) .invalidRequest
  orError .resourceLimit (checkedAdd (2 ^ 32) ((bytes.take offset).count 10) 1)

def validateLocator (locator : SourceLocator) (source : SourceVersionInput) : Except ApplyError Unit := do
  require (locator.range.1 ≤ locator.range.2 ∧ locator.range.2 ≤ source.blob.byteLen) .invalidRequest
  match locator with
  | .byteRange _ _ => pure ()
  | .utf8Lines first last firstLine lastLine => do
    let text ← orError .invalidRequest source.exactUtf8
    require (firstLine ≠ 0 ∧ firstLine ≤ lastLine ∧ Utf8.isCharBoundary text first = true ∧
      Utf8.isCharBoundary text last = true) .invalidRequest
    let actualFirst ← lineAt (Utf8.bytes text) first
    let actualLast ← if first = last then pure actualFirst else lineAt (Utf8.bytes text) (last - 1)
    require (actualFirst = firstLine ∧ actualLast = lastLine) .invalidRequest

/-! ### The reducer -/

namespace MemoryState

def requireGeneration (s : MemoryState) (generation : Nat) : Except ApplyError Unit :=
  require (s.generation = some generation) .sourceChanged

def checkLinks (s : MemoryState) : Option RecordRef → List RecordRef → Except ApplyError Unit
  | _, [] => pure ()
  | previous, link :: rest => do
    requireScope link s.scope
    require ((∀ before ∈ previous, compare before link = .lt) ∧ link ∈ s.facts) .conflict
    s.checkLinks (some link) rest

def validateFact (s : MemoryState) (fact : FactInput) : Except ApplyError Unit := do
  requireScope fact.id s.scope
  requireScope fact.source.source s.scope
  [fact.subject, fact.predicate, fact.value].forM fun field =>
    require (field ≠ "" ∧ Utf8.len field ≤ pilotProfile.maximumFactFieldBytes) .resourceLimit
  require (fact.links.length ≤ pilotProfile.maximumFactLinks) .resourceLimit
  s.checkLinks none fact.links
  let source ← orError .conflict s.sources[fact.source]?
  require (source.revokedRevision = none) .conflict
  validateLocator fact.locator source.input

def chargeLogical (s : MemoryState) (added : Nat) : Except ApplyError MemoryState := do
  let projected ← orError .resourceLimit (checkedAdd wordLimit s.logicalBytes added)
  require (projected ≤ pilotProfile.maximumLogicalStateBytes) .resourceLimit
  pure { s with logicalBytes := projected }

def expectedVersion (s : MemoryState) (source : RecordRef) : Except ApplyError Nat :=
  orError .resourceLimit (checkedAdd (2 ^ 32)
    (((s.sources.keys.filter (·.source = source)).map (·.version)).max?.getD 0) 1)

def supersede (s : MemoryState) (id : SourceVersionId) (revision : CommitRevision) : Except ApplyError MemoryState :=
  if id.version > 1 then do
    let previous : SourceVersionId := ⟨id.source, id.version - 1⟩
    let record ← orError .conflict s.sources[previous]?
    pure { s with sources := s.sources.insert previous { record with supersededRevision := some revision } }
  else pure s

def putSource [Primitives] (s : MemoryState) (source : SourceVersionInput) (inventory : Option BlobInventory)
    (revision : CommitRevision) : Except ApplyError MemoryState := do
  validateSource source s.scope inventory
  require (source.id ∉ s.sources) .conflict
  require (s.sources.size < pilotProfile.maximumSourceVersions) .resourceLimit
  let expected ← s.expectedVersion source.id.source
  require (source.id.version = expected) .conflict
  let bytes ← orError .resourceLimit (checkedAdd wordLimit s.sourceBytes source.blob.byteLen)
  require (bytes ≤ pilotProfile.maximumSourceBytes) .resourceLimit
  let s ← s.chargeLogical (← sourceLogicalBytes source)
  let s ← { s with sourceBytes := bytes }.supersede source.id revision
  pure { s with sources := s.sources.insert source.id ⟨source, revision, none, none⟩ }

def insertFact (s : MemoryState) (fact : FactInput) (corrects : Option RecordRef) (revision : CommitRevision) :
    Except ApplyError MemoryState := do
  s.validateFact fact
  require (fact.id ∉ s.facts) .conflict
  require (s.facts.size < pilotProfile.maximumFacts) .resourceLimit
  let s ← s.chargeLogical (← factLogicalBytes fact)
  pure { s with facts := s.facts.insert fact.id ⟨fact, revision, corrects, none⟩ }

def correctFact (s : MemoryState) (target : RecordRef) (replacement : FactInput) (revision : CommitRevision) :
    Except ApplyError MemoryState := do
  requireScope target s.scope
  let prior ← orError .conflict s.facts[target]?
  require (prior.terminal = none) .conflict
  s.validateFact replacement
  require (replacement.id ≠ target ∧ replacement.id ∉ s.facts) .conflict
  require (s.facts.size < pilotProfile.maximumFacts) .resourceLimit
  let s ← s.chargeLogical (← factLogicalBytes replacement)
  let facts := s.facts.insert target { prior with terminal := some (.superseded revision) }
  pure { s with facts := facts.insert replacement.id ⟨replacement, revision, some target, none⟩ }

def retractFact (s : MemoryState) (target : RecordRef) (revision : CommitRevision) : Except ApplyError MemoryState := do
  requireScope target s.scope
  let fact ← orError .conflict s.facts[target]?
  require (fact.terminal = none) .conflict
  pure { s with facts := s.facts.insert target { fact with terminal := some (.retracted revision) } }

def revokeSource (s : MemoryState) (id : SourceVersionId) (revision : CommitRevision) : Except ApplyError MemoryState := do
  requireScope id.source s.scope
  let source ← orError .conflict s.sources[id]?
  require (source.revokedRevision = none) .conflict
  pure { s with sources := s.sources.insert id { source with revokedRevision := some revision } }

def beginRebuild (s : MemoryState) (generation nextGeneration : Nat) (inventory : Option BlobInventory)
    (revision : CommitRevision) : Except ApplyError MemoryState := do
  require (inventory = none ∧ generation = nextGeneration ∧ nextGeneration ≠ 0 ∧
    ∀ current ∈ s.generation, checkedAdd wordLimit current 1 = some nextGeneration) .conflict
  pure { s with
    generation := some nextGeneration
    ready := false
    retainedFrom := some revision
    sources := ∅
    facts := ∅
    sourceBytes := 0
    logicalBytes := 0 }

def apply [Primitives] (s : MemoryState) (transaction : MemoryTransaction) (inventory : Option BlobInventory)
    (revision : CommitRevision) : Except ApplyError MemoryState := do
  require (transaction.scope = s.scope ∧ revision.value ≤ pilotProfile.maximumCommits ∧ transaction.generation ≠ 0)
    .invalidRequest
  let s ← match transaction.mutation with
    | .beginRebuild nextGeneration => s.beginRebuild transaction.generation nextGeneration inventory revision
    | .putSource source => do
      s.requireGeneration transaction.generation
      s.putSource source inventory revision
    | .putFact fact => do
      s.requireGeneration transaction.generation
      requireNoInventory inventory
      s.insertFact fact none revision
    | .correctFact target replacement => do
      s.requireGeneration transaction.generation
      requireNoInventory inventory
      s.correctFact target replacement revision
    | .retractFact target => do
      s.requireGeneration transaction.generation
      requireNoInventory inventory
      s.retractFact target revision
    | .revokeSource source => do
      s.requireGeneration transaction.generation
      requireNoInventory inventory
      s.revokeSource source revision
    | .completeRebuild => do
      s.requireGeneration transaction.generation
      requireNoInventory inventory
      require (s.ready = false) .conflict
      pure { s with ready := true }
  pure { s with currentRevision := some revision }

end MemoryState

end Uste.Memory
