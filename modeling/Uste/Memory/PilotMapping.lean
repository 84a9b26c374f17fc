import Uste.Memory.PilotHistory
import Uste.Memory.ResearchState

/-!
The mapping from the memory pilot to `research-memory-v1`: the events of a pilot state, in the order
of their revisions, become mutations that a research reducer is given one after the other.
-/

namespace Uste.Memory.Research

open Types Crypto Policy Storage Txn Std
open Time (UtcInstant)

def pilotMappingRoute : String := "memory-pilot-v1-mapping"

def pilotMappingLicense : String := "unrecorded-by-memory-pilot-v1"

structure PilotMappingContext where
  mappedAt : UtcInstant
  runIdentity : Octets 16

inductive PilotMappingError where
  | notReady
  | opaqueCitation (fact : RecordRef)
  | emptyLocator (fact : RecordRef)
  | codec (error : ResearchCodecError)
  deriving DecidableEq

structure PilotMappedMutation where
  mutation : ResearchMutation
  inventory : Option BlobInventory
  deriving DecidableEq

structure PilotMapping where
  pilotGeneration : Nat
  mutations : List PilotMappedMutation
  droppedEventTimes : Nat

def pilotLinkEdgeId [Primitives] (fact link : RecordRef) : RecordRef :=
  let digest := sha256 (ascii "uste-memory-pilot-link-edge-v1" ++ fact.scope.database.bytes.bytes ++
    fact.scope.namespaceId.bytes.bytes ++ fact.id.bytes.bytes ++ link.id.bytes.bytes)
  ⟨fact.scope, ⟨⟨digest.bytes.take 16, by simp⟩⟩⟩

/-! ### Events -/

/-- Of the records only what the mapping reads. -/
inductive Event where
  | source (id : SourceVersionId) (input : SourceVersionInput)
  | fact (input : FactInput) (corrects : Option RecordRef)
  | retract (target : RecordRef)
  | revoke (id : SourceVersionId)
  deriving DecidableEq

/-- A target or a fact counts as version zero. -/
def Event.key : Event → SourceVersionId
  | .source id _ => id
  | .revoke id => id
  | .fact input _ => ⟨input.id, 0⟩
  | .retract target => ⟨target, 0⟩

def Event.rank : Event → Nat
  | .source _ _ => 0
  | .fact _ _ => 1
  | .retract _ => 2
  | .revoke _ => 3

structure TimedEvent where
  revision : CommitRevision
  event : Event
  deriving DecidableEq

namespace TimedEvent

def order : TimedEvent → TimedEvent → Ordering :=
  compareLex (compareOn revision) (compareLex (compareOn (·.event.rank)) (compareOn (·.event.key)))

instance : TransCmp order := inferInstanceAs (TransCmp
  (compareLex (compareOn revision) (compareLex (compareOn (·.event.rank)) (compareOn (·.event.key)))))

def NotAfter (a b : TimedEvent) : Prop := (order a b).isLE = true

instance : DecidableRel NotAfter := fun a b => inferInstanceAs (Decidable ((order a b).isLE = true))

instance : IsTrans TimedEvent NotAfter := ⟨fun _ _ _ => TransCmp.isLE_trans⟩

instance : Std.Total NotAfter := ⟨fun a b => by
  have swapped : order b a = (order a b).swap := OrientedCmp.eq_swap
  unfold NotAfter
  rw [swapped]
  cases order a b <;> simp⟩

end TimedEvent

def sourceEvents (entry : SourceVersionId × SourceVersionRecord) : List TimedEvent :=
  ⟨entry.2.recordedRevision, .source entry.1 entry.2.input⟩ ::
    (entry.2.revokedRevision.toList.map fun revoked => ⟨revoked, .revoke entry.1⟩)

/-- A fact is recorded, and may be retracted; that it is superseded is an event of its correction. -/
def factEvents (entry : RecordRef × FactRecord) : List TimedEvent :=
  ⟨entry.2.recordedRevision, .fact entry.2.input entry.2.corrects⟩ ::
    match entry.2.terminal with
    | some (.retracted revision) => [⟨revision, .retract entry.2.input.id⟩]
    | _ => []

def events (pilot : MemoryState) : List TimedEvent :=
  pilot.sources.toList.flatMap sourceEvents ++ pilot.facts.toList.flatMap factEvents

def timeline (pilot : MemoryState) : List TimedEvent := (events pilot).insertionSort TimedEvent.NotAfter

/-! ### The mapping -/

def mapSource (id : SourceVersionId) (source : SourceVersionInput) (context : PilotMappingContext) :
    Except PilotMappingError PilotMappedMutation := do
  let inventory ← (BlobInventory.new source.blob.scope [source.blob]).mapError fun _ => .codec .invalid
  pure ⟨.put (.source {
    id := id
    kind := .suppliedDocument
    locatorText := "memory-pilot-v1 source version " ++ toString id.version
    versionLabel := "memory-pilot-v1-version-" ++ toString id.version
    retrievedAt := context.mappedAt
    runIdentity := context.runIdentity
    routeLabel := pilotMappingRoute
    outcome := .complete
    content := some ⟨source.blob, source.mediaType⟩
    licenseLabel := pilotMappingLicense
    redistributable := false
    freshness := .pinned }), some inventory⟩

section

variable [Primitives]

/-- An excerpt that is long, or that starts or ends within a character, is left to its digest. -/
def mapFact (pilot : MemoryState) (fact : FactInput) (corrects : Option RecordRef) : Except PilotMappingError ClaimInput := do
  let range := fact.locator.range
  require (range.1 < range.2) (.emptyLocator fact.id)
  let text ← orError (.opaqueCitation fact.id) (pilot.sources[fact.source]?.bind (·.input.exactUtf8))
  require (range.2 ≤ Utf8.len text) (.codec .invalid)
  pure {
    id := fact.id
    subject := fact.subject
    predicate := fact.predicate
    value := fact.value
    support := .paraphrase
    citations := [{
      source := fact.source
      locator := fact.locator
      excerptDigest := sha256 (slice (Utf8.bytes text) range.1 (range.2 - range.1))
      excerpt := (Utf8.getRange text range.1 range.2).filter fun excerpt => Utf8.len excerpt ≤ researchProfile.maximumExcerptBytes }]
    validFrom := none
    validUntil := none
    corrects := corrects }

def linkEdge (fact link : RecordRef) : EdgeInput where
  id := pilotLinkEdgeId fact link
  kind := .related
  fromRecord := fact
  toRecord := link
  assertedBy := fact
  validFrom := none
  validUntil := none

def mapEvent (pilot : MemoryState) (context : PilotMappingContext) : Event → Except PilotMappingError (List PilotMappedMutation)
  | .source id input => do
    let mapped ← mapSource id input context
    pure [mapped]
  | .fact input corrects => do
    let claim ← mapFact pilot input corrects
    pure (⟨.put (.claim claim), none⟩ :: input.links.map fun link => ⟨.put (.edge (linkEdge input.id link)), none⟩)
  | .retract target => pure [⟨.retractClaim target, none⟩]
  | .revoke id => pure [⟨.revokeSource id, none⟩]

def mapEvents (pilot : MemoryState) (context : PilotMappingContext) :
    List TimedEvent → Except PilotMappingError (List PilotMappedMutation)
  | [] => pure []
  | timed :: rest => do
    let first ← mapEvent pilot context timed.event
    let rest ← mapEvents pilot context rest
    pure (first ++ rest)

def validateMapped (scope : NamespaceRef) (mapped : PilotMappedMutation) : Except PilotMappingError Unit :=
  match mapped.mutation with
  | .put record => (record.validate scope).mapError .codec
  | _ => pure ()

def mapMemoryPilot (pilot : MemoryState) (context : PilotMappingContext) : Except PilotMappingError PilotMapping := do
  let generation ← orError .notReady pilot.generation
  require (pilot.ready = true) .notReady
  let mutations ← mapEvents pilot context (timeline pilot)
  mutations.forM (validateMapped pilot.scope)
  pure ⟨generation, mutations, pilot.sources.toList.countP (·.2.input.sourceEventTime.isSome) +
    pilot.facts.toList.countP (·.2.input.sourceEventTime.isSome)⟩

end

def replay (scope : NamespaceRef) (generation : Nat) :
    List (CommitRevision × PilotMappedMutation) → ResearchState → Except ApplyError ResearchState
  | [], s => .ok s
  | (revision, mapped) :: rest, s => do
    let s ← s.apply ⟨scope, generation, mapped.mutation⟩ mapped.inventory revision
    replay scope generation rest s

end Uste.Memory.Research
