import Uste.Memory.PilotReads
import Uste.Memory.ResearchReads

/-!
What reads give away: records that a caller may not read change no answer, and which identities an
answer can show.
-/

namespace Uste.Memory

open Types Crypto Policy Storage Txn Std List

def Authorize.grants (authorize : Authorize) (requirements : List AuthorizationRequirement) : Prop :=
  ∀ requirement ∈ requirements, authorize requirement.action requirement.target = true

def MemoryReadRequest.Granted (authorize : Authorize) (request : MemoryReadRequest) : Prop :=
  ∃ requirements, readRequirements request = .ok requirements ∧ authorize.grants requirements

def Research.ResearchReadRequest.Granted (authorize : Authorize) (request : Research.ResearchReadRequest) : Prop :=
  authorize.grants (Research.readRequirements request)

/-! ### Hidden records -/

/-- Two states of the pilot that differ in records only that the caller may not read. -/
structure MemoryState.AgreeOn (authorize : Authorize) (s t : MemoryState) : Prop where
  scope : s.scope = t.scope
  generation : s.generation = t.generation
  ready : s.ready = t.ready
  revision : s.currentRevision = t.currentRevision
  fact : ∀ id : RecordRef, authorize.mayRead id = true → s.facts[id]? = t.facts[id]?
  source : ∀ id : SourceVersionId, authorize.mayRead id.source = true → s.sources[id]? = t.sources[id]?

structure Research.ResearchState.AgreeOn (authorize : Authorize) (s t : ResearchState) : Prop where
  scope : s.scope = t.scope
  generation : s.generation = t.generation
  ready : s.ready = t.ready
  revision : s.currentRevision = t.currentRevision
  claim : ∀ id : RecordRef, authorize.mayRead id = true → s.claims[id]? = t.claims[id]?
  edge : ∀ id : RecordRef, authorize.mayRead id = true → s.edges[id]? = t.edges[id]?
  source : ∀ id : SourceVersionId, authorize.mayRead id.source = true → s.sources[id]? = t.sources[id]?

namespace MemoryState

variable {s t : MemoryState} {authorize : Authorize}

structure Eligible (s : MemoryState) (revision : CommitRevision) (authorize : Authorize) (id : RecordRef) (fact : FactRecord) : Prop where
  found : s.facts[id]? = some fact
  recorded : fact.recordedRevision.value ≤ revision.value
  standing : ∀ terminal ∈ fact.terminal, revision.value < terminal.revision.value
  mayRead : authorize.mayRead id = true
  mayReadSource : authorize.mayRead fact.input.source.source = true
  mayReadLinks : ∀ link ∈ fact.input.links, authorize.mayRead link = true
  source : ∃ source, s.sources[fact.input.source]? = some source ∧ source.recordedRevision.value ≤ revision.value ∧
    source.revokedRevision = none ∧ ∀ superseded ∈ source.supersededRevision, revision.value < superseded.value

variable {revision : CommitRevision} {id : RecordRef} {fact : FactRecord}

theorem eligibleFact_iff :
    s.eligibleFact id revision authorize = some fact ↔ s.Eligible revision authorize id fact := by
  unfold eligibleFact
  constructor
  · intro h
    obtain ⟨record, found, h⟩ := Option.bind_eq_some_iff.mp h
    obtain ⟨_, checked, h⟩ := Option.bind_eq_some_iff.mp h
    obtain ⟨source, rests, h⟩ := Option.bind_eq_some_iff.mp h
    obtain ⟨_, stands, h⟩ := Option.bind_eq_some_iff.mp h
    cases h
    obtain ⟨recorded, standing, mayRead, mayReadSource, mayReadLinks⟩ := (Option.guard_eq_some' ..).mp checked
    exact ⟨found, recorded, standing, mayRead, mayReadSource, mayReadLinks, source, rests, (Option.guard_eq_some' ..).mp stands⟩
  · intro h
    obtain ⟨source, rests, stands⟩ := h.source
    simp only [h.found, rests, Option.bind_eq_bind, Option.bind_some]
    rw [guard, if_pos ⟨h.recorded, h.standing, h.mayRead, h.mayReadSource, h.mayReadLinks⟩, guard, if_pos stands]
    rfl

section

variable (agree : AgreeOn authorize s t)

include agree

theorem AgreeOn.symm : AgreeOn authorize t s where
  scope := agree.scope.symm
  generation := agree.generation.symm
  ready := agree.ready.symm
  revision := agree.revision.symm
  fact := fun id mayRead => (agree.fact id mayRead).symm
  source := fun id mayRead => (agree.source id mayRead).symm

theorem AgreeOn.eligible
    (eligible : s.Eligible revision authorize id fact) : t.Eligible revision authorize id fact := by
  constructor
  · rw [← agree.fact id eligible.mayRead]
    exact eligible.found
  · exact eligible.recorded
  · exact eligible.standing
  · exact eligible.mayRead
  · exact eligible.mayReadSource
  · exact eligible.mayReadLinks
  · rw [← agree.source _ eligible.mayReadSource]
    exact eligible.source

theorem AgreeOn.eligibleFact (id : RecordRef) (revision : CommitRevision) :
    s.eligibleFact id revision authorize = t.eligibleFact id revision authorize := by
  apply Option.ext
  intro fact
  rw [eligibleFact_iff, eligibleFact_iff]
  exact ⟨agree.eligible, agree.symm.eligible⟩

theorem AgreeOn.showsSame (revision : CommitRevision) : ShowsSame revision authorize s t := by
  constructor
  · intro id
    unfold shownFact
    rw [agree.eligibleFact]
  · intro id fact eligible
    have eligible := eligibleFact_iff.mp eligible
    obtain ⟨source, found, -⟩ := eligible.source
    refine ⟨source, source, found, ?_, rfl, rfl⟩
    rw [← agree.source _ eligible.mayReadSource]
    exact found

theorem AgreeOn.ensureQueryable (runtime generation : Nat) :
    s.ensureQueryable runtime generation = t.ensureQueryable runtime generation := by
  unfold MemoryState.ensureQueryable
  rw [agree.revision, agree.generation, agree.ready]

theorem AgreeOn.readAuthorized (retained : s.retainedFrom = t.retainedFrom) (runtime : Nat)
    (request : MemoryReadRequest) : s.readAuthorized runtime request authorize = t.readAuthorized runtime request authorize := by
  obtain ⟨knowledge, same⟩ := request.exists_knowing
  rw [same]
  apply readAuthorized_same
  · unfold resolveRevision
    rw [agree.revision, retained]
  · exact fun revision _ => agree.showsSame revision
  · exact agree.ensureQueryable runtime

end

end MemoryState

namespace Research.ResearchState

variable {s t : ResearchState} {authorize : Authorize}

section

variable (agree : AgreeOn authorize s t)

include agree

theorem AgreeOn.citationView (evaluatedAt : Time.UtcInstant) (citation : CitationInput) :
    s.citationView evaluatedAt authorize citation = t.citationView evaluatedAt authorize citation := by
  unfold ResearchState.citationView
  by_cases mayRead : authorize.mayRead citation.source.source = true
  · rw [agree.source _ mayRead]
  · simp only [guard, if_neg mayRead]
    rfl

theorem AgreeOn.claimView (entry : ResearchClaimEntry) (revision : CommitRevision)
    (evaluatedAt : Time.UtcInstant) : s.claimView entry revision evaluatedAt authorize = t.claimView entry revision evaluatedAt authorize := by
  have citations : s.citationView evaluatedAt authorize = t.citationView evaluatedAt authorize := funext (agree.citationView evaluatedAt)
  unfold ResearchState.claimView
  rw [citations]

theorem AgreeOn.visibleClaim (id : RecordRef) (revision : CommitRevision) :
    s.visibleClaim id revision authorize = t.visibleClaim id revision authorize := by
  by_cases mayRead : authorize.mayRead id = true
  · unfold ResearchState.visibleClaim
    rw [agree.claim id mayRead]
  · have hidden (s : ResearchState) : s.visibleClaim id revision authorize = none := by
      unfold ResearchState.visibleClaim
      cases s.claims[id]? with
      | none => rfl
      | some entry =>
        have unseen : ¬(entry.recordedRevision.value ≤ revision.value ∧ authorize.mayRead id = true) := fun h => mayRead h.2
        simp only [Option.bind_eq_bind, Option.bind_some, guard, if_neg unseen]
        rfl
    rw [hidden, hidden]

theorem AgreeOn.visibleEdge [Primitives] (valid : Valid s) (valid' : Valid t)
    (fromRecord : RecordRef) (kind : Option EdgeKind) (revision : CommitRevision) (id : RecordRef) :
    s.edges[id]?.bind (visibleEdge fromRecord kind revision authorize) =
    t.edges[id]?.bind (visibleEdge fromRecord kind revision authorize) := by
  by_cases mayRead : authorize.mayRead id = true
  · rw [agree.edge id mayRead]
  · have hidden {s : ResearchState} (valid : Valid s) : s.edges[id]?.bind (ResearchState.visibleEdge fromRecord kind revision authorize) = none := by
      cases found : s.edges[id]? with
      | none => rfl
      | some entry =>
        obtain ⟨named, -⟩ := valid.edge id entry found
        apply if_neg
        intro visible
        rw [named] at visible
        exact mayRead visible.2.2.2.1
    rw [hidden valid, hidden valid']

theorem AgreeOn.showsSame [Primitives] (valid : Valid s) (valid' : Valid t) (revision : CommitRevision) :
    ShowsSame revision authorize (fun source => authorize.mayRead source = true) s t := by
  constructor
  · exact agree.scope
  · intro id evaluatedAt
    unfold shownClaim
    rw [agree.visibleClaim]
    simp only [agree.claimView]
  · exact fun fromRecord kind => agree.visibleEdge valid valid' fromRecord kind revision
  · intro source mayRead evaluatedAt id
    by_cases named : id.source = source
    · rw [agree.source id (named ▸ mayRead)]
    · have other (entry : ResearchSourceEntry) : shownVersion source revision evaluatedAt id entry = none :=
        if_neg fun h => named h.1
      have hidden (found : Option ResearchSourceEntry) : found.bind (shownVersion source revision evaluatedAt id) = none := by
        cases found with
        | none => rfl
        | some entry => exact other entry
      rw [hidden, hidden]

theorem AgreeOn.readAuthorized [Primitives] (reached : Reached s) (reached' : Reached t)
    (retained : s.retainedFrom = t.retainedFrom) (runtime : Nat) {request : ResearchReadRequest} (granted : request.Granted authorize) :
    s.readAuthorized runtime request authorize = t.readAuthorized runtime request authorize := by
  obtain ⟨knowledge, same⟩ := request.exists_knowing
  have current (generation : Nat) : s.requireCurrent runtime generation = t.requireCurrent runtime generation := by
    unfold requireCurrent
    rw [agree.revision, agree.generation]
  rw [same]
  apply readAuthorized_same reached.valid reached'.valid (fun source => authorize.mayRead source = true) agree.scope
  · unfold resolve
    rw [agree.revision, retained]
  · exact fun revision _ => agree.showsSame reached.valid reached'.valid revision
  · intro generation
    unfold ensureQueryable
    rw [current, agree.ready]
  · intro generation source k evaluatedAt maximum asks
    subst asks
    exact granted _ mem_cons_self
  · intro generation id evaluatedAt asks
    subst asks
    have mayRead : authorize.mayRead id.source = true := granted _ mem_cons_self
    unfold ResearchState.sourceVersion
    rw [current, agree.revision, agree.source id mayRead]

end

end Research.ResearchState

/-- Records that the caller may not read change no answer of a granted read, on two states that keep the same part of their
history. -/
theorem hidden_records_change_no_read [Primitives] (authorize : Authorize) :
    (∀ s t : MemoryState, s.AgreeOn authorize t → s.retainedFrom = t.retainedFrom →
      ∀ (runtime : Nat) (request : MemoryReadRequest), request.Granted authorize →
        s.readAuthorized runtime request authorize = t.readAuthorized runtime request authorize) ∧
    (∀ s t : Research.ResearchState, s.Reached → t.Reached → s.AgreeOn authorize t → s.retainedFrom = t.retainedFrom →
      ∀ (runtime : Nat) (request : Research.ResearchReadRequest), request.Granted authorize →
        s.readAuthorized runtime request authorize = t.readAuthorized runtime request authorize) := by
  constructor
  · intro s t agree retained runtime request _
    exact agree.readAuthorized retained runtime request
  · intro s t reached reached' agree retained runtime request granted
    exact agree.readAuthorized reached reached' retained runtime granted

/-! ### A sample -/

section Sample

attribute [local instance] plainPrimitives

def sampleScope : NamespaceRef := ⟨⟨Octets.zero 16⟩, ⟨Octets.zero 16⟩⟩

def sampleRecord (n : UInt8) : RecordRef := ⟨sampleScope, ⟨⟨List.replicate 15 0 ++ [n], rfl⟩⟩⟩

def sampleHistory (requests : List (List UInt8 × Option BlobInventory)) : List (CommitRevision × List UInt8 × Option BlobInventory) :=
  requests.zipIdx.filterMap fun (request, index) => (CommitRevision.new (index + 1)).toOption.map (·, request)

def sampleRequest (generation : Nat) (mutation : MemoryMutation) : List UInt8 :=
  ((encodeTransaction ⟨sampleScope, generation, mutation⟩).toOption).getD []

def samplePublish (requests : List (List UInt8 × Option BlobInventory)) : Except ApplyError MemoryState :=
  publishAll MemoryState.prepare MemoryState.currentRevision (sampleHistory requests) { scope := sampleScope }

def sampleBlobOf (n : UInt8) (byteLen : Nat) : BlobReference where
  scope := sampleScope
  id := ⟨List.replicate 15 0 ++ [n], rfl⟩
  byteLen := byteLen
  chunkCount := if byteLen = 0 then 0 else 1
  contentDigest := Octets.zero 32

def sampleAuthorize : Authorize := fun _ target => decide (target ≠ .record (sampleRecord 9))

def sampleInventoryOf (blob : BlobReference) (valid : InventoryOf sampleScope [blob]) : BlobInventory := ⟨sampleScope, [blob], valid⟩

theorem sampleInventory_valid : InventoryOf sampleScope [sampleBlobOf 1 0] := ⟨by decide, by decide, by simp⟩

def sampleHidden : List UInt8 × Option BlobInventory :=
  (sampleRequest 2 (.putSource ⟨⟨sampleRecord 9, 1⟩, sampleBlobOf 1 0, opaqueMediaType, none, none⟩),
    some (sampleInventoryOf _ sampleInventory_valid))

def sampleFirst := samplePublish [(sampleRequest 2 (.beginRebuild 2), none), sampleHidden, (sampleRequest 2 .completeRebuild, none)]

def sampleSecond := samplePublish [(sampleRequest 2 (.beginRebuild 2), none), (sampleRequest 2 .completeRebuild, none), sampleHidden]

def sampleThird := samplePublish
  [(sampleRequest 1 (.beginRebuild 1), none), (sampleRequest 2 (.beginRebuild 2), none), (sampleRequest 2 .completeRebuild, none)]

variable {s : MemoryState}

theorem reached_of_samplePublish {requests : List (List UInt8 × Option BlobInventory)}
    (h : samplePublish requests = .ok s) : s.Reached := ⟨sampleScope, history_of_publishAll h⟩

def sampleAgrees (s t : MemoryState) : Bool :=
  s.scope = t.scope && s.generation = t.generation && s.ready = t.ready && s.currentRevision = t.currentRevision &&
  s.facts.isEmpty && t.facts.isEmpty && (s.sources.keys ++ t.sources.keys).all (·.source = sampleRecord 9)

theorem agreeOn_of_sampleAgrees {t : MemoryState} (h : sampleAgrees s t = true) : s.AgreeOn sampleAuthorize t := by
  simp only [sampleAgrees, Bool.and_eq_true, decide_eq_true_eq, ExtTreeMap.isEmpty_iff, all_eq_true, mem_append,
    ExtTreeMap.mem_keys] at h
  obtain ⟨⟨⟨⟨⟨⟨scope, generation⟩, ready⟩, revision⟩, facts⟩, facts'⟩, sources⟩ := h
  refine ⟨scope, generation, ready, revision, fun id _ => by rw [facts, facts'], fun id mayRead => ?_⟩
  have other : id.source ≠ sampleRecord 9 := by
    intro same
    rw [same] at mayRead
    cases mayRead
  rw [ExtTreeMap.getElem?_eq_none fun mem => other (sources id (.inl mem)),
    ExtTreeMap.getElem?_eq_none fun mem => other (sources id (.inr mem))]

def sampleRead : MemoryReadRequest := .getFact 2 (sampleRecord 1) (.revision .first) 65536

theorem sampleRead_granted : sampleRead.Granted sampleAuthorize := ⟨[⟨.readRecord, .record (sampleRecord 1)⟩], rfl, by
  intro requirement mem
  cases mem_singleton.mp mem
  decide⟩

theorem exists_of_any {ε α : Type} {x : Except ε α} {p : α → Bool} (h : x.toOption.any p = true) : ∃ a, x = .ok a ∧ p a = true := by
  cases x with
  | error => cases h
  | ok a => exact ⟨a, rfl, h⟩

/-- Where the start of the retained history differs, so can the answer. -/
theorem retained_history_shows : ∃ s t : MemoryState, s.Reached ∧ t.Reached ∧ s.AgreeOn sampleAuthorize t ∧
    sampleRead.Granted sampleAuthorize ∧ s.readAuthorized 3 sampleRead sampleAuthorize = .error .notFound ∧
    t.readAuthorized 3 sampleRead sampleAuthorize = .error .historyUnavailable := by
  have checks : (sampleFirst.toOption.any fun s => sampleThird.toOption.any fun t => sampleAgrees s t &&
      decide (s.readAuthorized 3 sampleRead sampleAuthorize = .error .notFound) &&
      decide (t.readAuthorized 3 sampleRead sampleAuthorize = .error .historyUnavailable)) = true := by
    decide +kernel
  obtain ⟨s, first, checks⟩ := exists_of_any checks
  obtain ⟨t, third, checks⟩ := exists_of_any checks
  simp only [Bool.and_eq_true, decide_eq_true_eq] at checks
  exact ⟨s, t, reached_of_samplePublish first, reached_of_samplePublish third, agreeOn_of_sampleAgrees checks.1.1,
    sampleRead_granted, checks.1.2, checks.2⟩

/-! A research history of one hidden source. -/

open Research in
def sampleResearchRequest (generation : Nat) (mutation : ResearchMutation) : List UInt8 :=
  ((encodeResearchTransaction ⟨sampleScope, generation, mutation⟩).toOption).getD []

open Research in
def sampleResearchPublish (requests : List (List UInt8 × Option BlobInventory)) : Except ApplyError ResearchState :=
  publishAll ResearchState.prepare ResearchState.currentRevision (sampleHistory requests) { scope := sampleScope }

def sampleInstant : Time.UtcInstant := .epoch

open Research in
def sampleGone (n : UInt8) : List UInt8 × Option BlobInventory :=
  (sampleResearchRequest 2 (.put (.source ⟨⟨sampleRecord n, 1⟩, .webPage, "page", "v1", sampleInstant, Octets.zero 16, "route",
    .inaccessible "gone", none, "license", false, .pinned⟩)), none)

def sampleResearchFirst := sampleResearchPublish
  [(sampleResearchRequest 2 (.beginRebuild 2), none), sampleGone 9, (sampleResearchRequest 2 .completeRebuild, none)]

def sampleResearchSecond := sampleResearchPublish
  [(sampleResearchRequest 2 (.beginRebuild 2), none), (sampleResearchRequest 2 .completeRebuild, none), sampleGone 9]

open Research in
def sampleResearchAgrees (s t : ResearchState) : Bool :=
  s.scope = t.scope && s.generation = t.generation && s.ready = t.ready && s.currentRevision = t.currentRevision &&
  s.claims.isEmpty && t.claims.isEmpty && s.edges.isEmpty && t.edges.isEmpty &&
  (s.sources.keys ++ t.sources.keys).all (·.source = sampleRecord 9)

open Research in
theorem agreeOn_of_sampleResearchAgrees {s t : ResearchState} (h : sampleResearchAgrees s t = true) :
    s.AgreeOn sampleAuthorize t := by
  simp only [sampleResearchAgrees, Bool.and_eq_true, decide_eq_true_eq, ExtTreeMap.isEmpty_iff, all_eq_true, mem_append,
    ExtTreeMap.mem_keys] at h
  obtain ⟨⟨⟨⟨⟨⟨⟨⟨scope, generation⟩, ready⟩, revision⟩, claims⟩, claims'⟩, edges⟩, edges'⟩, sources⟩ := h
  refine ⟨scope, generation, ready, revision, fun id _ => by rw [claims, claims'], fun id _ => by rw [edges, edges'],
    fun id mayRead => ?_⟩
  have other : id.source ≠ sampleRecord 9 := by
    intro same
    rw [same] at mayRead
    cases mayRead
  rw [ExtTreeMap.getElem?_eq_none fun mem => other (sources id (.inl mem)),
    ExtTreeMap.getElem?_eq_none fun mem => other (sources id (.inr mem))]

open Research in
theorem hidden_records_change_no_read_sample :
    (∃ s t : MemoryState, s.AgreeOn sampleAuthorize t ∧ s.sources[(⟨sampleRecord 9, 1⟩ : SourceVersionId)]? ≠
        t.sources[(⟨sampleRecord 9, 1⟩ : SourceVersionId)]? ∧
      s.readAuthorized 3 sampleRead sampleAuthorize = t.readAuthorized 3 sampleRead sampleAuthorize) ∧
    ∃ s t : ResearchState, s.Reached ∧ t.Reached ∧ s.AgreeOn sampleAuthorize t ∧
      s.readAuthorized 3 (.getClaim 2 (sampleRecord 1) .current sampleInstant 65536) sampleAuthorize =
      t.readAuthorized 3 (.getClaim 2 (sampleRecord 1) .current sampleInstant 65536) sampleAuthorize := by
  have pilot : (sampleFirst.toOption.any fun s => sampleSecond.toOption.any fun t => sampleAgrees s t &&
      decide (s.retainedFrom = t.retainedFrom) && decide (s.sources[(⟨sampleRecord 9, 1⟩ : SourceVersionId)]? ≠
        t.sources[(⟨sampleRecord 9, 1⟩ : SourceVersionId)]?)) = true := by
    decide +kernel
  have research : (sampleResearchFirst.toOption.any fun s => sampleResearchSecond.toOption.any fun t =>
      sampleResearchAgrees s t && decide (s.retainedFrom = t.retainedFrom)) = true := by
    decide +kernel
  obtain ⟨s, -, pilot⟩ := exists_of_any pilot
  obtain ⟨t, -, pilot⟩ := exists_of_any pilot
  obtain ⟨s', first, research⟩ := exists_of_any research
  obtain ⟨t', second, research⟩ := exists_of_any research
  simp only [Bool.and_eq_true, decide_eq_true_eq] at pilot research
  have agree := agreeOn_of_sampleAgrees pilot.1.1
  have agree' := agreeOn_of_sampleResearchAgrees research.1
  have reached : s'.Reached := ⟨sampleScope, history_of_publishAll first⟩
  have reached' : t'.Reached := ⟨sampleScope, history_of_publishAll second⟩
  have granted : (ResearchReadRequest.getClaim 2 (sampleRecord 1) .current sampleInstant 65536).Granted sampleAuthorize := by
    intro requirement mem
    cases mem_singleton.mp mem
    decide
  exact ⟨⟨s, t, agree, pilot.2, (hidden_records_change_no_read sampleAuthorize).1 s t agree pilot.1.2 3 _ sampleRead_granted⟩,
    s', t', reached, reached', agree',
    (hidden_records_change_no_read sampleAuthorize).2 s' t' reached reached' agree' research.2 3 _ granted⟩

end Sample

end Uste.Memory
