import Uste.Memory.Published
import Uste.Memory.ResearchQuery
import Uste.Txn.Commit

/-! Runs of the research reducer, record by record. -/

namespace Uste.Memory.Research

open Types Crypto Policy Storage Txn Std List

/-! ### Decoded transactions -/

theorem decode_validates [Primitives] {request : List UInt8} {transaction : ResearchTransaction}
    (h : decodeResearchTransaction request = .ok transaction) {record : ResearchRecord}
    (puts : transaction.mutation = .put record) : record.validate transaction.scope = .ok () := by
  obtain ⟨_, -, _, -, _, -, _, -, h⟩ := bind_ok₄ h
  obtain ⟨database, -, namespaceId, -, mutation, decoded, h⟩ := bind_ok₃ h
  cases h
  unfold decodeResearchMutation at decoded
  split at decoded
  · obtain ⟨_, -, decoded⟩ := bind_ok decoded
    cases decoded
    cases puts
  · obtain ⟨_, -, _, -, ⟨recordScope, decodedRecord⟩, inner, _, same, decoded⟩ := bind_ok₄ decoded
    cases decoded
    cases puts
    obtain ⟨_, -, pair, -, _, valid, inner⟩ := bind_ok₃ inner
    cases inner
    cases require_ok.mp same
    exact valid
  · obtain ⟨_, -, decoded⟩ := bind_ok decoded
    cases decoded
    cases puts
  · obtain ⟨_, -, decoded⟩ := bind_ok decoded
    cases decoded
    cases puts
  · obtain ⟨_, -, _, -, _, -, decoded⟩ := bind_ok₃ decoded
    cases decoded
    cases puts
  · obtain ⟨_, -, decoded⟩ := bind_ok decoded
    cases decoded
    cases puts
  · cases decoded

namespace ResearchState

variable {s s' : ResearchState} {revision : CommitRevision}

/-! ### Versions of a source -/

variable {source : RecordRef}

theorem mem_versionsOf {version : SourceVersionId × ResearchSourceEntry} :
    version ∈ s.versionsOf source ↔ s.sources[version.1]? = some version.2 ∧ version.1.source = source := by
  unfold versionsOf
  rw [mem_filter, ExtTreeMap.mem_toList_iff_getElem?_eq_some]
  simp

theorem versionsOf_sorted (source : RecordRef) :
    (s.versionsOf source).Pairwise fun a b => a.1.version < b.1.version := by
  have sorted : (s.versionsOf source).Pairwise fun a b => compare a.1 b.1 = .lt :=
    (ExtTreeMap.ordered_keys_toList (t := s.sources)).filter _
  apply sorted.imp_of_mem
  intro a b a_mem b_mem less
  have same : a.1.source = b.1.source := (mem_versionsOf.mp a_mem).2.trans (mem_versionsOf.mp b_mem).2.symm
  have less : (compareLex (compareOn SourceVersionId.source) (compareOn SourceVersionId.version)) a.1 b.1 = .lt := less
  rw [compareLex, compareOn, same, ReflOrd.compare_self] at less
  exact Nat.compare_eq_lt.mp less

theorem le_latestVersion {id : SourceVersionId} {entry : ResearchSourceEntry} (found : s.sources[id]? = some entry) :
    ∃ latest, s.latestVersion id.source = some latest ∧ id.version ≤ latest := by
  have mem : (id, entry) ∈ s.versionsOf id.source := mem_versionsOf.mpr ⟨found, rfl⟩
  have sorted := s.versionsOf_sorted id.source
  unfold latestVersion
  generalize s.versionsOf id.source = versions at mem sorted
  obtain rfl | ⟨front, last, rfl⟩ := eq_nil_or_concat versions
  · cases mem
  · refine ⟨last.1.version, by simp, ?_⟩
    simp only [concat_eq_append] at mem sorted
    obtain here | here := mem_append.mp mem
    · exact ((pairwise_append.mp sorted).2.2 _ here _ mem_cons_self).le
    · cases mem_singleton.mp here
      exact le_rfl

theorem latestVersion_mem {latest : Nat} (h : s.latestVersion source = some latest) :
    ∃ entry, s.sources[(⟨source, latest⟩ : SourceVersionId)]? = some entry := by
  obtain ⟨⟨id, entry⟩, last, rfl⟩ := Option.map_eq_some_iff.mp h
  obtain ⟨found, rfl⟩ := mem_versionsOf.mp (mem_of_getLast? last)
  exact ⟨entry, found⟩

/-! ### What a transaction does -/

section Steps

variable [Primitives]

def Reached (s : ResearchState) : Prop := ∃ scope, History prepare currentRevision { scope := scope } s

def Past (s : ResearchState) (revision : CommitRevision) : Prop := ∃ current ∈ s.currentRevision, revision.value ≤ current.value

inductive SourceStep (s : ResearchState) (after : ExtTreeMap SourceVersionId ResearchSourceEntry) (revision : CommitRevision)
    (id : SourceVersionId) : Option ResearchSourceEntry → Option ResearchSourceEntry → Prop where
  | kept (entry : Option ResearchSourceEntry) : SourceStep s after revision id entry entry
  | superseded (entry : ResearchSourceEntry) (latest : s.latestVersion id.source = some id.version)
      (next : nextVersion id ∈ after) :
      SourceStep s after revision id (some entry) (some { entry with supersededRevision := some revision })
  | revoked (entry : ResearchSourceEntry) (standing : entry.revokedRevision = none) :
      SourceStep s after revision id (some entry) (some { entry with revokedRevision := some revision })
  | recorded (input : SourceRecordInput) (named : input.id = id) (next : (s.latestVersion id.source).getD 0 + 1 = id.version) :
      SourceStep s after revision id none (some ⟨input, revision, none, none⟩)

inductive ClaimStep (s : ResearchState) (revision : CommitRevision) (id : RecordRef) :
    Option ResearchClaimEntry → Option ResearchClaimEntry → Prop where
  | kept (entry : Option ResearchClaimEntry) : ClaimStep s revision id entry entry
  | ended (entry : ResearchClaimEntry) (terminal : ClaimStatus) (standing : entry.status = .active)
      (now : terminal.revision? = some revision) :
      ClaimStep s revision id (some entry) (some { entry with status := terminal })
  | recorded (input : ClaimInput) (named : input.id = id) (valid : validateClaim s.scope input = .ok ())
      (cites : ∀ citation ∈ input.citations, citation.source ∈ s.sources) :
      ClaimStep s revision id none (some ⟨input, revision, .active⟩)

inductive EdgeStep (revision : CommitRevision) (id : RecordRef) : Option ResearchEdgeEntry → Option ResearchEdgeEntry → Prop where
  | kept (entry : Option ResearchEdgeEntry) : EdgeStep revision id entry entry
  | recorded (input : EdgeInput) (named : input.id = id) : EdgeStep revision id none (some ⟨input, revision⟩)

structure Follows (s : ResearchState) (revision : CommitRevision) (s' : ResearchState) : Prop where
  scope : s'.scope = s.scope
  generation : s'.generation = s.generation
  retainedFrom : s'.retainedFrom = s.retainedFrom
  ready : s.ready = true → s'.ready = true
  current : s'.currentRevision = some revision
  source : ∀ id : SourceVersionId, SourceStep s s'.sources revision id s.sources[id]? s'.sources[id]?
  claim : ∀ id : RecordRef, ClaimStep s revision id s.claims[id]? s'.claims[id]?
  edge : ∀ id : RecordRef, EdgeStep revision id s.edges[id]? s'.edges[id]?

omit [Primitives] in
theorem chargeRetained_ok {content : Option RetainedContent} (h : s.chargeRetained content = .ok s') :
    ∃ retained, s' = { s with retainedBytes := retained } := by
  obtain ⟨next, -, _, -, h⟩ := bind_ok₂ h
  cases h
  exact ⟨next, rfl⟩

omit [Primitives] in
theorem not_mem_of_occupied {id : RecordRef} (free : s.occupied id = false) : s.claims[id]? = none ∧ s.edges[id]? = none := by
  unfold occupied at free
  simp only [Bool.or_eq_false_iff] at free
  have absent {β : Type} {m : ExtTreeMap RecordRef β} (missing : m.contains id = false) : m[id]? = none := by
    apply ExtTreeMap.getElem?_eq_none
    rw [← ExtTreeMap.contains_iff_mem, missing]
    exact Bool.false_ne_true
  exact ⟨absent free.1.2, absent free.2⟩

variable {inventory : Option BlobInventory}

theorem putSource_follows {source : SourceRecordInput}
    (h : s.putSource source inventory revision = .ok s') : Follows s revision { s' with currentRevision := some revision } := by
  obtain ⟨_, -, expected, next, _, named, _, -, h⟩ := bind_ok₄ h
  obtain ⟨_, -, _, -, charged, charge, h⟩ := bind_ok₃ h
  obtain ⟨retained, rfl⟩ := chargeRetained_ok charge
  obtain ⟨superseding, supersedes, h⟩ := bind_ok h
  cases h
  have version : (s.latestVersion source.id.source).getD 0 + 1 = source.id.version := by
    rw [require_ok.mp named]
    exact (checkedAdd_eq_some.mp (orError_ok.mp next)).2
  have fresh : s.sources[source.id]? = none := by
    by_contra taken
    obtain ⟨entry, found⟩ := Option.ne_none_iff_exists'.mp taken
    obtain ⟨latest, is_latest, le⟩ := le_latestVersion found
    rw [is_latest] at version
    exact absurd version (by simp only [Option.getD_some]; omega)
  have recorded (after : ExtTreeMap SourceVersionId ResearchSourceEntry) :
      SourceStep s after revision source.id s.sources[source.id]? (some ⟨source, revision, none, none⟩) := by
    rw [fresh]
    exact .recorded source rfl version
  unfold supersede at supersedes
  split at supersedes
  · rename_i previous is_latest
    obtain ⟨entry, found, supersedes⟩ := bind_ok supersedes
    cases supersedes
    have is_latest : s.latestVersion source.id.source = some previous := is_latest
    have found : s.sources[(⟨source.id.source, previous⟩ : SourceVersionId)]? = some entry := orError_ok.mp found
    have next : nextVersion ⟨source.id.source, previous⟩ = source.id := by
      rw [is_latest] at version
      show (⟨source.id.source, previous + 1⟩ : SourceVersionId) = source.id
      rw [show previous + 1 = source.id.version from version]
    refine ⟨rfl, rfl, rfl, id, rfl, pointwise_insert_two (fun _ => .kept) ?_ (recorded _), fun _ => .kept _, fun _ => .kept _⟩
    rw [found]
    apply SourceStep.superseded entry is_latest
    rw [next]
    exact ExtTreeMap.mem_insert_self
  · cases supersedes
    exact ⟨rfl, rfl, rfl, id, rfl, pointwise_insert (fun _ => .kept) (recorded _), fun _ => .kept _, fun _ => .kept _⟩

theorem putArtifact_follows {artifact : ArtifactInput}
    (h : s.putArtifact artifact inventory revision = .ok s') : Follows s revision { s' with currentRevision := some revision } := by
  obtain ⟨_, -, _, -, _, -, _, -, h⟩ := bind_ok₄ h
  obtain ⟨charged, charge, h⟩ := bind_ok h
  obtain ⟨retained, rfl⟩ := chargeRetained_ok charge
  cases h
  exact ⟨rfl, rfl, rfl, id, rfl, fun _ => .kept _, fun _ => .kept _, fun _ => .kept _⟩

theorem endClaim_follows {target : RecordRef} {terminal : ClaimStatus} (now : terminal.revision? = some revision)
    (h : s.endClaim target terminal = .ok s') : Follows s revision { s' with currentRevision := some revision } := by
  obtain ⟨entry, found, _, standing, h⟩ := bind_ok₂ h
  cases h
  refine ⟨rfl, rfl, rfl, id, rfl, fun _ => .kept _, pointwise_insert (fun _ => .kept) ?_, fun _ => .kept _⟩
  rw [orError_ok.mp found]
  exact .ended entry terminal (require_ok.mp standing) now

omit [Primitives] in
theorem checkCitation_mem {citation : CitationInput} (h : s.checkCitation citation = .ok ()) : citation.source ∈ s.sources := by
  obtain ⟨input, usable, -⟩ := bind_ok h
  obtain ⟨entry, found, -⟩ := bind_ok usable
  exact mem_of_some (orError_ok.mp found)

theorem putClaim_follows {claim : ClaimInput} (valid : validateClaim s.scope claim = .ok ())
    (h : s.putClaim claim revision = .ok s') : Follows s revision { s' with currentRevision := some revision } := by
  obtain ⟨_, free, _, -, _, cites, superseding, supersedes, h⟩ := bind_ok₄ h
  cases h
  have recorded : ClaimStep s revision claim.id s.claims[claim.id]? (some ⟨claim, revision, .active⟩) := by
    rw [(not_mem_of_occupied (require_ok.mp free)).1]
    exact .recorded claim rfl valid fun citation mem => checkCitation_mem (forM_ok cites citation mem)
  unfold supersedeClaim at supersedes
  split at supersedes
  · cases supersedes
    exact ⟨rfl, rfl, rfl, id, rfl, fun _ => .kept _, pointwise_insert (fun _ => .kept) recorded, fun _ => .kept _⟩
  · obtain ⟨entry, found, _, standing, supersedes⟩ := bind_ok₂ supersedes
    cases supersedes
    refine ⟨rfl, rfl, rfl, id, rfl, fun _ => .kept _, pointwise_insert_two (fun _ => .kept) ?_ recorded, fun _ => .kept _⟩
    rw [orError_ok.mp found]
    exact .ended entry _ (require_ok.mp standing) rfl

theorem putEdge_follows {edge : EdgeInput} (h : s.putEdge edge revision = .ok s') :
    Follows s revision { s' with currentRevision := some revision } := by
  obtain ⟨_, free, _, -, _, -, _, -, h⟩ := bind_ok₄ h
  cases h
  refine ⟨rfl, rfl, rfl, id, rfl, fun _ => .kept _, fun _ => .kept _, pointwise_insert (fun _ => .kept) ?_⟩
  rw [(not_mem_of_occupied (require_ok.mp free).1).2]
  exact .recorded edge rfl

theorem put_follows {record : ResearchRecord} (valid : record.validate s.scope = .ok ())
    (h : s.put record inventory revision = .ok s') : Follows s revision { s' with currentRevision := some revision } := by
  cases record with
  | source source => exact putSource_follows h
  | artifact artifact => exact putArtifact_follows h
  | claim claim =>
    obtain ⟨_, -, h⟩ := bind_ok h
    exact putClaim_follows valid h
  | edge edge =>
    obtain ⟨_, -, h⟩ := bind_ok h
    exact putEdge_follows h

theorem revokeSource_follows {id : SourceVersionId} (h : s.revokeSource id revision = .ok s') :
    Follows s revision { s' with currentRevision := some revision } := by
  obtain ⟨entry, found, _, standing, h⟩ := bind_ok₂ h
  cases h
  refine ⟨rfl, rfl, rfl, fun h => h, rfl, pointwise_insert (fun _ => .kept) ?_, fun _ => .kept _, fun _ => .kept _⟩
  rw [orError_ok.mp found]
  exact .revoked entry (require_ok.mp standing)

/-- A new generation, with nothing in it yet. -/
def Begins (s : ResearchState) (revision : CommitRevision) (s' : ResearchState) : Prop :=
  ∃ generation, (∀ current ∈ s.generation, current + 1 = generation) ∧
    s' = { scope := s.scope, generation := some generation, retainedFrom := some revision, currentRevision := some revision }

variable {generation : Nat}

omit [Primitives] in
theorem beginRebuild_begins {next : Nat} (h : s.beginRebuild generation next inventory revision = .ok s') :
    Begins s revision { s' with currentRevision := some revision } := by
  obtain ⟨_, checked, h⟩ := bind_ok h
  cases h
  refine ⟨next, fun current found => ?_, rfl⟩
  exact (checkedAdd_eq_some.mp ((require_ok.mp checked).2.2 current found)).2

theorem mutate_follows {transaction : ResearchTransaction}
    (valid : ∀ record, transaction.mutation = .put record → record.validate s.scope = .ok ())
    (h : s.mutate transaction inventory revision = .ok s') :
    Begins s revision { s' with currentRevision := some revision } ∨ Follows s revision { s' with currentRevision := some revision } := by
  unfold mutate at h
  split at h
  · exact .inl (beginRebuild_begins h)
  · rename_i record puts
    obtain ⟨_, -, h⟩ := bind_ok h
    exact .inr (put_follows (valid record puts) h)
  · obtain ⟨_, -, _, -, h⟩ := bind_ok₂ h
    exact .inr (endClaim_follows rfl h)
  · obtain ⟨_, -, _, -, h⟩ := bind_ok₂ h
    exact .inr (endClaim_follows rfl h)
  · obtain ⟨_, -, _, -, h⟩ := bind_ok₂ h
    exact .inr (revokeSource_follows h)
  · obtain ⟨_, -, _, -, _, -, h⟩ := bind_ok₃ h
    cases h
    exact .inr ⟨rfl, rfl, rfl, fun _ => rfl, rfl, fun _ => .kept _, fun _ => .kept _, fun _ => .kept _⟩

theorem follows_of_publishes (h : Publishes prepare currentRevision s revision s') :
    (∀ current ∈ s.currentRevision, current.value < revision.value) ∧ (Begins s revision s' ∨ Follows s revision s') := by
  obtain ⟨request, inventory, later, prepared⟩ := h
  obtain ⟨transaction, decoded, _, checked, after, mutated, prepared⟩ := bind_ok₃ prepared
  cases prepared
  refine ⟨later, mutate_follows (fun record puts => ?_) mutated⟩
  rw [← (require_ok.mp checked).1]
  exact decode_validates (mapError_eq_ok decoded) puts

/-! ### What every state keeps -/

structure Valid (s : ResearchState) : Prop where
  source : ∀ (id : SourceVersionId) (entry : ResearchSourceEntry), s.sources[id]? = some entry →
    entry.input.id = id ∧ s.Past entry.recordedRevision
  superseded : ∀ (id : SourceVersionId) (entry : ResearchSourceEntry), s.sources[id]? = some entry →
    entry.supersededRevision ≠ none → nextVersion id ∈ s.sources
  ordered : ∀ (a b : SourceVersionId) (first second : ResearchSourceEntry), s.sources[a]? = some first → s.sources[b]? = some second →
    a.source = b.source → a.version < b.version → first.recordedRevision.value < second.recordedRevision.value
  claim : ∀ (id : RecordRef) (entry : ResearchClaimEntry), s.claims[id]? = some entry →
    entry.input.id = id ∧ validateClaim s.scope entry.input = .ok () ∧ s.Past entry.recordedRevision ∧
      ∀ citation ∈ entry.input.citations, citation.source ∈ s.sources
  edge : ∀ (id : RecordRef) (entry : ResearchEdgeEntry), s.edges[id]? = some entry →
    entry.input.id = id ∧ s.Past entry.recordedRevision

variable {t : ResearchState}

omit [Primitives] in
theorem Past.advance {recorded : CommitRevision} (past : s.Past recorded)
    (later : ∀ current ∈ s.currentRevision, current.value < revision.value) (now : t.currentRevision = some revision) :
    t.Past recorded := by
  obtain ⟨current, found, le⟩ := past
  exact ⟨revision, now, le.trans (later current found).le⟩

omit [Primitives] in
theorem past_now (now : t.currentRevision = some revision) : t.Past revision := ⟨revision, now, le_rfl⟩

/-- How a source entry can have come about. -/
inductive SourceOrigin (s : ResearchState) (revision : CommitRevision) (id : SourceVersionId) (entry : ResearchSourceEntry) : Prop where
  | old (before : ResearchSourceEntry) (found : s.sources[id]? = some before) (input : entry.input = before.input)
      (recorded : entry.recordedRevision = before.recordedRevision)
  | new (recorded : entry.recordedRevision = revision) (named : entry.input.id = id)
      (next : (s.latestVersion id.source).getD 0 + 1 = id.version)

section Follows

variable (follows : Follows s revision s')

include follows

variable {id : SourceVersionId} {entry : ResearchSourceEntry}

theorem Follows.sourceOrigin (found : s'.sources[id]? = some entry) : SourceOrigin s revision id entry := by
  obtain ⟨_, before, step⟩ := step_from follows.source found
  cases step with
  | kept => exact .old entry before rfl rfl
  | superseded entry => exact .old entry before rfl rfl
  | revoked entry => exact .old entry before rfl rfl
  | recorded input named next => exact .new rfl named next

theorem Follows.keeps_source (found : s.sources[id]? = some entry) :
    ∃ entry', s'.sources[id]? = some entry' ∧ entry'.input = entry.input ∧ entry'.recordedRevision = entry.recordedRevision := by
  obtain ⟨_, after, step⟩ := step_to follows.source found
  cases step with
  | kept => exact ⟨entry, after, rfl, rfl⟩
  | superseded => exact ⟨_, after, rfl, rfl⟩
  | revoked => exact ⟨_, after, rfl, rfl⟩

theorem Follows.keeps_mem (mem : id ∈ s.sources) : id ∈ s'.sources := by
  obtain ⟨entry, found⟩ := mem_iff_exists.mp mem
  obtain ⟨entry', found', -⟩ := follows.keeps_source found
  exact mem_of_some found'

variable (later : ∀ current ∈ s.currentRevision, current.value < revision.value) (valid : Valid s)

include later valid

theorem Follows.valid_source (id : SourceVersionId) (entry : ResearchSourceEntry) (found : s'.sources[id]? = some entry) :
    entry.input.id = id ∧ s'.Past entry.recordedRevision := by
  cases follows.sourceOrigin found with
  | old before found input recorded =>
    obtain ⟨named, past⟩ := valid.source id before found
    rw [input, recorded]
    exact ⟨named, past.advance later follows.current⟩
  | new recorded named =>
    rw [recorded]
    exact ⟨named, past_now follows.current⟩

omit later in
theorem Follows.valid_superseded (id : SourceVersionId) (entry : ResearchSourceEntry) (found : s'.sources[id]? = some entry)
    (ended : entry.supersededRevision ≠ none) : nextVersion id ∈ s'.sources := by
  obtain ⟨_, before, step⟩ := step_from follows.source found
  cases step with
  | kept => exact follows.keeps_mem (valid.superseded id entry before ended)
  | superseded _ _ next => exact next
  | revoked entry => exact follows.keeps_mem (valid.superseded id entry before ended)
  | recorded => exact absurd rfl ended

/-- Versions are recorded in their order: a new one is after all others. -/
theorem Follows.valid_ordered (a b : SourceVersionId) (first second : ResearchSourceEntry) (found : s'.sources[a]? = some first)
    (found' : s'.sources[b]? = some second) (same : a.source = b.source) (less : a.version < b.version) :
    first.recordedRevision.value < second.recordedRevision.value := by
  cases follows.sourceOrigin found with
  | old before found input recorded =>
    rw [recorded]
    cases follows.sourceOrigin found' with
    | old before' found' input' recorded' =>
      rw [recorded']
      exact valid.ordered a b before before' found found' same less
    | new recorded' =>
      rw [recorded']
      obtain ⟨current, published, le⟩ := (valid.source a before found).2
      exact le.trans_lt (later current published)
  | new recorded named next =>
    cases follows.sourceOrigin found' with
    | old before' found' =>
      obtain ⟨latest, is_latest, le⟩ := le_latestVersion found'
      rw [same, is_latest, Option.getD_some] at next
      omega
    | new recorded' named' next' =>
      rw [same] at next
      omega

theorem Follows.valid_claim (id : RecordRef) (entry : ResearchClaimEntry) (found : s'.claims[id]? = some entry) :
    entry.input.id = id ∧ validateClaim s'.scope entry.input = .ok () ∧ s'.Past entry.recordedRevision ∧
      ∀ citation ∈ entry.input.citations, citation.source ∈ s'.sources := by
  rw [follows.scope]
  obtain ⟨_, before, step⟩ := step_from follows.claim found
  cases step with
  | kept =>
    obtain ⟨named, checked, past, cites⟩ := valid.claim id entry before
    exact ⟨named, checked, past.advance later follows.current, fun citation mem => follows.keeps_mem (cites citation mem)⟩
  | ended old =>
    obtain ⟨named, checked, past, cites⟩ := valid.claim id old before
    exact ⟨named, checked, past.advance later follows.current, fun citation mem => follows.keeps_mem (cites citation mem)⟩
  | recorded input named checked cites =>
    exact ⟨named, checked, past_now follows.current, fun citation mem => follows.keeps_mem (cites citation mem)⟩

theorem Follows.valid_edge (id : RecordRef) (entry : ResearchEdgeEntry) (found : s'.edges[id]? = some entry) :
    entry.input.id = id ∧ s'.Past entry.recordedRevision := by
  obtain ⟨_, before, step⟩ := step_from follows.edge found
  cases step with
  | kept =>
    obtain ⟨named, past⟩ := valid.edge id entry before
    exact ⟨named, past.advance later follows.current⟩
  | recorded input named => exact ⟨named, past_now follows.current⟩

theorem Follows.keeps_valid : Valid s' where
  source := follows.valid_source later valid
  superseded := follows.valid_superseded valid
  ordered := follows.valid_ordered later valid
  claim := follows.valid_claim later valid
  edge := follows.valid_edge later valid

end Follows

theorem valid_of_empty {s : ResearchState} (sources : s.sources = ∅) (claims : s.claims = ∅) (edges : s.edges = ∅) : Valid s := by
  constructor
  · intro id entry found
    simp [sources] at found
  · intro id entry found
    simp [sources] at found
  · intro a b first second found
    simp [sources] at found
  · intro id entry found
    simp [claims] at found
  · intro id entry found
    simp [edges] at found

theorem publishes_valid (valid : Valid s) (publishes : Publishes prepare currentRevision s revision s') : Valid s' := by
  obtain ⟨later, ⟨generation, -, rfl⟩ | follows⟩ := follows_of_publishes publishes
  · exact valid_of_empty rfl rfl rfl
  · exact follows.keeps_valid later valid

theorem Reached.valid (reached : Reached s) : Valid s := by
  obtain ⟨scope, history⟩ := reached
  exact history.keeps (valid_of_empty rfl rfl rfl) fun _ _ _ => publishes_valid

/-! ### Later states of a generation -/

structure SourceSince (revision : CommitRevision) (old new : ResearchSourceEntry) : Prop where
  input : new.input = old.input
  recorded : new.recordedRevision = old.recordedRevision
  superseded : Since revision old.supersededRevision new.supersededRevision
  revoked : Since revision old.revokedRevision new.revokedRevision

structure ClaimSince (revision : CommitRevision) (old new : ResearchClaimEntry) : Prop where
  input : new.input = old.input
  recorded : new.recordedRevision = old.recordedRevision
  status : new.status = old.status ∨ old.status = .active ∧ ∃ ended ∈ new.status.revision?, revision.value < ended.value

structure Extends (revision : CommitRevision) (s s' : ResearchState) : Prop where
  scope : s'.scope = s.scope
  retainedFrom : s'.retainedFrom = s.retainedFrom
  current : ∃ current ∈ s'.currentRevision, revision.value ≤ current.value
  source : ∀ (id : SourceVersionId) (old : ResearchSourceEntry), s.sources[id]? = some old →
    ∃ new, s'.sources[id]? = some new ∧ SourceSince revision old new
  newSource : ∀ (id : SourceVersionId) (new : ResearchSourceEntry), s'.sources[id]? = some new →
    id ∈ s.sources ∨ revision.value < new.recordedRevision.value
  claim : ∀ (id : RecordRef) (old : ResearchClaimEntry), s.claims[id]? = some old →
    ∃ new, s'.claims[id]? = some new ∧ ClaimSince revision old new
  newClaim : ∀ (id : RecordRef) (new : ResearchClaimEntry), s'.claims[id]? = some new →
    id ∈ s.claims ∨ revision.value < new.recordedRevision.value
  edge : ∀ (id : RecordRef) (old : ResearchEdgeEntry), s.edges[id]? = some old → s'.edges[id]? = some old
  newEdge : ∀ (id : RecordRef) (new : ResearchEdgeEntry), s'.edges[id]? = some new →
    id ∈ s.edges ∨ revision.value < new.recordedRevision.value

omit [Primitives] in
theorem Extends.refl (published : s.currentRevision = some revision) : Extends revision s s where
  scope := rfl
  retainedFrom := rfl
  current := ⟨revision, published, le_rfl⟩
  source := fun _ old found => ⟨old, found, rfl, rfl, .same _, .same _⟩
  newSource := fun _ _ found => .inl (mem_of_some found)
  claim := fun _ old found => ⟨old, found, rfl, rfl, .inl rfl⟩
  newClaim := fun _ _ found => .inl (mem_of_some found)
  edge := fun _ _ found => found
  newEdge := fun _ _ found => .inl (mem_of_some found)

section Extends

variable {t t' : ResearchState} {now : CommitRevision} (extending : Extends revision s t) (follows : Follows t now t')
  (valid : Valid t) (after : revision.value < now.value)

include extending follows

include valid after in
theorem Extends.step_source (id : SourceVersionId) (old : ResearchSourceEntry) (found : s.sources[id]? = some old) :
    ∃ new, t'.sources[id]? = some new ∧ SourceSince revision old new := by
  obtain ⟨mid, mid_found, since⟩ := extending.source id old found
  obtain ⟨_, new_found, step⟩ := step_to follows.source mid_found
  cases step with
  | kept => exact ⟨mid, new_found, since⟩
  | superseded _ latest =>
    refine ⟨_, new_found, since.input, since.recorded, since.superseded.mark ?_ after, since.revoked⟩
    -- the latest version has no next one, so that nothing superseded it yet
    by_contra ended
    obtain ⟨entry, next⟩ := mem_iff_exists.mp (valid.superseded id mid mid_found ended)
    obtain ⟨last, is_last, le⟩ := le_latestVersion next
    have is_last : t.latestVersion id.source = some last := is_last
    have le : id.version + 1 ≤ last := le
    rw [latest] at is_last
    cases is_last
    omega
  | revoked _ standing => exact ⟨_, new_found, since.input, since.recorded, since.superseded, since.revoked.mark standing after⟩

include after in
theorem Extends.step_newSource (id : SourceVersionId) (new : ResearchSourceEntry) (found : t'.sources[id]? = some new) :
    id ∈ s.sources ∨ revision.value < new.recordedRevision.value := by
  cases follows.sourceOrigin found with
  | old before found input recorded =>
    rw [recorded]
    exact extending.newSource id before found
  | new recorded =>
    rw [recorded]
    exact .inr after

include after in
theorem Extends.step_claim (id : RecordRef) (old : ResearchClaimEntry) (found : s.claims[id]? = some old) :
    ∃ new, t'.claims[id]? = some new ∧ ClaimSince revision old new := by
  obtain ⟨mid, mid_found, since⟩ := extending.claim id old found
  obtain ⟨_, new_found, step⟩ := step_to follows.claim mid_found
  cases step with
  | kept => exact ⟨mid, new_found, since⟩
  | ended _ terminal standing ended =>
    refine ⟨_, new_found, since.input, since.recorded, .inr ⟨?_, now, ended, after⟩⟩
    obtain same | ⟨active, -⟩ := since.status
    · rw [← same]
      exact standing
    · exact active

include after in
theorem Extends.step_newClaim (id : RecordRef) (new : ResearchClaimEntry) (found : t'.claims[id]? = some new) :
    id ∈ s.claims ∨ revision.value < new.recordedRevision.value := by
  obtain ⟨_, mid_found, step⟩ := step_from follows.claim found
  cases step with
  | kept => exact extending.newClaim id new mid_found
  | ended entry => exact extending.newClaim id entry mid_found
  | recorded => exact .inr after

theorem Extends.step_edge (id : RecordRef) (old : ResearchEdgeEntry) (found : s.edges[id]? = some old) :
    t'.edges[id]? = some old := by
  have mid_found := extending.edge id old found
  obtain ⟨_, new_found, step⟩ := step_to follows.edge mid_found
  cases step with
  | kept => exact new_found

include after in
theorem Extends.step_newEdge (id : RecordRef) (new : ResearchEdgeEntry) (found : t'.edges[id]? = some new) :
    id ∈ s.edges ∨ revision.value < new.recordedRevision.value := by
  obtain ⟨_, mid_found, step⟩ := step_from follows.edge found
  cases step with
  | kept => exact extending.newEdge id new mid_found
  | recorded => exact .inr after

include valid in
theorem Extends.step (later : ∀ current ∈ t.currentRevision, current.value < now.value) : Extends revision s t' := by
  obtain ⟨current, published, le⟩ := extending.current
  have after : revision.value < now.value := le.trans_lt (later current published)
  constructor
  · rw [follows.scope, extending.scope]
  · rw [follows.retainedFrom, extending.retainedFrom]
  · exact ⟨now, follows.current, after.le⟩
  · exact extending.step_source follows valid after
  · exact extending.step_newSource follows after
  · exact extending.step_claim follows after
  · exact extending.step_newClaim follows after
  · exact extending.step_edge follows
  · exact extending.step_newEdge follows after

end Extends

theorem extends_of_history (reached : Reached s) (history : History prepare currentRevision s s')
    (started : s.generation = some generation) (published : s.currentRevision = some revision) (same : s'.generation = s.generation) :
    Extends revision s s' ∧ (s.ready = true → s'.ready = true) := by
  refine history.within (Q := fun t => Extends revision s t ∧ (s.ready = true → t.ready = true)) reached.valid started
    ⟨.refl published, id⟩ (fun t now t' valid publishes => ⟨publishes_valid valid publishes, ?_⟩) same
  obtain ⟨later, ⟨next, succeeds, rfl⟩ | follows⟩ := follows_of_publishes publishes
  · exact .inl ⟨next, fun m found => by have := succeeds m found; omega, rfl⟩
  · refine .inr ⟨follows.generation, fun ⟨extending, ready⟩ => ?_⟩
    exact ⟨extending.step follows valid later, fun h => follows.ready (ready h)⟩

end Steps

end ResearchState

end Uste.Memory.Research
