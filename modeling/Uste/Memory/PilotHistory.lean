import Uste.Memory.PilotQuery
import Uste.Memory.Published

/-!
Runs of the memory pilot: what one published transaction can do, what every state keeps, and how a
later state extends an earlier one of its generation.
-/

namespace Uste.Memory

open Types Crypto Policy Storage Txn Std

namespace MemoryState

section Steps

variable [Primitives]

def prepare (s : MemoryState) (canonicalRequest : List UInt8) (inventory : Option BlobInventory) (revision : CommitRevision) :
    Except ApplyError MemoryState := do
  require (canonicalRequest.length ≤ pilotProfile.maximumRequestBytes) .resourceLimit
  let transaction ← (decodeTransaction canonicalRequest).mapError MemoryCodecError.apply
  s.apply transaction inventory revision

def Reached (s : MemoryState) : Prop := ∃ scope, History prepare currentRevision { scope := scope } s

structure AdmitsSource (s : MemoryState) (source : SourceVersionInput) (inventory : Option BlobInventory) : Prop where
  valid : validateSource source s.scope inventory = .ok ()
  fresh : source.id ∉ s.sources
  room : s.sources.size < pilotProfile.maximumSourceVersions
  next : s.expectedVersion source.id.source = .ok source.id.version
  bytes : s.sourceBytes + source.blob.byteLen ≤ pilotProfile.maximumSourceBytes

structure AdmitsFact (s : MemoryState) (fact : FactInput) : Prop where
  valid : s.validateFact fact = .ok ()
  fresh : fact.id ∉ s.facts
  room : s.facts.size < pilotProfile.maximumFacts

/-- What one transaction can do. -/
inductive Change (s : MemoryState) (revision : CommitRevision) : MemoryState → Prop where
  | began {generation : Nat} (next : ∀ current ∈ s.generation, current + 1 = generation) :
      Change s revision { scope := s.scope, generation := some generation, retainedFrom := some revision, currentRevision := some revision }
  | sourcePut {source : SourceVersionInput} {inventory : Option BlobInventory} {sources : ExtTreeMap SourceVersionId SourceVersionRecord}
      {logical : Nat} (admits : AdmitsSource s source inventory)
      (superseded : source.id.version = 1 ∧ sources = s.sources ∨ 1 < source.id.version ∧ ∃ record,
        s.sources[(⟨source.id.source, source.id.version - 1⟩ : SourceVersionId)]? = some record ∧
        sources = s.sources.insert ⟨source.id.source, source.id.version - 1⟩ { record with supersededRevision := some revision }) :
      Change s revision { s with
        currentRevision := some revision
        sources := sources.insert source.id ⟨source, revision, none, none⟩
        sourceBytes := s.sourceBytes + source.blob.byteLen
        logicalBytes := logical }
  | factPut {fact : FactInput} {logical : Nat} (admits : AdmitsFact s fact) :
      Change s revision { s with
        currentRevision := some revision
        facts := s.facts.insert fact.id ⟨fact, revision, none, none⟩
        logicalBytes := logical }
  | corrected {target : RecordRef} {prior : FactRecord} {fact : FactInput} {logical : Nat} (admits : AdmitsFact s fact)
      (found : s.facts[target]? = some prior) (standing : prior.terminal = none) (other : fact.id ≠ target) :
      Change s revision { s with
        currentRevision := some revision
        facts := (s.facts.insert target { prior with terminal := some (.superseded revision) }).insert fact.id
          ⟨fact, revision, some target, none⟩
        logicalBytes := logical }
  | retracted {target : RecordRef} {prior : FactRecord} (found : s.facts[target]? = some prior) (standing : prior.terminal = none) :
      Change s revision { s with
        currentRevision := some revision
        facts := s.facts.insert target { prior with terminal := some (.retracted revision) } }
  | revoked {id : SourceVersionId} {prior : SourceVersionRecord} (found : s.sources[id]? = some prior)
      (standing : prior.revokedRevision = none) :
      Change s revision { s with
        currentRevision := some revision
        sources := s.sources.insert id { prior with revokedRevision := some revision } }
  | completed (unready : s.ready = false) :
      Change s revision { s with currentRevision := some revision, ready := true }

/-! ### What a transaction does -/

variable {s s' : MemoryState} {revision : CommitRevision}

omit [Primitives] in
theorem chargeLogical_ok {added : Nat} (h : s.chargeLogical added = .ok s') : ∃ logical, s' = { s with logicalBytes := logical } := by
  obtain ⟨projected, -, _, -, h⟩ := bind_ok₂ h
  cases h
  exact ⟨projected, rfl⟩

variable {generation : Nat} {inventory : Option BlobInventory}

theorem beginRebuild_change {next : Nat} (h : s.beginRebuild generation next inventory revision = .ok s') :
    Change s revision { s' with currentRevision := some revision } := by
  obtain ⟨_, checked, h⟩ := bind_ok h
  cases h
  refine .began fun current found => ?_
  exact (checkedAdd_eq_some.mp ((require_ok.mp checked).2.2.2 current found)).2

variable {source : SourceVersionInput}

theorem putSource_change
    (h : s.putSource source inventory revision = .ok s') : Change s revision { s' with currentRevision := some revision } := by
  obtain ⟨_, valid, _, fresh, _, room, expected, next, h⟩ := bind_ok₄ h
  obtain ⟨_, named, bytes, sum, _, within, added, -, h⟩ := bind_ok₄ h
  obtain ⟨charged, charge, h⟩ := bind_ok h
  obtain ⟨logical, rfl⟩ := chargeLogical_ok charge
  obtain ⟨superseding, supersedes, h⟩ := bind_ok h
  cases h
  obtain ⟨-, rfl⟩ := checkedAdd_eq_some.mp (orError_ok.mp sum)
  have admits : AdmitsSource s source inventory :=
    ⟨valid, require_ok.mp fresh, require_ok.mp room, by rw [require_ok.mp named]; exact next, require_ok.mp within⟩
  unfold supersede at supersedes
  split at supersedes
  · rename_i later
    obtain ⟨record, found, supersedes⟩ := bind_ok supersedes
    cases supersedes
    exact .sourcePut admits (.inr ⟨later, record, orError_ok.mp found, rfl⟩)
  · cases supersedes
    have nonzero : source.id.version ≠ 0 := by
      obtain ⟨_, -, _, shape, -⟩ := bind_ok₂ valid
      exact (require_ok.mp shape).1
    exact .sourcePut admits (.inl ⟨by omega, rfl⟩)

variable {fact : FactInput}

theorem insertFact_change (h : s.insertFact fact none revision = .ok s') :
    Change s revision { s' with currentRevision := some revision } := by
  obtain ⟨_, valid, _, fresh, _, room, added, -, h⟩ := bind_ok₄ h
  obtain ⟨charged, charge, h⟩ := bind_ok h
  obtain ⟨logical, rfl⟩ := chargeLogical_ok charge
  cases h
  exact .factPut ⟨valid, require_ok.mp fresh, require_ok.mp room⟩

theorem correctFact_change {target : RecordRef} (h : s.correctFact target fact revision = .ok s') :
    Change s revision { s' with currentRevision := some revision } := by
  obtain ⟨_, -, prior, found, _, standing, _, valid, h⟩ := bind_ok₄ h
  obtain ⟨_, fresh, _, room, added, -, charged, charge, h⟩ := bind_ok₄ h
  obtain ⟨logical, rfl⟩ := chargeLogical_ok charge
  cases h
  exact .corrected ⟨valid, (require_ok.mp fresh).2, require_ok.mp room⟩ (orError_ok.mp found) (require_ok.mp standing)
    (require_ok.mp fresh).1

theorem apply_change {transaction : MemoryTransaction}
    (h : s.apply transaction inventory revision = .ok s') : Change s revision s' := by
  obtain ⟨_, -, h⟩ := bind_ok h
  split at h
  · obtain ⟨after, ran, h⟩ := bind_ok h
    cases h
    exact beginRebuild_change ran
  · obtain ⟨_, -, after, ran, h⟩ := bind_ok₂ h
    cases h
    exact putSource_change ran
  · obtain ⟨_, -, _, -, after, ran, h⟩ := bind_ok₃ h
    cases h
    exact insertFact_change ran
  · obtain ⟨_, -, _, -, after, ran, h⟩ := bind_ok₃ h
    cases h
    exact correctFact_change ran
  · obtain ⟨_, -, _, -, after, ran, h⟩ := bind_ok₃ h
    obtain ⟨_, -, prior, found, _, standing, ran⟩ := bind_ok₃ ran
    cases ran
    cases h
    exact .retracted (orError_ok.mp found) (require_ok.mp standing)
  · obtain ⟨_, -, _, -, after, ran, h⟩ := bind_ok₃ h
    obtain ⟨_, -, prior, found, _, standing, ran⟩ := bind_ok₃ ran
    cases ran
    cases h
    exact .revoked (orError_ok.mp found) (require_ok.mp standing)
  · obtain ⟨_, -, _, -, _, unready, h⟩ := bind_ok₃ h
    cases h
    exact .completed (require_ok.mp unready)

theorem change_of_publishes (h : Publishes prepare currentRevision s revision s') :
    (∀ current ∈ s.currentRevision, current.value < revision.value) ∧ Change s revision s' := by
  obtain ⟨request, inventory, later, prepared⟩ := h
  obtain ⟨_, -, transaction, -, prepared⟩ := bind_ok₂ prepared
  exact ⟨later, apply_change prepared⟩

/-! ### What every state keeps -/

structure SoundSource (source : SourceVersionInput) : Prop where
  bounded : ∀ text ∈ source.exactUtf8, Utf8.len text ≤ pilotProfile.maximumTextBytesPerVersion
  length : ∀ text ∈ source.exactUtf8, Utf8.len text = source.blob.byteLen
  digest : ∀ text ∈ source.exactUtf8, sha256 (Utf8.bytes text) = source.blob.contentDigest

structure BoundedFact (fact : FactInput) : Prop where
  subject : Utf8.len fact.subject ≤ pilotProfile.maximumFactFieldBytes
  predicate : Utf8.len fact.predicate ≤ pilotProfile.maximumFactFieldBytes
  value : Utf8.len fact.value ≤ pilotProfile.maximumFactFieldBytes
  links : fact.links.length ≤ pilotProfile.maximumFactLinks

/-- A fact rests on a source that is there, at a place that is in it. -/
def RestsOn (s : MemoryState) (fact : FactInput) : Prop :=
  ∃ source, s.sources[fact.source]? = some source ∧ validateLocator fact.locator source.input = .ok ()

def Past (s : MemoryState) (revision : CommitRevision) : Prop := ∃ current ∈ s.currentRevision, revision.value ≤ current.value

structure Valid (s : MemoryState) : Prop where
  source : ∀ (id : SourceVersionId) (source : SourceVersionRecord), s.sources[id]? = some source →
    source.input.id = id ∧ SoundSource source.input ∧ s.Past source.recordedRevision
  superseded : ∀ (id : SourceVersionId) (source : SourceVersionRecord), s.sources[id]? = some source →
    source.supersededRevision ≠ none → nextVersion id ∈ s.sources
  fact : ∀ (id : RecordRef) (fact : FactRecord), s.facts[id]? = some fact →
    fact.input.id = id ∧ BoundedFact fact.input ∧ s.RestsOn fact.input ∧ s.Past fact.recordedRevision

/-- What becomes of one source version, where `after` are the sources afterwards. -/
inductive SourceStep (after : ExtTreeMap SourceVersionId SourceVersionRecord) (revision : CommitRevision) (id : SourceVersionId) :
    Option SourceVersionRecord → Option SourceVersionRecord → Prop where
  | kept (record : Option SourceVersionRecord) : SourceStep after revision id record record
  | superseded (record : SourceVersionRecord) (standing : record.supersededRevision = none) (next : nextVersion id ∈ after) :
      SourceStep after revision id (some record) (some { record with supersededRevision := some revision })
  | revoked (record : SourceVersionRecord) (standing : record.revokedRevision = none) :
      SourceStep after revision id (some record) (some { record with revokedRevision := some revision })
  | recorded (input : SourceVersionInput) (named : input.id = id) (sound : SoundSource input) :
      SourceStep after revision id none (some ⟨input, revision, none, none⟩)

inductive FactStep (s : MemoryState) (revision : CommitRevision) (id : RecordRef) : Option FactRecord → Option FactRecord → Prop where
  | kept (record : Option FactRecord) : FactStep s revision id record record
  | ended (record : FactRecord) (terminal : FactTerminal) (standing : record.terminal = none) (now : terminal.revision = revision) :
      FactStep s revision id (some record) (some { record with terminal := some terminal })
  | recorded (input : FactInput) (corrects : Option RecordRef) (named : input.id = id) (bounded : BoundedFact input)
      (rests : s.RestsOn input) : FactStep s revision id none (some ⟨input, revision, corrects, none⟩)

/-- A transaction within a generation, record by record. -/
structure Follows (s : MemoryState) (revision : CommitRevision) (s' : MemoryState) : Prop where
  scope : s'.scope = s.scope
  generation : s'.generation = s.generation
  retainedFrom : s'.retainedFrom = s.retainedFrom
  ready : s.ready = true → s'.ready = true
  current : s'.currentRevision = some revision
  source : ∀ id : SourceVersionId, SourceStep s'.sources revision id s.sources[id]? s'.sources[id]?
  fact : ∀ id : RecordRef, FactStep s revision id s.facts[id]? s'.facts[id]?

variable {t : MemoryState}

omit [Primitives] in
theorem Past.advance {recorded : CommitRevision} (past : s.Past recorded)
    (later : ∀ current ∈ s.currentRevision, current.value < revision.value) (now : t.currentRevision = some revision) :
    t.Past recorded := by
  obtain ⟨current, found, le⟩ := past
  exact ⟨revision, now, le.trans (later current found).le⟩

omit [Primitives] in
theorem past_now (now : t.currentRevision = some revision) : t.Past revision := ⟨revision, now, le_rfl⟩

theorem soundSource_of_validate {scope : NamespaceRef}
    (h : validateSource source scope inventory = .ok ()) : SoundSource source := by
  obtain ⟨_, -, _, -, _, -, _, -, h⟩ := bind_ok₄ h
  split at h
  · rename_i text kept
    obtain ⟨bounded, length, digest⟩ := require_ok.mp h
    constructor
    all_goals
      intro other found
      obtain rfl : text = other := Option.some.inj (kept.symm.trans found)
      assumption
  · rename_i kept
    constructor
    all_goals
      intro text found
      rw [kept] at found
      cases found

omit [Primitives] in
theorem boundedFact_of_validate (h : s.validateFact fact = .ok ()) : BoundedFact fact ∧ s.RestsOn fact := by
  obtain ⟨_, -, _, -, _, fields, _, links, h⟩ := bind_ok₄ h
  obtain ⟨_, -, source, found, _, -, located⟩ := bind_ok₃ h
  have bounded (field : String) (mem : field ∈ [fact.subject, fact.predicate, fact.value]) :
      Utf8.len field ≤ pilotProfile.maximumFactFieldBytes := (require_ok.mp (forM_ok fields field mem)).2
  exact ⟨⟨bounded _ (by simp), bounded _ (by simp), bounded _ (by simp), require_ok.mp links⟩, source, orError_ok.mp found, located⟩

theorem sourcePut_steps (valid : Valid s)
    {sources : ExtTreeMap SourceVersionId SourceVersionRecord} (admits : AdmitsSource s source inventory)
    (superseded : source.id.version = 1 ∧ sources = s.sources ∨ 1 < source.id.version ∧ ∃ record,
      s.sources[(⟨source.id.source, source.id.version - 1⟩ : SourceVersionId)]? = some record ∧
      sources = s.sources.insert ⟨source.id.source, source.id.version - 1⟩ { record with supersededRevision := some revision })
    (id : SourceVersionId) :
    SourceStep (sources.insert source.id ⟨source, revision, none, none⟩) revision id s.sources[id]?
      (sources.insert source.id ⟨source, revision, none, none⟩)[id]? := by
  have fresh : s.sources[source.id]? = none := ExtTreeMap.getElem?_eq_none admits.fresh
  have recorded : SourceStep (sources.insert source.id ⟨source, revision, none, none⟩) revision source.id s.sources[source.id]?
      (some ⟨source, revision, none, none⟩) := by
    rw [fresh]
    exact .recorded source rfl (soundSource_of_validate admits.valid)
  obtain ⟨-, rfl⟩ | ⟨later, record, found, rfl⟩ := superseded
  · exact pointwise_insert (fun _ => .kept) recorded id
  · have next : nextVersion ⟨source.id.source, source.id.version - 1⟩ = source.id := by
      show (⟨source.id.source, source.id.version - 1 + 1⟩ : SourceVersionId) = source.id
      rw [Nat.sub_add_cancel (by omega)]
    -- the version before is the latest one, so that nothing superseded it yet
    have standing : record.supersededRevision = none := by
      by_contra ended
      have taken := valid.superseded _ record found ended
      rw [next] at taken
      exact admits.fresh taken
    refine pointwise_insert_two (fun _ => .kept) ?_ recorded id
    rw [found]
    apply SourceStep.superseded record standing
    rw [next]
    exact ExtTreeMap.mem_insert_self

/-- Within a generation every change goes record by record; otherwise a new one begins. -/
theorem Change.follows (valid : Valid s) (change : Change s revision s') :
    (∃ generation, (∀ current ∈ s.generation, current + 1 = generation) ∧
      s' = { scope := s.scope, generation := some generation, retainedFrom := some revision, currentRevision := some revision }) ∨
    Follows s revision s' := by
  cases change with
  | began next => exact .inl ⟨_, next, rfl⟩
  | sourcePut admits superseded =>
    exact .inr ⟨rfl, rfl, rfl, id, rfl, sourcePut_steps valid admits superseded, fun _ => .kept _⟩
  | @factPut fact logical admits =>
    obtain ⟨bounded, rests⟩ := boundedFact_of_validate admits.valid
    have recorded : FactStep s revision fact.id s.facts[fact.id]? (some ⟨fact, revision, none, none⟩) := by
      rw [ExtTreeMap.getElem?_eq_none admits.fresh]
      exact .recorded fact none rfl bounded rests
    exact .inr ⟨rfl, rfl, rfl, id, rfl, fun _ => .kept _, pointwise_insert (fun _ => .kept) recorded⟩
  | @corrected target prior fact logical admits found standing other =>
    obtain ⟨bounded, rests⟩ := boundedFact_of_validate admits.valid
    refine .inr ⟨rfl, rfl, rfl, id, rfl, fun _ => .kept _, pointwise_insert_two (fun _ => .kept) ?_ ?_⟩
    · rw [found]
      exact .ended prior _ standing rfl
    · rw [ExtTreeMap.getElem?_eq_none admits.fresh]
      exact .recorded fact (some target) rfl bounded rests
  | @retracted target prior found standing =>
    have ended : FactStep s revision target s.facts[target]? (some { prior with terminal := some (.retracted revision) }) := by
      rw [found]
      exact .ended prior _ standing rfl
    exact .inr ⟨rfl, rfl, rfl, id, rfl, fun _ => .kept _, pointwise_insert (fun _ => .kept) ended⟩
  | @revoked id prior found standing =>
    have revoked : SourceStep (s.sources.insert id { prior with revokedRevision := some revision }) revision id s.sources[id]?
        (some { prior with revokedRevision := some revision }) := by
      rw [found]
      exact .revoked prior standing
    exact .inr ⟨rfl, rfl, rfl, fun h => h, rfl, pointwise_insert (fun _ => .kept) revoked, fun _ => .kept _⟩
  | completed => exact .inr ⟨rfl, rfl, rfl, fun _ => rfl, rfl, fun _ => .kept _, fun _ => .kept _⟩

section Follows

variable (follows : Follows s revision s') (later : ∀ current ∈ s.currentRevision, current.value < revision.value)

include follows

omit later in
theorem Follows.keeps_source {id : SourceVersionId} {source : SourceVersionRecord} (found : s.sources[id]? = some source) :
    ∃ source', s'.sources[id]? = some source' ∧ source'.input = source.input ∧
      source'.recordedRevision = source.recordedRevision := by
  obtain ⟨_, after, step⟩ := step_to follows.source found
  cases step with
  | kept => exact ⟨source, after, rfl, rfl⟩
  | superseded => exact ⟨_, after, rfl, rfl⟩
  | revoked => exact ⟨_, after, rfl, rfl⟩

theorem Follows.rests {fact : FactInput} (rests : s.RestsOn fact) : s'.RestsOn fact := by
  obtain ⟨source, found, located⟩ := rests
  obtain ⟨source', found', input, -⟩ := follows.keeps_source found
  exact ⟨source', found', by rw [input]; exact located⟩

omit later in
theorem Follows.keeps_mem {id : SourceVersionId} (mem : id ∈ s.sources) : id ∈ s'.sources := by
  obtain ⟨source, found⟩ := mem_iff_exists.mp mem
  obtain ⟨source', found', -⟩ := follows.keeps_source found
  exact mem_of_some found'

include later

theorem Follows.valid (valid : Valid s) : Valid s' := by
  constructor
  · intro id source found
    obtain ⟨_, before, step⟩ := step_from follows.source found
    cases step with
    | kept =>
      obtain ⟨named, sound, past⟩ := valid.source id source before
      exact ⟨named, sound, past.advance later follows.current⟩
    | superseded record =>
      obtain ⟨named, sound, past⟩ := valid.source id record before
      exact ⟨named, sound, past.advance later follows.current⟩
    | revoked record =>
      obtain ⟨named, sound, past⟩ := valid.source id record before
      exact ⟨named, sound, past.advance later follows.current⟩
    | recorded input named sound => exact ⟨named, sound, past_now follows.current⟩
  · intro id source found ended
    obtain ⟨_, before, step⟩ := step_from follows.source found
    cases step with
    | kept => exact follows.keeps_mem (valid.superseded id source before ended)
    | superseded record _ next => exact next
    | revoked record => exact follows.keeps_mem (valid.superseded id record before ended)
    | recorded => exact absurd rfl ended
  · intro id fact found
    obtain ⟨_, before, step⟩ := step_from follows.fact found
    cases step with
    | kept =>
      obtain ⟨named, bounded, rests, past⟩ := valid.fact id fact before
      exact ⟨named, bounded, follows.rests rests, past.advance later follows.current⟩
    | ended record =>
      obtain ⟨named, bounded, rests, past⟩ := valid.fact id record before
      exact ⟨named, bounded, follows.rests rests, past.advance later follows.current⟩
    | recorded input corrects named bounded rests =>
      exact ⟨named, bounded, follows.rests rests, past_now follows.current⟩

end Follows

theorem valid_of_empty {s : MemoryState} (sources : s.sources = ∅) (facts : s.facts = ∅) : Valid s := by
  constructor
  · intro id source found
    simp [sources] at found
  · intro id source found
    simp [sources] at found
  · intro id fact found
    simp [facts] at found

theorem publishes_valid (valid : Valid s) (publishes : Publishes prepare currentRevision s revision s') : Valid s' := by
  obtain ⟨later, change⟩ := change_of_publishes publishes
  obtain ⟨generation, -, rfl⟩ | follows := change.follows valid
  · exact valid_of_empty rfl rfl
  · exact follows.valid later valid

theorem Reached.valid (reached : Reached s) : Valid s := by
  obtain ⟨scope, history⟩ := reached
  exact history.keeps (valid_of_empty rfl rfl) fun _ _ _ => publishes_valid

/-! ### Later states of a generation -/

structure SourceSince (revision : CommitRevision) (old new : SourceVersionRecord) : Prop where
  input : new.input = old.input
  recorded : new.recordedRevision = old.recordedRevision
  superseded : Since revision old.supersededRevision new.supersededRevision
  revoked : Since revision old.revokedRevision new.revokedRevision

structure FactSince (revision : CommitRevision) (old new : FactRecord) : Prop where
  input : new.input = old.input
  recorded : new.recordedRevision = old.recordedRevision
  corrects : new.corrects = old.corrects
  terminal : Since revision (old.terminal.map (·.revision)) (new.terminal.map (·.revision))

/-- A later state of the generation: what stood at the revision is still there, and the rest came after it. -/
structure Extends (revision : CommitRevision) (s s' : MemoryState) : Prop where
  scope : s'.scope = s.scope
  retainedFrom : s'.retainedFrom = s.retainedFrom
  current : ∃ current ∈ s'.currentRevision, revision.value ≤ current.value
  source : ∀ (id : SourceVersionId) (old : SourceVersionRecord), s.sources[id]? = some old →
    ∃ new, s'.sources[id]? = some new ∧ SourceSince revision old new
  newSource : ∀ (id : SourceVersionId) (new : SourceVersionRecord), s'.sources[id]? = some new →
    id ∈ s.sources ∨ revision.value < new.recordedRevision.value
  fact : ∀ (id : RecordRef) (old : FactRecord), s.facts[id]? = some old →
    ∃ new, s'.facts[id]? = some new ∧ FactSince revision old new
  newFact : ∀ (id : RecordRef) (new : FactRecord), s'.facts[id]? = some new →
    id ∈ s.facts ∨ revision.value < new.recordedRevision.value

omit [Primitives] in
theorem Extends.refl (published : s.currentRevision = some revision) : Extends revision s s where
  scope := rfl
  retainedFrom := rfl
  current := ⟨revision, published, le_rfl⟩
  source := fun _ old found => ⟨old, found, rfl, rfl, .same _, .same _⟩
  newSource := fun _ _ found => .inl (mem_of_some found)
  fact := fun _ old found => ⟨old, found, rfl, rfl, rfl, .same _⟩
  newFact := fun _ _ found => .inl (mem_of_some found)

theorem Extends.step {t' : MemoryState} {now : CommitRevision} (extending : Extends revision s t) (follows : Follows t now t')
    (later : ∀ current ∈ t.currentRevision, current.value < now.value) : Extends revision s t' := by
  obtain ⟨current, published, le⟩ := extending.current
  have after : revision.value < now.value := le.trans_lt (later current published)
  constructor
  · rw [follows.scope, extending.scope]
  · rw [follows.retainedFrom, extending.retainedFrom]
  · exact ⟨now, follows.current, after.le⟩
  · intro id old found
    obtain ⟨mid, mid_found, since⟩ := extending.source id old found
    obtain ⟨_, new_found, step⟩ := step_to follows.source mid_found
    cases step with
    | kept => exact ⟨mid, new_found, since⟩
    | superseded _ standing => exact ⟨_, new_found, since.input, since.recorded, since.superseded.mark standing after, since.revoked⟩
    | revoked _ standing => exact ⟨_, new_found, since.input, since.recorded, since.superseded, since.revoked.mark standing after⟩
  · intro id new found
    obtain ⟨_, mid_found, step⟩ := step_from follows.source found
    cases step with
    | kept => exact extending.newSource id new mid_found
    | superseded record => exact extending.newSource id record mid_found
    | revoked record => exact extending.newSource id record mid_found
    | recorded => exact .inr after
  · intro id old found
    obtain ⟨mid, mid_found, since⟩ := extending.fact id old found
    obtain ⟨_, new_found, step⟩ := step_to follows.fact mid_found
    cases step with
    | kept => exact ⟨mid, new_found, since⟩
    | ended _ terminal standing ended =>
      refine ⟨_, new_found, since.input, since.recorded, since.corrects, ?_⟩
      apply since.terminal.mark
      · rw [standing]
        rfl
      · show revision.value < terminal.revision.value
        rw [ended]
        exact after
  · intro id new found
    obtain ⟨_, mid_found, step⟩ := step_from follows.fact found
    cases step with
    | kept => exact extending.newFact id new mid_found
    | ended record => exact extending.newFact id record mid_found
    | recorded => exact .inr after

/-- A later state of the same generation extends the earlier one. -/
theorem extends_of_history (reached : Reached s) (history : History prepare currentRevision s s')
    (started : s.generation = some generation) (published : s.currentRevision = some revision) (same : s'.generation = s.generation) :
    Extends revision s s' ∧ (s.ready = true → s'.ready = true) := by
  refine history.within (Q := fun t => Extends revision s t ∧ (s.ready = true → t.ready = true)) reached.valid started
    ⟨.refl published, id⟩ (fun t now t' valid publishes => ⟨publishes_valid valid publishes, ?_⟩) same
  obtain ⟨later, change⟩ := change_of_publishes publishes
  obtain ⟨next, succeeds, rfl⟩ | follows := change.follows valid
  · exact .inl ⟨next, fun m found => by have := succeeds m found; omega, rfl⟩
  · refine .inr ⟨follows.generation, fun ⟨extending, ready⟩ => ?_⟩
    exact ⟨extending.step follows later, fun h => follows.ready (ready h)⟩

end Steps

end MemoryState

end Uste.Memory
