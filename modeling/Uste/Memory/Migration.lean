import Uste.Memory.Identities
import Uste.Memory.Separation

/-!
When the plan of the mapping can be replayed. The mapping checks record by record; that no two
records of the plan share an identity, and that no record has too many edges, it does not check.
-/

namespace Uste.Memory.Research

open Types Crypto Policy Storage Txn Std List
open MemoryState (Change Follows Valid AdmitsSource AdmitsFact)

section

variable [Primitives]

def edgeId (link : RecordRef × RecordRef) : RecordRef := pilotLinkEdgeId link.1 link.2

/-- Identities that are apart, and records with room for their edges. -/
structure Replayable (s : MemoryState) : Prop where
  factApart : ∀ fact ∈ s.facts.keys, ∀ id ∈ s.sources.keys, id.source ≠ fact
  edgeApart : ∀ link ∈ links s, edgeId link ∉ s.facts ∧ ∀ id ∈ s.sources.keys, id.source ≠ edgeId link
  edgeOnce : ((links s).map edgeId).Nodup
  fanOut : ∀ fact ∈ s.facts.keys, (links s).countP (touches fact) ≤ researchProfile.maximumEdgesPerRecord

variable {s s' : MemoryState}

theorem Replayable.of_grown {more : List (RecordRef × RecordRef)} (replayable : Replayable s')
    (facts : ∀ id : RecordRef, id ∈ s.facts → id ∈ s'.facts) (sources : ∀ id : SourceVersionId, id ∈ s.sources → id ∈ s'.sources)
    (perm : (links s').Perm (links s ++ more)) : Replayable s := by
  have kept {link : RecordRef × RecordRef} (mem : link ∈ links s) : link ∈ links s' :=
    perm.mem_iff.mpr (mem_append_left _ mem)
  constructor
  · intro fact mem id listed
    exact replayable.factApart fact (ExtTreeMap.mem_keys.mpr (facts fact (ExtTreeMap.mem_keys.mp mem))) id
      (ExtTreeMap.mem_keys.mpr (sources id (ExtTreeMap.mem_keys.mp listed)))
  · intro link mem
    obtain ⟨fact, source⟩ := replayable.edgeApart link (kept mem)
    refine ⟨fun there => fact (facts _ there), ?_⟩
    intro id listed
    exact source id (ExtTreeMap.mem_keys.mpr (sources id (ExtTreeMap.mem_keys.mp listed)))
  · have once := (perm.map edgeId).nodup_iff.mp replayable.edgeOnce
    rw [map_append] at once
    exact (nodup_append.mp once).1
  · intro fact mem
    have count := replayable.fanOut fact (ExtTreeMap.mem_keys.mpr (facts fact (ExtTreeMap.mem_keys.mp mem)))
    rw [perm.countP_eq, countP_append] at count
    exact Nat.le_trans (Nat.le_add_right _ _) count

/-! ### Plans and replays in parts -/

variable {scope : NamespaceRef} {generation : Nat}

omit [Primitives] in
theorem replay_append (first second : List (CommitRevision × PilotMappedMutation))
    (r : ResearchState) : replay scope generation (first ++ second) r =
      (replay scope generation first r >>= replay scope generation second) := by
  induction first generalizing r with
  | nil => rfl
  | cons step rest ih =>
    show (r.apply _ _ _ >>= replay scope generation (rest ++ second)) = _
    show _ = ((r.apply _ _ _ >>= replay scope generation rest) >>= replay scope generation second)
    cases r.apply ⟨scope, generation, step.2.mutation⟩ step.2.inventory step.1 with
    | error e => rfl
    | ok r' => exact ih r'

variable {r : ResearchState}

omit [Primitives] in
theorem replay_cons {now : CommitRevision} {r' : ResearchState} (mapped : PilotMappedMutation)
    (steps : List (CommitRevision × PilotMappedMutation)) (same : r.scope = scope) (nonzero : generation ≠ 0)
    (ran : r.mutate ⟨scope, generation, mapped.mutation⟩ mapped.inventory now = .ok r') :
    replay scope generation ((now, mapped) :: steps) r = replay scope generation steps { r' with currentRevision := some now } := by
  rw [replay, apply_of_mutate same.symm nonzero ran]
  rfl

omit [Primitives] in
theorem requireGeneration_pos (current : r.generation = some generation) : r.requireGeneration generation = .ok () :=
  require_pos _ current

omit [Primitives] in
theorem plain_pos {α : Type} (current : r.generation = some generation) {next : Except ApplyError α} : (do
      r.requireGeneration generation
      requireNoInventory none
      next) = next := by
  rw [requireGeneration_pos current, ok_bind, requireNoInventory, require_pos _ rfl, ok_bind]

variable {context : PilotMappingContext}

theorem mapEvents_snoc {front : List TimedEvent} {last : TimedEvent}
    {mutations : List PilotMappedMutation} (h : mapEvents s context (front ++ [last]) = .ok mutations) :
    ∃ before after, mapEvents s context front = .ok before ∧ mapEvent s context last.event = .ok after ∧
      mutations = before ++ after := by
  induction front generalizing mutations with
  | nil =>
    obtain ⟨first, mapped, h⟩ := bind_ok h
    cases h
    exact ⟨[], first, rfl, mapped, append_nil _⟩
  | cons timed rest ih =>
    obtain ⟨first, mapped, others, planned, h⟩ := bind_ok₂ h
    cases h
    obtain ⟨before, after, ran, last, rfl⟩ := ih planned
    refine ⟨first ++ before, after, ?_, last, (append_assoc _ _ _).symm⟩
    unfold mapEvents
    rw [mapped, ok_bind, ran]
    rfl

theorem mapEvents_congr {items : List TimedEvent}
    (same : ∀ timed ∈ items, mapEvent s' context timed.event = mapEvent s context timed.event) :
    mapEvents s' context items = mapEvents s context items := by
  induction items with
  | nil => rfl
  | cons timed rest ih =>
    unfold mapEvents
    rw [same timed (by simp), ih fun other mem => same other (by simp [mem])]

theorem mapEvent_keeps {revision : CommitRevision} (valid : Valid s)
    (follows : Follows s revision s') {timed : TimedEvent} (mem : timed ∈ timeline s) :
    mapEvent s' context timed.event = mapEvent s context timed.event := by
  obtain ⟨recorded, event⟩ := timed
  cases event with
  | source => rfl
  | retract => rfl
  | revoke => rfl
  | fact input corrects =>
    have rests : s.RestsOn input := by
      rcases mem_append.mp (mem_timeline.mp mem) with mem | mem
      · simp [sourceEvents] at mem
      · obtain ⟨⟨id, record⟩, listed, mem⟩ := mem_flatMap.mp mem
        obtain ⟨-, -, rests, -⟩ := valid.fact id record (ExtTreeMap.mem_toList_iff_getElem?_eq_some.mp listed)
        unfold factEvents at mem
        rcases mem_cons.mp mem with same | mem
        · cases same
          exact rests
        · split at mem
          · cases mem_singleton.mp mem
          · cases mem
    obtain ⟨source, found, -⟩ := rests
    obtain ⟨source', found', input_eq, -⟩ := follows.keeps_source found
    have same : mapFact s' input corrects = mapFact s input corrects := by
      unfold mapFact
      rw [found, found', Option.bind_some, Option.bind_some, input_eq]
    unfold mapEvent
    dsimp only
    rw [same]

/-! ### The links of a state -/

variable {target : RecordRef} {prior : FactRecord}

omit [Primitives] in
theorem links_end {terminal : Option FactTerminal}
    (found : s.facts[target]? = some prior) (facts : s'.facts = s.facts.insert target { prior with terminal := terminal }) :
    (links s').Perm (links s) := by
  have gains : ((target, ({ prior with terminal := terminal } : FactRecord)).2.input.links.map fun link => (target, link)) =
      (s.facts[target]?.map fun old => (target, old).2.input.links.map fun link => (target, link)).getD [] ++ [] := by
    rw [found]
    exact (append_nil _).symm
  have perm := Totals.flatMap_insert (fun entry : RecordRef × FactRecord => entry.2.input.links.map fun link => (entry.1, link)) gains
  rw [append_nil] at perm
  unfold links
  rw [facts]
  exact perm

omit [Primitives] in
theorem links_put (s : MemoryState) {id : RecordRef} (record : FactRecord) (fresh : s.facts[id]? = none)
    (facts : s'.facts = s.facts.insert id record) :
    (links s').Perm (links s ++ record.input.links.map fun link => (id, link)) := by
  unfold links
  rw [facts]
  apply Totals.flatMap_insert
  rw [fresh]
  rfl

/-! ### One event -/

def Advances (s s' : MemoryState) (event : Event) : Prop :=
  ∀ (context : PilotMappingContext) (generation : Nat) (clock : Clock) (linked : List (RecordRef × RecordRef)) (r : ResearchState)
    (steps : List (CommitRevision × PilotMappedMutation)),
    generation ≠ 0 → Replayable s' → Tracks generation clock linked s r → linked.Perm (links s) →
    mapEvent s' context event = .ok (steps.map (·.2)) → (∀ current ∈ r.currentRevision, ∀ step ∈ steps, current.value < step.1.value) →
    (steps.Pairwise fun a b => a.1.value < b.1.value) →
    ∃ clock' linked' r', replay s.scope generation steps r = .ok r' ∧ Tracks generation clock' linked' s' r' ∧
      linked'.Perm (links s') ∧ ∀ current ∈ r'.currentRevision, current ∈ steps.map (·.1)

variable {s : MemoryState} {revision : CommitRevision} {event : Event}

section

variable (later : ∀ current ∈ s.currentRevision, current.value < revision.value)

include later

theorem advances_of_single {Q : PilotMappedMutation → Prop} (same : (links s').Perm (links s))
    (shape : ∀ context mutations, mapEvent s' context event = .ok mutations → ∃ mapped, mutations = [mapped] ∧ Q mapped)
    (ran : ∀ (generation : Nat) (clock : Clock) (linked : List (RecordRef × RecordRef)) (r : ResearchState) (now : CommitRevision)
      (mapped : PilotMappedMutation), Q mapped → Replayable s' → linked.Perm (links s) → (revision, now) ∈ clock →
      Tracks generation clock linked { s with currentRevision := some revision } { r with currentRevision := some now } →
      ∃ r', r.mutate ⟨s.scope, generation, mapped.mutation⟩ mapped.inventory now = .ok r' ∧
        Tracks generation clock linked s' { r' with currentRevision := some now }) : Advances s s' event := by
  intro context generation clock linked r steps nonzero replayable tracks all planned after ascending
  obtain ⟨mapped, single, property⟩ := shape context _ planned
  obtain ⟨⟨now, mapped⟩, rfl, rfl⟩ := map_eq_singleton_iff.mp single
  have ticked := tracks.tick later fun current found => after current found (now, mapped) (by simp)
  obtain ⟨r', ran, tracks'⟩ := ran generation _ linked r now mapped property replayable all (by simp) ticked
  refine ⟨_, linked, _, replay_cons _ [] tracks.scope nonzero ran, tracks', all.trans same.symm, ?_⟩
  intro current found
  cases found
  simp

theorem advances_retract (found : s.facts[target]? = some prior) (standing : prior.terminal = none) :
    Advances s { s with
      currentRevision := some revision
      facts := s.facts.insert target { prior with terminal := some (.retracted revision) } } (.retract target) := by
  apply advances_of_single (Q := fun mapped => mapped = ⟨.retractClaim target, none⟩) later
  · exact links_end found rfl
  · intro context mutations planned
    cases planned
    exact ⟨_, rfl, rfl⟩
  · rintro generation clock linked r now _ rfl - - tick tracks
    obtain ⟨r', ran, tracks'⟩ := tracks.endClaim found standing (.retracted tick)
    exact ⟨r', (plain_pos tracks.generation).trans ran, tracks'⟩

theorem advances_revoke {id : SourceVersionId} {prior : SourceVersionRecord} (found : s.sources[id]? = some prior)
    (standing : prior.revokedRevision = none) : Advances s { s with
      currentRevision := some revision
      sources := s.sources.insert id { prior with revokedRevision := some revision } } (.revoke id) := by
  apply advances_of_single (Q := fun mapped => mapped = ⟨.revokeSource id, none⟩) later
  · exact .refl _
  · intro context mutations planned
    cases planned
    exact ⟨_, rfl, rfl⟩
  · rintro generation clock linked r now _ rfl - - tick tracks
    obtain ⟨r', ran, tracks'⟩ := tracks.revokeSource found standing tick
    exact ⟨r', (plain_pos tracks.generation).trans ran, tracks'⟩

theorem advances_source {source : SourceVersionInput} {given : Option BlobInventory}
    {sources : ExtTreeMap SourceVersionId SourceVersionRecord} {logical : Nat} (admits : AdmitsSource s source given)
    (superseded : source.id.version = 1 ∧ sources = s.sources ∨ 1 < source.id.version ∧ ∃ record,
      s.sources[(⟨source.id.source, source.id.version - 1⟩ : SourceVersionId)]? = some record ∧
      sources = s.sources.insert ⟨source.id.source, source.id.version - 1⟩ { record with supersededRevision := some revision }) :
    Advances s { s with
      currentRevision := some revision
      sources := sources.insert source.id ⟨source, revision, none, none⟩
      sourceBytes := s.sourceBytes + source.blob.byteLen
      logicalBytes := logical } (.source source.id source) := by
  apply advances_of_single (Q := fun mapped => ∃ context, mapSource source.id source context = .ok mapped) later
  · exact .refl _
  · intro context mutations planned
    obtain ⟨mapped, ran, planned⟩ := bind_ok planned
    cases planned
    exact ⟨mapped, rfl, context, ran⟩
  · rintro generation clock linked r now mapped ⟨context, planned⟩ replayable all tick tracks
    obtain ⟨input, inventory, rfl, id, content, complete, scope, references⟩ := mapSource_ok planned
    have named : source.id ∈ (sources.insert source.id ⟨source, revision, none, none⟩).keys :=
      ExtTreeMap.mem_keys.mpr ExtTreeMap.mem_insert_self
    have free (first : r.latestVersion source.id.source = none) : r.occupied source.id.source = false := by
      apply tracks.free first
      · intro mem
        exact replayable.factApart _ (ExtTreeMap.mem_keys.mpr mem) _ named rfl
      · intro link mem same
        exact (replayable.edgeApart link (all.mem_iff.mp mem)).2 _ named same.symm
    have admits : AdmitsSource { s with currentRevision := some revision } source given :=
      ⟨admits.valid, admits.fresh, admits.room, admits.next, admits.bytes⟩
    obtain ⟨r', ran, tracks'⟩ := tracks.putSource admits superseded id content complete scope references free tick
    refine ⟨r', ?_, tracks'.logical logical⟩
    have current : r.requireGeneration generation = .ok () := requireGeneration_pos tracks.generation
    show (r.requireGeneration generation >>= fun _ => r.putSource input (some inventory) now) = .ok r'
    rw [current, ok_bind, ran]

end

variable {clock : Clock} {linked : List (RecordRef × RecordRef)}

/-- The edges of a fact, one after the other; `items` are the links that have none yet. -/
theorem replay_edges {fact : RecordRef} (nonzero : generation ≠ 0) (replayable : Replayable s)
    (stands : fact ∈ s.facts) (room : (links s).length ≤ researchProfile.maximumEdges) {items : List RecordRef}
    (there : ∀ link ∈ items, link ∈ s.facts ∧ fact ≠ link)
    {steps : List (CommitRevision × PilotMappedMutation)} (tracks : Tracks generation clock linked s r)
    (all : (linked ++ items.map fun link => (fact, link)).Perm (links s))
    (planned : steps.map (·.2) = items.map fun link => ⟨.put (.edge (linkEdge fact link)), none⟩)
    (after : ∀ current ∈ r.currentRevision, ∀ step ∈ steps, current.value < step.1.value)
    (ascending : steps.Pairwise fun a b => a.1.value < b.1.value) : ∃ r', replay s.scope generation steps r = .ok r' ∧
      Tracks generation clock (linked ++ items.map fun link => (fact, link)) s r' ∧
      ∀ current ∈ r'.currentRevision, current ∈ r.currentRevision ∨ current ∈ steps.map (·.1) := by
  induction items generalizing linked r steps with
  | nil =>
    obtain rfl := map_eq_nil_iff.mp planned
    refine ⟨r, rfl, ?_, fun _ found => .inl found⟩
    rw [map_nil, append_nil]
    exact tracks
  | cons link rest ih =>
    obtain ⟨⟨now, mapped⟩, steps, rfl, rfl, others⟩ := map_eq_cons_iff.mp planned
    obtain ⟨first, ascending⟩ := pairwise_cons.mp ascending
    obtain ⟨linksTo, apart⟩ := there link (by simp)
    have split : linked ++ (link :: rest).map (fun link => (fact, link)) =
        linked ++ [(fact, link)] ++ rest.map fun link => (fact, link) := by simp
    rw [split] at all
    have waits := tracks.wait fun current found => after current found _ mem_cons_self
    -- the edge is one of the links of the state, and no other link has its identity
    have listed : (fact, link) ∈ links s := all.mem_iff.mp (by simp)
    have free : r.occupied (pilotLinkEdgeId fact link) = false := by
      obtain ⟨fact_free, source_free⟩ := replayable.edgeApart _ listed
      apply tracks.free
      · apply tracks.latestVersion_none
        intro id mem
        exact source_free id (ExtTreeMap.mem_keys.mpr mem)
      · exact fact_free
      · intro other mem same
        have once := (all.map edgeId).nodup_iff.mpr replayable.edgeOnce
        rw [map_append, map_append] at once
        have once := (nodup_append.mp once).1
        exact (nodup_append.mp once).2.2 _ (mem_map_of_mem mem) (edgeId (fact, link)) (by simp) same
    have fanOut (record : RecordRef) (mem : record ∈ [fact, link]) :
        linked.countP (touches record) < researchProfile.maximumEdgesPerRecord := by
      have known : record ∈ s.facts := by
        rcases mem_cons.mp mem with rfl | mem
        · exact stands
        · obtain rfl := mem_singleton.mp mem
          exact linksTo
      have count := replayable.fanOut record (ExtTreeMap.mem_keys.mpr known)
      have touched : touches record (fact, link) = true := by
        unfold touches
        rcases mem_cons.mp mem with rfl | mem
        · simp
        · obtain rfl := mem_singleton.mp mem
          simp
      rw [← all.countP_eq, countP_append, countP_append, countP_singleton, if_pos touched] at count
      omega
    have few : linked.length < researchProfile.maximumEdges := by
      have lengths := all.length_eq
      simp only [length_append, length_singleton] at lengths
      omega
    obtain ⟨r₁, ran, tracks₁⟩ := waits.putEdge free stands linksTo apart few fanOut
    have put : r.mutate ⟨s.scope, generation, .put (.edge (linkEdge fact link))⟩ none now = .ok r₁ :=
      (plain_pos tracks.generation).trans ran
    obtain ⟨r', replayed, tracks', marks⟩ := ih (fun other mem => there other (by simp [mem])) tracks₁ all others
      (by
        intro current found step mem
        cases found
        exact first step mem) ascending
    refine ⟨r', ?_, ?_, ?_⟩
    · exact (replay_cons ⟨_, none⟩ steps tracks.scope nonzero put).trans replayed
    · rw [split]
      exact tracks'
    · intro current found
      rcases marks current found with found | mem
      · cases found
        exact .inr (by simp)
      · exact .inr (by simp [mem])

variable {fact : FactInput} {corrects : Option RecordRef}

/-- A fact, with what its correction does to the one before in `s₁`, and its edges. -/
theorem advances_fact (s₁ : MemoryState) (logical : Nat)
    (later : ∀ current ∈ s.currentRevision, current.value < revision.value) (admits : AdmitsFact s fact)
    (scope : s₁.scope = s.scope) (sources : s₁.sources = s.sources) (facts : ∀ id : RecordRef, id ∈ s₁.facts ↔ id ∈ s.facts)
    (same : (links s₁).Perm (links s))
    (room : (links { s₁ with facts := s₁.facts.insert fact.id ⟨fact, revision, corrects, none⟩ }).length ≤ researchProfile.maximumEdges)
    (superseding : ∀ (generation : Nat) (clock : Clock) (linked : List (RecordRef × RecordRef)) (r : ResearchState) (now : CommitRevision),
      (revision, now) ∈ clock →
      Tracks generation clock linked { s with currentRevision := some revision } { r with currentRevision := some now } →
      ∃ r₁, r.supersedeClaim corrects now = .ok r₁ ∧ Tracks generation clock linked s₁ { r₁ with currentRevision := some now }) :
    Advances s { s₁ with
      facts := s₁.facts.insert fact.id ⟨fact, revision, corrects, none⟩
      logicalBytes := logical } (.fact fact corrects) := by
  intro context generation clock linked r steps nonzero replayable tracks all planned after ascending
  obtain ⟨claim, mapped, planned⟩ := bind_ok planned
  obtain ⟨⟨now, _⟩, steps, rfl, rfl, edges⟩ := map_eq_cons_iff.mp (Except.ok.inj planned).symm
  obtain ⟨first, ascending⟩ := pairwise_cons.mp ascending
  have ticked := tracks.tick later fun current found => after current found _ mem_cons_self
  have fresh : s₁.facts[fact.id]? = none := by
    apply ExtTreeMap.getElem?_eq_none
    rw [facts]
    exact admits.fresh
  have named : fact.id ∈ (s₁.facts.insert fact.id ⟨fact, revision, corrects, none⟩).keys :=
    ExtTreeMap.mem_keys.mpr ExtTreeMap.mem_insert_self
  have grown : (links { s₁ with
      facts := s₁.facts.insert fact.id ⟨fact, revision, corrects, none⟩
      logicalBytes := logical }).Perm (links s₁ ++ fact.links.map fun link => (fact.id, link)) :=
    links_put s₁ ⟨fact, revision, corrects, none⟩ fresh rfl
  have whole := (List.Perm.append_right _ (all.trans same.symm)).trans grown.symm
  have free : r.occupied fact.id = false := by
    apply tracks.free
    · apply tracks.latestVersion_none
      intro id mem
      have mem : id ∈ s₁.sources := by
        rw [sources]
        exact mem
      exact replayable.factApart _ named id (ExtTreeMap.mem_keys.mpr mem)
    · exact admits.fresh
    · intro link mem taken
      have listed := whole.mem_iff.mp (mem_append_left _ mem)
      exact (replayable.edgeApart link listed).1 (by
        show pilotLinkEdgeId link.1 link.2 ∈ _
        rw [taken]
        exact ExtTreeMap.mem_insert_self)
  have tick : (revision, now) ∈ clock ++ [(revision, now)] := by simp
  obtain ⟨r₁, supersedes, superseded⟩ := superseding _ _ _ r now tick ticked
  obtain ⟨r₂, ran, tracks₂⟩ := ticked.putClaim (validateFact_ok admits.valid).1 admits.room mapped free tick supersedes superseded
  have put : r.mutate ⟨s.scope, generation, .put (.claim claim)⟩ none now = .ok r₂ := (plain_pos tracks.generation).trans ran
  have there (link : RecordRef) (mem : link ∈ fact.links) :
      link ∈ s₁.facts.insert fact.id ⟨fact, revision, corrects, none⟩ ∧ fact.id ≠ link := by
    have known : link ∈ s.facts := (validateFact_ok admits.valid).2 link mem
    constructor
    · exact ExtTreeMap.mem_insert.mpr (.inr ((facts link).mpr known))
    · rintro rfl
      exact admits.fresh known
  obtain ⟨r', replayed, tracks', marks⟩ := replay_edges nonzero replayable ExtTreeMap.mem_insert_self room there
    (tracks₂.logical logical) whole edges (by
      intro current found step mem
      cases found
      exact first step mem) ascending
  refine ⟨_, _, r', ?_, tracks', whole, ?_⟩
  · rw [replay_cons ⟨_, none⟩ steps tracks.scope nonzero put, ← scope]
    exact replayed
  · intro current found
    rcases marks current found with found | mem
    · cases found
      simp
    · simp [mem]

/-! ### The whole timeline -/

def opened (scope : NamespaceRef) (generation : Nat) (begun : CommitRevision) : ResearchState where
  scope := scope
  generation := some generation
  retainedFrom := some begun
  currentRevision := some begun

/-- The plan of a state can be replayed, and leads to its mirror. -/
structure Carried (s : MemoryState) : Prop where
  ordered : Ordered s
  replays : ∀ (context : PilotMappingContext) (generation : Nat) (begun : CommitRevision)
    (steps : List (CommitRevision × PilotMappedMutation)), generation ≠ 0 → Replayable s →
    mapEvents s context (timeline s) = .ok (steps.map (·.2)) →
    ((begun :: steps.map (·.1)).Pairwise fun a b => a.value < b.value) →
    ∃ clock linked r, replay s.scope generation steps (opened s.scope generation begun) = .ok r ∧
      Tracks generation clock linked s r ∧ linked.Perm (links s) ∧ ∀ current ∈ r.currentRevision, current ∈ begun :: steps.map (·.1)

theorem carried_of_empty (sources : s.sources = ∅) (facts : s.facts = ∅) (bytes : s.sourceBytes = 0) : Carried s := by
  have empty := timeline_of_empty sources facts
  constructor
  · constructor
    · rw [empty]
      exact .nil
    · intro timed mem
      rw [empty] at mem
      cases mem
  · intro context generation begun steps nonzero replayable planned ascending
    rw [empty] at planned
    obtain rfl := map_eq_nil_iff.mp (Except.ok.inj planned).symm
    refine ⟨[], [], opened s.scope generation begun, rfl, ?_, ?_, ?_⟩
    · exact {
        scope := rfl
        generation := rfl
        unready := rfl
        artifacts := rfl
        ascending := .nil
        ticked := nofun
        past := nofun
        numbered := by
          intro id mem
          simp [sources] at mem
        source := by
          rw [sources]
          simp [opened]
        claim := by
          rw [facts]
          simp [opened]
        edge := by simp [opened]
        fanOut := by
          simp [opened, ResearchState.fanOutOf]
        bytes := bytes.symm
        distinct := Nat.zero_le _ }
    · unfold links
      rw [facts]
      exact .refl _
    · intro current found
      cases found
      simp

theorem Carried.grow (carried : Carried s) (more : List (RecordRef × RecordRef)) (valid : Valid s)
    (follows : Follows s revision s') (later : ∀ current ∈ s.currentRevision, current.value < revision.value)
    (perm : (events s').Perm (events s ++ [⟨revision, event⟩])) (grown : (links s').Perm (links s ++ more))
    (facts : ∀ id : RecordRef, id ∈ s.facts → id ∈ s'.facts) (advances : Advances s s' event) : Carried s' := by
  obtain ⟨same, ordered⟩ := carried.ordered.grow perm later follows.current
  refine ⟨ordered, ?_⟩
  intro context generation begun steps nonzero replayable planned ascending
  rw [same] at planned
  obtain ⟨before, after, ran, last, split⟩ := mapEvents_snoc planned
  rw [mapEvents_congr fun timed mem => mapEvent_keeps valid follows mem] at ran
  obtain ⟨first, second, rfl, rfl, rfl⟩ := map_eq_append_iff.mp split
  rw [map_append, ← cons_append] at ascending
  obtain ⟨ascending, ascending', apart⟩ := pairwise_append.mp ascending
  obtain ⟨clock, linked, r, replayed, tracks, all, marks⟩ := carried.replays context generation begun first nonzero
    (replayable.of_grown facts (fun id mem => follows.keeps_mem mem) grown) ran ascending
  rw [pairwise_map] at ascending'
  obtain ⟨clock', linked', r', replayed', tracks', all', marks'⟩ := advances context generation clock linked r second nonzero replayable
    tracks all last (fun current found step mem => apart current (marks current found) step.1 (mem_map_of_mem mem)) ascending'
  refine ⟨clock', linked', r', ?_, tracks', all', ?_⟩
  · rw [follows.scope, replay_append, replayed]
    exact replayed'
  · intro current found
    have mem := marks' current found
    simp [map_append, mem]

theorem Carried.idle (carried : Carried s) (scope : s'.scope = s.scope) (sources : s'.sources = s.sources)
    (facts : s'.facts = s.facts) (bytes : s'.sourceBytes = s.sourceBytes)
    (later : ∀ current ∈ s.currentRevision, current.value < revision.value) (now : s'.currentRevision = some revision) :
    Carried s' := by
  obtain ⟨same, ordered⟩ := carried.ordered.idle sources facts later now
  have links_eq : links s' = links s := by
    unfold links
    rw [facts]
  refine ⟨ordered, ?_⟩
  intro context generation begun steps nonzero replayable planned ascending
  have unchanged : mapEvents s' context (timeline s) = mapEvents s context (timeline s) := by
    apply mapEvents_congr
    intro timed _
    unfold mapEvent mapFact
    rw [sources]
  rw [same, unchanged] at planned
  have before : Replayable s := by
    apply replayable.of_grown
    · rw [facts]
      exact fun _ mem => mem
    · rw [sources]
      exact fun _ mem => mem
    · rw [links_eq, append_nil]
  obtain ⟨clock, linked, r, replayed, tracks, all, marks⟩ := carried.replays context generation begun steps nonzero before planned ascending
  refine ⟨clock, linked, r, ?_, ?_, ?_, marks⟩
  · rw [scope]
    exact replayed
  · exact { tracks with
      scope := by rw [tracks.scope, scope]
      ticked := fun tick mem => (tracks.ticked tick mem).advance later now
      numbered := by
        rw [sources]
        exact tracks.numbered
      source := by
        rw [sources]
        exact tracks.source
      claim := by
        rw [facts]
        exact tracks.claim
      bytes := by rw [tracks.bytes, bytes] }
  · rw [links_eq]
    exact all

omit [Primitives] in
theorem length_links_le {facts : ExtTreeMap RecordRef FactRecord} (few : facts.size ≤ pilotProfile.maximumFacts)
    (bounded : ∀ (id : RecordRef) (record : FactRecord), facts[id]? = some record →
      record.input.links.length ≤ pilotProfile.maximumFactLinks) (s : MemoryState) (same : s.facts = facts) :
    (links s).length ≤ researchProfile.maximumEdges := by
  unfold links
  rw [length_flatMap, same]
  have each : ∀ n ∈ facts.toList.map fun entry => (entry.2.input.links.map fun link => (entry.1, link)).length,
      n ≤ pilotProfile.maximumFactLinks := by
    intro n mem
    obtain ⟨⟨id, record⟩, listed, rfl⟩ := mem_map.mp mem
    rw [length_map]
    exact bounded id record (ExtTreeMap.mem_toList_iff_getElem?_eq_some.mp listed)
  have total := sum_le_card_nsmul _ _ each
  rw [length_map, ExtTreeMap.length_toList] at total
  calc _ ≤ facts.size * pilotProfile.maximumFactLinks := total
    _ ≤ pilotProfile.maximumFacts * pilotProfile.maximumFactLinks := Nat.mul_le_mul_right _ few
    _ ≤ researchProfile.maximumEdges := by decide

theorem room_for_links {s₁ : MemoryState} (valid : Valid s)
    (admits : AdmitsFact s fact) (size : s₁.facts.size = s.facts.size)
    (kept : ∀ (id : RecordRef) (record : FactRecord), s₁.facts[id]? = some record →
      ∃ prior, s.facts[id]? = some prior ∧ record.input = prior.input) :
    (links { s₁ with facts := s₁.facts.insert fact.id ⟨fact, revision, corrects, none⟩ }).length ≤ researchProfile.maximumEdges := by
  apply length_links_le _ _ _ rfl
  · have grown : (s₁.facts.insert fact.id ⟨fact, revision, corrects, none⟩).size ≤ s₁.facts.size + 1 := ExtTreeMap.size_insert_le
    have room := admits.room
    exact Nat.le_trans grown (by omega)
  · intro id record found
    obtain ⟨-, rfl⟩ | ⟨-, found⟩ := some_insert.mp found
    · exact (MemoryState.boundedFact_of_validate admits.valid).1.links
    · obtain ⟨prior, found, same⟩ := kept id record found
      rw [same]
      exact (valid.fact id prior found).2.1.links

omit [Primitives] in
theorem links_of_facts (same : s'.facts = s.facts) : (links s').Perm (links s ++ []) := by
  unfold links
  rw [same, append_nil]

theorem Carried.step (carried : Carried s) (valid : Valid s) (change : Change s revision s')
    (later : ∀ current ∈ s.currentRevision, current.value < revision.value) : Carried s' := by
  obtain ⟨generation, -, rfl⟩ | follows := change.follows valid
  · exact carried_of_empty rfl rfl rfl
  cases change with
  | began next => exact carried_of_empty rfl rfl rfl
  | completed => exact carried.idle rfl rfl rfl rfl later rfl
  | @sourcePut source given sources logical admits superseded =>
    apply carried.grow [] valid follows later ?_ (links_of_facts rfl) (fun _ mem => mem) (advances_source later admits superseded)
    apply events_of_sources
    · rfl
    obtain ⟨-, rfl⟩ | ⟨more, record, found, rfl⟩ := superseded
    · apply Totals.flatMap_insert
      rw [ExtTreeMap.getElem?_eq_none admits.fresh]
      rfl
    · have fresh : (s.sources.insert ⟨source.id.source, source.id.version - 1⟩
          { record with supersededRevision := some revision })[source.id]? = none := by
        rw [getElem?_insert_ne, ExtTreeMap.getElem?_eq_none admits.fresh]
        intro same
        have version := congrArg SourceVersionId.version same
        simp only at version
        omega
      exact (Totals.flatMap_insert _ (by rw [fresh]; rfl)).trans ((sourceEvents_supersede found).append_right _)
  | @factPut fact logical admits =>
    have fresh := ExtTreeMap.getElem?_eq_none admits.fresh
    refine carried.grow _ valid follows later ?_ (links_put s ⟨fact, revision, none, none⟩ fresh rfl) (fun _ mem => ExtTreeMap.mem_insert.mpr (.inr mem))
      (advances_fact { s with currentRevision := some revision } logical later admits rfl rfl (fun _ => Iff.rfl) (.refl _) ?_ ?_)
    · apply events_of_facts
      · rfl
      · exact Totals.flatMap_insert _ (by rw [fresh]; rfl)
    · exact room_for_links valid admits rfl fun _ record found => ⟨record, found, rfl⟩
    · intro generation clock linked r now tick tracks
      exact ⟨r, rfl, tracks⟩
  | @corrected target prior fact logical admits found standing other =>
    have fresh : (s.facts.insert target { prior with terminal := some (.superseded revision) })[fact.id]? = none := by
      rw [getElem?_insert_ne (Ne.symm other), ExtTreeMap.getElem?_eq_none admits.fresh]
    have members (id : RecordRef) :
        id ∈ s.facts.insert target { prior with terminal := some (.superseded revision) } ↔ id ∈ s.facts :=
      mem_reinsert (mem_of_some found)
    refine carried.grow (fact.links.map fun link => (fact.id, link)) valid follows later ?_ ?_ ?_ (advances_fact { s with
      currentRevision := some revision
      facts := s.facts.insert target { prior with terminal := some (.superseded revision) } } logical later admits rfl rfl members
        (links_end found rfl) ?_ ?_)
    · apply events_of_facts
      · rfl
      · exact (Totals.flatMap_insert _ (by rw [fresh]; rfl)).trans ((factEvents_supersede found standing).append_right _)
    · apply (links_put { s with facts := s.facts.insert target { prior with terminal := some (.superseded revision) } }
        ⟨fact, revision, some target, none⟩ fresh rfl).trans
      exact (links_end found rfl).append_right _
    · intro id mem
      exact ExtTreeMap.mem_insert.mpr (.inr ((members id).mpr mem))
    · apply room_for_links valid admits
      · exact Totals.size_eq_of_mem_iff members
      · intro id record there
        obtain ⟨rfl, rfl⟩ | ⟨-, there⟩ := some_insert.mp there
        · exact ⟨prior, found, rfl⟩
        · exact ⟨record, there, rfl⟩
    · intro generation clock linked r now tick tracks
      exact tracks.endClaim found standing (.superseded tick)
  | @retracted target prior found standing =>
    have named := (valid.fact target prior found).1
    refine carried.grow [] valid follows later ?_ ?_ (fun _ mem => ExtTreeMap.mem_insert.mpr (.inr mem))
      (advances_retract later found standing)
    · apply events_of_facts
      · rfl
      · apply Totals.flatMap_insert
        rw [found]
        simp [factEvents, standing, named]
    · rw [append_nil]
      exact links_end found rfl
  | @revoked id prior found standing =>
    refine carried.grow [] valid follows later ?_ (links_of_facts rfl) (fun _ mem => mem) (advances_revoke later found standing)
    apply events_of_sources
    · rfl
    · apply Totals.flatMap_insert
      rw [found]
      simp [sourceEvents, standing]

theorem carried_of_reached (reached : s.Reached) : Carried s := by
  obtain ⟨scope, history⟩ := reached
  have both : Valid s ∧ Carried s := by
    apply history.keeps (P := fun s => Valid s ∧ Carried s)
    · exact ⟨MemoryState.valid_of_empty rfl rfl, carried_of_empty rfl rfl rfl⟩
    · intro s revision s' kept publishes
      obtain ⟨valid, carried⟩ := kept
      obtain ⟨later, change⟩ := MemoryState.change_of_publishes publishes
      exact ⟨MemoryState.publishes_valid valid publishes, carried.step valid change later⟩
  exact both.2

/-! ### Which plans can be replayed -/

theorem replayable_of_mirrors (separate : Separate r) (mirrors : Mirrors clock s r) : Replayable s := by
  have listed {link : RecordRef × RecordRef} (mem : link ∈ links s) : edgeId link ∈ r.edges := by
    have there := mirrors.edge.mem_iff.mpr (mem_map_of_mem mem)
    obtain ⟨⟨id, entry⟩, stored, same⟩ := mem_map.mp there
    have named : id = edgeId link := congrArg Prod.fst same
    rw [← named, ExtTreeMap.mem_iff_isSome_getElem?, ExtTreeMap.mem_toList_iff_getElem?_eq_some.mp stored]
    rfl
  have claimed {id : RecordRef} (mem : id ∈ s.facts) : id ∈ r.claims := (mem_iff_of_rel mirrors.claim id).mp mem
  have sourced {id : SourceVersionId} (mem : id ∈ s.sources.keys) : id ∈ r.sources :=
    (mem_iff_of_rel mirrors.source id).mp (ExtTreeMap.mem_keys.mp mem)
  constructor
  · intro fact mem id there
    exact separate.claim fact (claimed (ExtTreeMap.mem_keys.mp mem)) id (sourced there)
  · intro link mem
    obtain ⟨unclaimed, unsourced⟩ := separate.edge _ (listed mem)
    exact ⟨fun there => unclaimed (claimed there), fun id there => unsourced id (sourced there)⟩
  · have keys := mirrors.edge.map Prod.fst
    rw [map_map, map_map] at keys
    have nodup : (r.edges.toList.map fun entry => entry.1).Nodup := by
      apply pairwise_map.mpr
      apply (ExtTreeMap.distinct_keys_toList (t := r.edges)).imp
      intro a b different same
      exact different (same ▸ ReflOrd.compare_self)
    exact keys.nodup_iff.mp nodup
  · intro fact mem
    have count := mirrors.edge.countP_eq fun entry => touches fact (entry.2.fromRecord, entry.2.toRecord)
    rw [countP_map, countP_map] at count
    have within := separate.fanOut fact
    unfold edgesAt at within
    exact Nat.le_trans (Nat.le_of_eq count.symm) within

variable {begun : CommitRevision}

omit [Primitives] in
theorem opened_of_apply {target start : ResearchState}
    (h : target.apply ⟨scope, generation, .beginRebuild generation⟩ none begun = .ok start) :
    generation ≠ 0 ∧ start = opened scope generation begun := by
  obtain ⟨_, checked, h⟩ := bind_ok h
  obtain ⟨same, nonzero⟩ := require_ok.mp checked
  obtain ⟨after, ran, h⟩ := bind_ok h
  obtain ⟨_, -, ran⟩ := bind_ok ran
  cases ran
  cases h
  refine ⟨nonzero, ?_⟩
  have same : scope = target.scope := same
  rw [same]
  rfl

def planned (plan : PilotMapping) (revisions : List CommitRevision) : List (CommitRevision × PilotMappedMutation) :=
  revisions.zip (plan.mutations ++ [⟨.completeRebuild, none⟩])

omit [Primitives] in
theorem planned_eq {plan : PilotMapping} {revisions : List CommitRevision}
    (consecutive : revisions.map (·.value) = List.range' (begun.value + 1) (plan.mutations.length + 1)) :
    ∃ steps last, planned plan revisions = steps ++ [(last, ⟨.completeRebuild, none⟩)] ∧ steps.map (·.2) = plan.mutations ∧
      (begun :: steps.map (·.1)).Pairwise fun a b => a.value < b.value := by
  have count : revisions.length = plan.mutations.length + 1 := by
    have lengths := congrArg List.length consecutive
    rwa [length_map, length_range'] at lengths
  obtain ⟨front, last, rfl⟩ : ∃ front last, revisions = front ++ [last] := by
    rcases eq_nil_or_concat revisions with rfl | ⟨front, last, same⟩
    · cases count
    · exact ⟨front, last, by rw [same, concat_eq_append]⟩
  have size : front.length = plan.mutations.length := by
    rw [length_append] at count
    exact Nat.succ.inj count
  refine ⟨front.zip plan.mutations, last, ?_, ?_, ?_⟩
  · unfold planned
    rw [zip_append size]
    rfl
  · exact map_snd_zip (Nat.le_of_eq size.symm)
  · have firsts : (front.zip plan.mutations).map (·.1) = front := map_fst_zip (Nat.le_of_eq size)
    have values : ((begun :: (front ++ [last])).map (·.value)).Pairwise (· < ·) := by
      rw [map_cons, consecutive]
      exact pairwise_lt_range' (s := begun.value) (n := plan.mutations.length + 2) 1
    rw [firsts]
    rw [pairwise_map, ← cons_append] at values
    exact (pairwise_append.mp values).1

theorem complete_ok (tracks : Tracks generation clock linked s r) (nonzero : generation ≠ 0) (last : CommitRevision) :
    replay s.scope generation [(last, ⟨.completeRebuild, none⟩)] r = .ok { r with ready := true, currentRevision := some last } := by
  have completes : r.mutate ⟨s.scope, generation, .completeRebuild⟩ none last = .ok { r with ready := true } := by
    apply (plain_pos tracks.generation).trans
    rw [require_pos _ tracks.unready]
    rfl
  exact replay_cons ⟨_, none⟩ [] tracks.scope nonzero completes

/-- The plan of a ready state that transactions lead to is accepted, and rebuilds its lifecycle, exactly when
its identities are apart and no fact has too many links. -/
theorem mapped_plan_replays_iff {s : MemoryState} {context : PilotMappingContext} {plan : PilotMapping} {target start : ResearchState}
    {generation : Nat} {begun : CommitRevision} {revisions : List CommitRevision} (reached : s.Reached)
    (mapped : mapMemoryPilot s context = .ok plan)
    (began : target.apply ⟨s.scope, generation, .beginRebuild generation⟩ none begun = .ok start)
    (consecutive : revisions.map (·.value) = List.range' (begun.value + 1) (plan.mutations.length + 1)) :
    (∃ clock r, replay s.scope generation (planned plan revisions) start = .ok r ∧ r.ready = true ∧ Mirrors clock s r) ↔
      Replayable s := by
  obtain ⟨nonzero, rfl⟩ := opened_of_apply began
  obtain ⟨steps, last, split, mutations, ascending⟩ := planned_eq consecutive
  constructor
  · rintro ⟨clock, r, ran, -, mirrors⟩
    exact replayable_of_mirrors (ResearchState.replay_separate (ResearchState.separate_of_empty rfl rfl) ran) mirrors
  · intro replayable
    have events : mapEvents s context (timeline s) = .ok (steps.map (·.2)) := by
      obtain ⟨_, -, _, -, found, events, _, -, mapped⟩ := bind_ok₄ mapped
      cases mapped
      rw [mutations]
      exact events
    obtain ⟨clock, linked, r, ran, tracks, all, -⟩ :=
      (carried_of_reached reached).replays context generation begun steps nonzero replayable events ascending
    refine ⟨clock, { r with ready := true, currentRevision := some last }, ?_, rfl, ?_⟩
    · rw [split, replay_append, ran]
      exact complete_ok tracks nonzero last
    · obtain ⟨ascending, source, claim, edge⟩ := tracks.mirrors all
      exact ⟨ascending, source, claim, edge⟩

instance (s : MemoryState) : Decidable (Replayable s) :=
  decidable_of_iff ((∀ fact ∈ s.facts.keys, ∀ id ∈ s.sources.keys, id.source ≠ fact) ∧
      (∀ link ∈ links s, edgeId link ∉ s.facts ∧ ∀ id ∈ s.sources.keys, id.source ≠ edgeId link) ∧
      ((links s).map edgeId).Nodup ∧
      ∀ fact ∈ s.facts.keys, (links s).countP (touches fact) ≤ researchProfile.maximumEdgesPerRecord)
    ⟨fun h => ⟨h.1, h.2.1, h.2.2.1, h.2.2.2⟩, fun h => ⟨h.factApart, h.edgeApart, h.edgeOnce, h.fanOut⟩⟩

end

/-! ### A sample -/

section Sample

attribute [local instance] plainPrimitives

def sampleContext : PilotMappingContext := ⟨sampleInstant, Octets.zero 16⟩

def sampleRevisions : List CommitRevision :=
  [⟨2, by decide, by decide⟩, ⟨3, by decide, by decide⟩, ⟨4, by decide, by decide⟩, ⟨5, by decide, by decide⟩, ⟨6, by decide, by decide⟩,
    ⟨7, by decide, by decide⟩]

def sampleLinked := samplePublish
  [(sampleRequest 2 (.beginRebuild 2), none), sampleText, (sampleRequest 2 (.putFact (sampleFact 2)), none),
    (sampleRequest 2 (.correctFact (sampleRecord 2) (sampleFact 3)), none),
    (sampleRequest 2 (.putFact { sampleFact 4 with links := [sampleRecord 3] }), none), (sampleRequest 2 .completeRebuild, none)]

/-- A state with a fact under the identity of its source. -/
def sampleClash := samplePublish
  [(sampleRequest 2 (.beginRebuild 2), none), sampleText, (sampleRequest 2 (.putFact (sampleFact 1)), none),
    (sampleRequest 2 .completeRebuild, none)]

theorem sample_began : ({ scope := sampleScope } : ResearchState).apply ⟨sampleScope, 1, .beginRebuild 1⟩ none .first =
    .ok (opened sampleScope 1 .first) := rfl

theorem mapped_plan_replays_sample : ∃ (s : MemoryState) (plan : PilotMapping), s.Reached ∧
    mapMemoryPilot s sampleContext = .ok plan ∧ plan.mutations.length = 5 ∧
    ∃ clock r, replay s.scope 1 (planned plan sampleRevisions) (opened s.scope 1 .first) = .ok r ∧ r.ready = true ∧
      Mirrors clock s r := by
  have checks : (sampleLinked.toOption.any fun s => decide (s.scope = sampleScope) && decide (Replayable s) &&
      (mapMemoryPilot s sampleContext).toOption.any fun plan => decide (plan.mutations.length = 5)) = true := by
    decide +kernel
  obtain ⟨s, published, checks⟩ := exists_of_any checks
  simp only [Bool.and_eq_true, decide_eq_true_eq] at checks
  obtain ⟨⟨scope, replayable⟩, checks⟩ := checks
  obtain ⟨plan, mapped, count⟩ := exists_of_any checks
  have count := of_decide_eq_true count
  have reached := reached_of_samplePublish published
  refine ⟨s, plan, reached, mapped, count, ?_⟩
  apply (mapped_plan_replays_iff reached mapped (by rw [scope]; exact sample_began) ?_).mpr replayable
  rw [count]
  rfl

/-- The mapping gives a plan, and the claim of the fact is refused. -/
theorem clashing_plan_is_refused : ∃ (s : MemoryState) (plan : PilotMapping), s.Reached ∧ s.ready = true ∧
    mapMemoryPilot s sampleContext = .ok plan ∧
    (sampleRevisions.take 3).map (·.value) = List.range' (CommitRevision.first.value + 1) (plan.mutations.length + 1) ∧
    replay s.scope 1 (planned plan (sampleRevisions.take 3)) (opened s.scope 1 .first) = .error .conflict := by
  have checks : (sampleClash.toOption.any fun s => decide (s.ready = true) &&
      (mapMemoryPilot s sampleContext).toOption.any fun plan => decide (plan.mutations.length = 2) &&
        match replay s.scope 1 (planned plan (sampleRevisions.take 3)) (opened s.scope 1 .first) with
        | .error error => decide (error = .conflict)
        | .ok _ => false) = true := by
    decide +kernel
  obtain ⟨s, published, checks⟩ := exists_of_any checks
  simp only [Bool.and_eq_true, decide_eq_true_eq] at checks
  obtain ⟨ready, checks⟩ := checks
  obtain ⟨plan, mapped, checks⟩ := exists_of_any checks
  simp only [Bool.and_eq_true, decide_eq_true_eq] at checks
  obtain ⟨count, refused⟩ := checks
  refine ⟨s, plan, reached_of_samplePublish published, ready, mapped, ?_, ?_⟩
  · rw [count]
    rfl
  · split at refused
    · rename_i error ran
      rw [ran, of_decide_eq_true refused]
    · cases refused

end Sample

end Uste.Memory.Research
