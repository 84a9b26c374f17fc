import Uste.Memory.Disclosure

/-!
The record identities that an answer shows. Every one of them is asked for before it is shown, but
for the predecessor that a correction names.
-/

namespace Uste.Memory

open Types Crypto Policy Storage Txn Std List

/-! ### Identities of the pilot's answers -/

def FactView.identities (view : FactView) : List RecordRef := view.id :: view.source.source :: view.links ++ view.corrects.toList

def Citation.identities (citation : Citation) : List RecordRef := [citation.fact, citation.source.source]

def MemoryReadOutput.identities : MemoryReadOutput → List RecordRef
  | .fact view => view.identities
  | .search results => results.facts.flatMap FactView.identities
  | .citation found => found.identities

namespace MemoryState

variable {s : MemoryState} {authorize : Authorize}

def Answers (s : MemoryState) (runtime : Nat) : Prop :=
  runtime = (s.currentRevision.map (·.value)).getD 0 ∧ (∃ generation, s.generation = some generation) ∧ s.ready = true

def Retains (s : MemoryState) (revision : CommitRevision) : Prop :=
  (∃ current ∈ s.currentRevision, revision.value ≤ current.value) ∧ ∃ start ∈ s.retainedFrom, start.value ≤ revision.value

/-- No fact that the caller can see corrects one that they may not read. -/
def PredecessorsReadable (s : MemoryState) (authorize : Authorize) : Prop :=
  ∀ revision id fact, s.Retains revision → s.Eligible revision authorize id fact →
    ∀ predecessor ∈ fact.corrects, authorize.mayRead predecessor = true

variable {revision : CommitRevision}

theorem resolveRevision_ok {knowledge : KnowledgeAt} (h : s.resolveRevision knowledge = .ok revision) :
    s.Retains revision := by
  obtain ⟨current, found, _, checked, h⟩ := bind_ok₂ h
  cases h
  obtain ⟨le, retained⟩ := require_ok.mp checked
  exact ⟨⟨current, orError_ok.mp found, le⟩, retained⟩

theorem resolveRevision_of_retains (retains : s.Retains revision) :
    s.resolveRevision (.revision revision) = .ok revision := by
  obtain ⟨⟨current, found, le⟩, start⟩ := retains
  unfold resolveRevision
  rw [found]
  simp only [orError, ok_bind]
  rw [require_pos _ ⟨le, start⟩]
  rfl

variable {runtime generation : Nat}

theorem ensureQueryable_ok (h : s.ensureQueryable runtime generation = .ok ()) : s.Answers runtime := by
  obtain ⟨_, fresh, _, named, ready⟩ := bind_ok₂ h
  exact ⟨require_ok.mp fresh, ⟨generation, require_ok.mp named⟩, require_ok.mp ready⟩

variable {fact : FactRecord} {id : RecordRef}

theorem view_readable [Primitives] (valid : Valid s)
    (eligible : s.Eligible revision authorize id fact) (corrects : ∀ predecessor ∈ fact.corrects, authorize.mayRead predecessor = true) :
    ∀ record ∈ (factView fact).identities, authorize.mayRead record = true := by
  obtain ⟨named, -⟩ := valid.fact id fact eligible.found
  intro record mem
  simp only [FactView.identities, factView, cons_append, mem_cons, mem_append, Option.mem_toList] at mem
  obtain rfl | rfl | link | predecessor := mem
  · rw [named]
    exact eligible.mayRead
  · exact eligible.mayReadSource
  · exact eligible.mayReadLinks record link
  · exact corrects record predecessor

theorem visitFacts_shows {maximumCandidates maximumResults maximumOutputBytes : Nat}
    {hits : FactRecord → Bool} {candidates : List RecordRef} {results : SearchResults}
    (h : s.visitFacts revision authorize maximumCandidates maximumResults maximumOutputBytes hits candidates = .ok results) :
    ∀ view ∈ results.facts, ∃ id fact, s.Eligible revision authorize id fact ∧ view = factView fact := by
  unfold visitFacts at h
  refine Loop.loop_collects SearchResults.facts rfl (fun id _ results goOn results' ran => ?_) h
  split at ran
  · cases ran
    exact .inl rfl
  · rename_i fact eligible
    obtain ⟨_, -, _, -, ran⟩ := bind_ok₂ ran
    split at ran
    · obtain ⟨bytes, -, ran⟩ := bind_ok ran
      split at ran <;> cases ran
      · exact .inl rfl
      · exact .inr ⟨_, ⟨id, fact, eligibleFact_iff.mp eligible, rfl⟩, rfl⟩
    · cases ran
      exact .inl rfl

theorem factViewBytes_ok [Primitives] (bounded : BoundedFact fact.input) :
    ∃ bytes, factViewBytes (factView fact) = .ok bytes ∧ bytes ≤ pilotProfile.maximumQueryOutputBytes := by
  have subject : Utf8.len fact.input.subject ≤ 4096 := bounded.subject
  have predicate : Utf8.len fact.input.predicate ≤ 4096 := bounded.predicate
  have value : Utf8.len fact.input.value ≤ 4096 := bounded.value
  have links : fact.input.links.length ≤ 8 := bounded.links
  have room : (192 + 3 * 4096 + 8 * 16 : Nat) < wordLimit := by decide
  refine ⟨192 + Utf8.len fact.input.subject + Utf8.len fact.input.predicate + Utf8.len fact.input.value +
    fact.input.links.length * 16, ?_, ?_⟩
  · unfold factViewBytes factView checkedAdd
    simp only []
    rw [if_pos (by omega)]
    simp only [Option.bind_eq_bind, Option.bind_some]
    rw [if_pos (by omega)]
    simp only [Option.bind_some]
    rw [if_pos (by omega)]
    simp only [Option.bind_some]
    rw [if_pos (by omega)]
    rfl
  · show _ ≤ 65536
    omega

theorem map_ok {ε α β : Type} {f : α → β} {x : Except ε α} {b : β} (h : f <$> x = .ok b) : ∃ a, x = .ok a ∧ f a = b := by
  cases x with
  | error => cases h
  | ok a => exact ⟨a, rfl, Except.ok.inj h⟩

variable {request : MemoryReadRequest} {output : MemoryReadOutput}

/-- Whatever an answer shows is of facts that are eligible at one revision. -/
theorem readAuthorized_shows (h : s.readAuthorized runtime request authorize = .ok output) :
    s.Answers runtime ∧ ∃ revision, s.Retains revision ∧ match output with
      | .fact view => ∃ id fact, s.Eligible revision authorize id fact ∧ view = factView fact
      | .search results => ∀ view ∈ results.facts, ∃ id fact, s.Eligible revision authorize id fact ∧ view = factView fact
      | .citation found => ∃ fact, s.Eligible revision authorize found.fact fact ∧ found.source = fact.input.source := by
  obtain ⟨_, queryable, h⟩ := bind_ok h
  refine ⟨ensureQueryable_ok queryable, ?_⟩
  cases request with
  | getFact generation id knowledge maximumOutputBytes =>
    obtain ⟨view, ran, rfl⟩ := map_ok h
    obtain ⟨_, -, revision, resolved, fact, eligible, _, -, ran⟩ := bind_ok₄ ran
    obtain ⟨_, -, ran⟩ := bind_ok ran
    cases ran
    exact ⟨revision, resolveRevision_ok resolved, id, fact, eligibleFact_iff.mp (orError_ok.mp eligible), rfl⟩
  | search scope generation terms knowledge eventTime maximumCandidates maximumResults maximumOutputBytes =>
    obtain ⟨results, ran, rfl⟩ := map_ok h
    obtain ⟨_, -, _, -, revision, resolved, ran⟩ := bind_ok₃ ran
    exact ⟨revision, resolveRevision_ok resolved, visitFacts_shows ran⟩
  | oneHop generation origin knowledge maximumCandidates maximumResults maximumOutputBytes =>
    obtain ⟨results, ran, rfl⟩ := map_ok h
    obtain ⟨_, -, revision, resolved, root, -, ran⟩ := bind_ok₃ ran
    exact ⟨revision, resolveRevision_ok resolved, visitFacts_shows ran⟩
  | resolveCitation generation id knowledge maximumOutputBytes =>
    obtain ⟨citation, ran, rfl⟩ := map_ok h
    obtain ⟨_, -, revision, resolved, fact, eligible, _, -, ran⟩ := bind_ok₄ ran
    obtain ⟨source, -, excerpt, -, _, -, ran⟩ := bind_ok₃ ran
    cases ran
    exact ⟨revision, resolveRevision_ok resolved, fact, eligibleFact_iff.mp (orError_ok.mp eligible), rfl⟩
  | unsupported => cases h

theorem readAuthorized_identities [Primitives] (valid : Valid s)
    (readable : s.Answers runtime → s.PredecessorsReadable authorize)
    (h : s.readAuthorized runtime request authorize = .ok output) : ∀ id ∈ output.identities, authorize.mayRead id = true := by
  obtain ⟨answers, revision, retains, shows⟩ := readAuthorized_shows h
  have shown {id : RecordRef} {fact : FactRecord} (eligible : s.Eligible revision authorize id fact) :
      ∀ record ∈ (factView fact).identities, authorize.mayRead record = true :=
    view_readable valid eligible (readable answers revision id fact retains eligible)
  intro record mem
  cases output with
  | fact view =>
    obtain ⟨id, fact, eligible, rfl⟩ := shows
    exact shown eligible record mem
  | search results =>
    obtain ⟨view, there, mem⟩ := mem_flatMap.mp mem
    obtain ⟨id, fact, eligible, rfl⟩ := shows view there
    exact shown eligible record mem
  | citation found =>
    obtain ⟨fact, eligible, source⟩ := shows
    simp only [MemoryReadOutput.identities, Citation.identities, mem_cons, not_mem_nil, or_false] at mem
    obtain rfl | rfl := mem
    · exact eligible.mayRead
    · rw [source]
      exact eligible.mayReadSource

theorem getFact_answers [Primitives] (valid : Valid s)
    (answers : s.Answers runtime) (named : s.generation = some generation) (retains : s.Retains revision)
    (eligible : s.Eligible revision authorize id fact) :
    s.readAuthorized runtime (.getFact generation id (.revision revision) pilotProfile.maximumQueryOutputBytes) authorize =
      .ok (.fact (factView fact)) := by
  obtain ⟨-, bounded, -⟩ := valid.fact id fact eligible.found
  obtain ⟨bytes, size, fits⟩ := factViewBytes_ok bounded
  have queryable : s.ensureQueryable runtime generation = .ok () := by
    unfold ensureQueryable
    rw [require_pos _ answers.1, require_pos _ named, require_pos _ answers.2.2]
    rfl
  have answer : s.getFact id (.revision revision) pilotProfile.maximumQueryOutputBytes authorize = .ok (factView fact) := by
    unfold getFact checkOutputLimit
    rw [require_pos _ ⟨by decide, le_rfl⟩, resolveRevision_of_retains retains]
    simp only [ok_bind, eligibleFact_iff.mpr eligible, orError, size, require_pos _ fits]
    rfl
  show (s.ensureQueryable runtime generation >>= fun _ => MemoryReadOutput.fact <$> s.getFact id _ _ authorize) = _
  rw [queryable, answer]
  rfl

theorem identities_readable_iff [Primitives] (valid : Valid s) (runtime : Nat) :
    (∀ request output, request.Granted authorize → s.readAuthorized runtime request authorize = .ok output →
      ∀ id ∈ output.identities, authorize.mayRead id = true) ↔
    (s.Answers runtime → s.PredecessorsReadable authorize) := by
  constructor
  · intro safe answers revision id fact retains eligible predecessor corrects
    obtain ⟨generation, named⟩ := answers.2.1
    apply safe _ _ ?_ (getFact_answers valid answers named retains eligible) predecessor
    · simp only [MemoryReadOutput.identities, FactView.identities, factView, mem_append, Option.mem_toList]
      exact .inr corrects
    · refine ⟨[⟨.readRecord, .record id⟩], rfl, fun requirement mem => ?_⟩
      cases mem_singleton.mp mem
      exact eligible.mayRead
  · intro readable request output _ h
    exact readAuthorized_identities valid readable h

end MemoryState

/-! ### Identities of research answers -/

namespace Research

def ClaimView.identities (view : ClaimView) : List RecordRef :=
  view.id :: view.corrects.toList ++ view.citations.map (·.source.source)

def EdgeInput.identities (edge : EdgeInput) : List RecordRef := [edge.id, edge.fromRecord, edge.toRecord, edge.assertedBy]

def ResearchReadOutput.identities : ResearchReadOutput → List RecordRef
  | .claim view => view.identities
  | .sourceVersion view => [view.id.source]
  | .sourceVersions results => results.items.map (·.id.source)
  | .edges results => results.items.flatMap EdgeInput.identities
  | .search results => results.items.flatMap ClaimView.identities

theorem boundedText_ok {value : String} {maximum : Nat} {allowEmpty : Bool} (h : boundedText value maximum allowEmpty = .ok ()) :
    Utf8.len value ≤ maximum := by
  obtain ⟨_, bounded, -⟩ := bind_ok h
  exact require_ok.mp bounded

variable {scope : NamespaceRef}

theorem validateCitations_bounded [Primitives] {earlier citations : List CitationInput}
    (h : validateCitations scope earlier citations = .ok ()) :
    ∀ citation ∈ citations, ∀ excerpt ∈ citation.excerpt, Utf8.len excerpt ≤ researchProfile.maximumExcerptBytes := by
  induction citations generalizing earlier with
  | nil => exact nofun
  | cons citation rest ih =>
    obtain ⟨_, -, _, -, _, kept, _, -, h⟩ := bind_ok₄ h
    intro other mem excerpt quotes
    obtain rfl | mem := mem_cons.mp mem
    · rw [quotes] at kept
      obtain ⟨_, bounded, -⟩ := bind_ok kept
      exact boundedText_ok bounded
    · exact ih h other mem excerpt quotes

structure BoundedClaim (claim : ClaimInput) : Prop where
  subject : Utf8.len claim.subject ≤ researchProfile.maximumClaimFieldBytes
  predicate : Utf8.len claim.predicate ≤ researchProfile.maximumClaimFieldBytes
  value : Utf8.len claim.value ≤ researchProfile.maximumClaimFieldBytes
  citations : claim.citations.length ≤ researchProfile.maximumCitationsPerClaim
  excerpt : ∀ citation ∈ claim.citations, ∀ excerpt ∈ citation.excerpt, Utf8.len excerpt ≤ researchProfile.maximumExcerptBytes

theorem boundedClaim_of_validate [Primitives] {claim : ClaimInput} (h : validateClaim scope claim = .ok ()) :
    BoundedClaim claim := by
  obtain ⟨_, -, _, subject, _, predicate, _, value, h⟩ := bind_ok₄ h
  obtain ⟨_, count, _, -, _, citations, -⟩ := bind_ok₃ h
  exact ⟨boundedText_ok subject, boundedText_ok predicate, boundedText_ok value, require_ok.mp count,
    validateCitations_bounded citations⟩

namespace ResearchState

variable {s : ResearchState} {authorize : Authorize}

def Answers (s : ResearchState) (runtime : Nat) : Prop :=
  runtime = (s.currentRevision.map (·.value)).getD 0 ∧ (∃ generation, s.generation = some generation) ∧ s.ready = true

def Retains (s : ResearchState) (revision : CommitRevision) : Prop :=
  (∃ current ∈ s.currentRevision, revision.value ≤ current.value) ∧ ∃ start ∈ s.retainedFrom, start.value ≤ revision.value

def PredecessorsReadable (s : ResearchState) (authorize : Authorize) : Prop :=
  ∀ (revision : CommitRevision) (id : RecordRef) (entry : ResearchClaimEntry), s.Retains revision → s.claims[id]? = some entry →
    entry.recordedRevision.value ≤ revision.value → authorize.mayRead id = true →
    ∀ predecessor ∈ entry.input.corrects, authorize.mayRead predecessor = true

variable {revision : CommitRevision} {knowledge : KnowledgeAt}

theorem resolve_ok (h : s.resolve knowledge = .ok revision) : s.Retains revision := by
  obtain ⟨current, found, _, checked, h⟩ := bind_ok₂ h
  cases h
  obtain ⟨le, retained⟩ := require_ok.mp checked
  exact ⟨⟨current, orError_ok.mp found, le⟩, retained⟩

theorem resolve_of_retains (retains : s.Retains revision) : s.resolve (.revision revision) = .ok revision := by
  obtain ⟨⟨current, found, le⟩, start⟩ := retains
  unfold resolve
  rw [found]
  simp only [orError, ok_bind]
  rw [require_pos _ ⟨le, start⟩]
  rfl

variable {runtime generation : Nat}

theorem ensureQueryable_ok (h : s.ensureQueryable runtime generation = .ok ()) : s.Answers runtime := by
  obtain ⟨_, current, ready⟩ := bind_ok h
  obtain ⟨_, fresh, named⟩ := bind_ok current
  exact ⟨require_ok.mp fresh, ⟨generation, require_ok.mp named⟩, require_ok.mp ready⟩

variable {entry : ResearchClaimEntry} {id : RecordRef}

theorem visibleClaim_iff : s.visibleClaim id revision authorize = some entry ↔
    s.claims[id]? = some entry ∧ entry.recordedRevision.value ≤ revision.value ∧ authorize.mayRead id = true := by
  unfold visibleClaim
  constructor
  · intro h
    obtain ⟨found, claim, h⟩ := Option.bind_eq_some_iff.mp h
    obtain ⟨_, checked, h⟩ := Option.bind_eq_some_iff.mp h
    cases h
    exact ⟨claim, (Option.guard_eq_some' ..).mp checked⟩
  · rintro ⟨found, visible⟩
    simp only [found, Option.bind_eq_bind, Option.bind_some]
    rw [guard, if_pos visible]
    rfl

variable {evaluatedAt : Time.UtcInstant}

theorem citationView_some {citation : CitationInput} {view : CitationView}
    (h : s.citationView evaluatedAt authorize citation = some view) :
    view.source = citation.source ∧ authorize.mayRead citation.source.source = true ∧ ∀ excerpt ∈ view.excerpt, citation.excerpt = some excerpt := by
  obtain ⟨_, checked, h⟩ := Option.bind_eq_some_iff.mp h
  obtain ⟨source, found, h⟩ := Option.bind_eq_some_iff.mp h
  cases h
  refine ⟨rfl, (Option.guard_eq_some' ..).mp checked, fun excerpt shown => ?_⟩
  split at shown
  · cases shown
  · exact shown

theorem claimView_readable (mayRead : authorize.mayRead entry.input.id = true)
    (corrects : ∀ predecessor ∈ entry.input.corrects, authorize.mayRead predecessor = true) :
    ∀ record ∈ (s.claimView entry revision evaluatedAt authorize).identities, authorize.mayRead record = true := by
  intro record mem
  simp only [ClaimView.identities, claimView, cons_append, mem_cons, mem_append, Option.mem_toList, mem_map,
    mem_filterMap] at mem
  obtain rfl | predecessor | ⟨view, ⟨citation, -, shown⟩, rfl⟩ := mem
  · exact mayRead
  · exact corrects record predecessor
  · obtain ⟨source, mayRead, -⟩ := citationView_some shown
    rw [source]
    exact mayRead

theorem claimViewBytes_le (s : ResearchState) (authorize : Authorize) (bounded : BoundedClaim entry.input)
    (revision : CommitRevision) (evaluatedAt : Time.UtcInstant) :
    claimViewBytes (s.claimView entry revision evaluatedAt authorize) ≤ researchProfile.maximumQueryOutputBytes := by
  have subject : Utf8.len entry.input.subject ≤ 4096 := bounded.subject
  have predicate : Utf8.len entry.input.predicate ≤ 4096 := bounded.predicate
  have value : Utf8.len entry.input.value ≤ 4096 := bounded.value
  have citations : entry.input.citations.length ≤ 16 := bounded.citations
  have each : ∀ size ∈ (s.claimView entry revision evaluatedAt authorize).citations.map
      (fun citation => 64 + (citation.excerpt.map Utf8.len).getD 0), size ≤ 4160 := by
    intro size mem
    obtain ⟨view, there, rfl⟩ := mem_map.mp mem
    obtain ⟨citation, cited, shown⟩ := mem_filterMap.mp there
    obtain ⟨-, -, excerpt⟩ := citationView_some shown
    cases quoted : view.excerpt with
    | none => simp
    | some text =>
      have fits : Utf8.len text ≤ 4096 := bounded.excerpt citation cited text (excerpt text quoted)
      show 64 + Utf8.len text ≤ 4160
      omega
  have sum := sum_le_card_nsmul _ _ each
  have count : (s.claimView entry revision evaluatedAt authorize).citations.length ≤ 16 :=
    (length_filterMap_le _ _).trans citations
  rw [length_map, nsmul_eq_mul] at sum
  have sum : _ ≤ (s.claimView entry revision evaluatedAt authorize).citations.length * 4160 := sum
  show Utf8.len entry.input.subject + Utf8.len entry.input.predicate + Utf8.len entry.input.value + _ + 128 ≤ 1048576
  omega

def Views (s : ResearchState) (revision : CommitRevision) (evaluatedAt : Time.UtcInstant) (authorize : Authorize) (view : ClaimView) : Prop :=
  ∃ (id : RecordRef) (entry : ResearchClaimEntry), s.claims[id]? = some entry ∧ entry.recordedRevision.value ≤ revision.value ∧
    authorize.mayRead entry.input.id = true ∧ view = s.claimView entry revision evaluatedAt authorize

variable {maximumResults maximumCandidates : Nat}

theorem visitClaims_shows {terms : List String} {maximumOutputBytes : Nat} {progress : SearchProgress}
    (h : s.visitClaims terms revision evaluatedAt authorize maximumCandidates maximumResults maximumOutputBytes = .ok progress) :
    ∀ view ∈ progress.results.items, s.Views revision evaluatedAt authorize view := by
  unfold visitClaims at h
  refine Loop.loop_collects (·.results.items) rfl (fun candidate there progress goOn progress' ran => ?_) h
  split at ran
  · cases ran
    exact .inl rfl
  · rename_i view shown
    obtain ⟨visible, rfl⟩ := Option.ite_some_none_eq_some.mp shown
    unfold collectClaim at ran
    dsimp only at ran
    split at ran
    · cases ran
      exact .inl rfl
    · split at ran
      · split at ran <;> cases ran
        · exact .inl rfl
        · exact .inr ⟨_, ⟨candidate.1, candidate.2, ExtTreeMap.mem_toList_iff_getElem?_eq_some.mp there, visible.1,
            visible.2.2, rfl⟩, rfl⟩
      · cases ran
        exact .inl rfl

theorem visitEdges_shows {fromRecord : RecordRef} {kind : Option EdgeKind} {results : ResearchReadResults EdgeInput}
    (h : s.visitEdges fromRecord kind revision authorize maximumCandidates maximumResults = .ok results) :
    ∀ edge ∈ results.items, edge.fromRecord = fromRecord ∧ authorize.mayRead edge.id = true ∧
      authorize.mayRead edge.toRecord = true ∧ authorize.mayRead edge.assertedBy = true := by
  unfold visitEdges at h
  refine Loop.loop_collects ResearchReadResults.items rfl (fun candidate _ results goOn results' ran => ?_) h
  split at ran
  · cases ran
    exact .inl rfl
  · rename_i edge shown
    obtain ⟨visible, rfl⟩ := Option.ite_some_none_eq_some.mp shown
    unfold collectEdge at ran
    dsimp only at ran
    split at ran
    · cases ran
      exact .inl rfl
    · split at ran <;> cases ran
      · exact .inl rfl
      · exact .inr ⟨_, ⟨visible.1, visible.2.2.2⟩, rfl⟩

theorem sourceVersions_shows {source : RecordRef} {results : ResearchReadResults SourceVersionView}
    (h : s.sourceVersions source knowledge evaluatedAt maximumResults = .ok results) : ∀ view ∈ results.items, view.id.source = source := by
  obtain ⟨_, -, revision, -, found, ran, _, -, h⟩ := bind_ok₄ h
  cases h
  refine Loop.loop_collects ResearchReadResults.items rfl (fun version there results goOn results' ran => ?_) ran
  split at ran
  · cases ran
    exact .inl rfl
  · unfold collectVersion at ran
    dsimp only at ran
    split at ran <;> cases ran
    · exact .inl rfl
    · exact .inr ⟨_, (mem_versionsOf.mp there).2, rfl⟩

variable {request : ResearchReadRequest} {output : ResearchReadOutput}

/-- The claims of an answer are views at one revision. -/
theorem readAuthorized_views [Primitives] (valid : Valid s)
    (h : s.readAuthorized runtime request authorize = .ok output) : match output with
      | .claim view => ∃ revision evaluatedAt, s.Answers runtime ∧ s.Retains revision ∧ s.Views revision evaluatedAt authorize view
      | .search results => ∃ revision evaluatedAt, s.Answers runtime ∧ s.Retains revision ∧
          ∀ view ∈ results.items, s.Views revision evaluatedAt authorize view
      | _ => True := by
  cases request with
  | getClaim generation id knowledge evaluatedAt maximumOutputBytes =>
    obtain ⟨_, queryable, h⟩ := bind_ok h
    obtain ⟨view, ran, rfl⟩ := MemoryState.map_ok h
    obtain ⟨_, -, revision, resolved, entry, visible, _, -, ran⟩ := bind_ok₄ ran
    cases ran
    obtain ⟨found, recorded, mayRead⟩ := visibleClaim_iff.mp (orError_ok.mp visible)
    rw [← (valid.claim id entry found).1] at mayRead
    exact ⟨revision, evaluatedAt, ensureQueryable_ok queryable, resolve_ok resolved, id, entry, found, recorded, mayRead, rfl⟩
  | search scope generation terms knowledge evaluatedAt maximumCandidates maximumResults maximumOutputBytes =>
    obtain ⟨_, -, _, queryable, h⟩ := bind_ok₂ h
    obtain ⟨results, ran, rfl⟩ := MemoryState.map_ok h
    obtain ⟨_, -, _, -, _, -, _, -, ran⟩ := bind_ok₄ ran
    obtain ⟨_, -, revision, resolved, progress, visited, ran⟩ := bind_ok₃ ran
    cases ran
    exact ⟨revision, evaluatedAt, ensureQueryable_ok queryable, resolve_ok resolved, visitClaims_shows visited⟩
  | sourceVersion =>
    obtain ⟨_, -, rfl⟩ := MemoryState.map_ok h
    trivial
  | _ =>
    obtain ⟨_, -, h⟩ := bind_ok h
    obtain ⟨_, -, rfl⟩ := MemoryState.map_ok h
    trivial

theorem readAuthorized_identities [Primitives] (valid : Valid s) (granted : request.Granted authorize)
    (readable : s.Answers runtime → s.PredecessorsReadable authorize)
    (h : s.readAuthorized runtime request authorize = .ok output) : ∀ id ∈ output.identities, authorize.mayRead id = true := by
  have views := readAuthorized_views valid h
  have shown {revision : CommitRevision} {evaluatedAt : Time.UtcInstant} {view : ClaimView} (answers : s.Answers runtime)
      (retains : s.Retains revision) (views : s.Views revision evaluatedAt authorize view) :
      ∀ record ∈ view.identities, authorize.mayRead record = true := by
    obtain ⟨id, entry, found, recorded, mayRead, rfl⟩ := views
    apply claimView_readable mayRead
    rw [(valid.claim id entry found).1] at mayRead
    exact readable answers revision id entry retains found recorded mayRead
  cases request with
  | getClaim generation id knowledge evaluatedAt maximumOutputBytes =>
    obtain ⟨_, -, h⟩ := bind_ok h
    obtain ⟨view, -, rfl⟩ := MemoryState.map_ok h
    obtain ⟨revision, _, answers, retains, views⟩ := views
    exact shown answers retains views
  | sourceVersions generation source knowledge evaluatedAt maximumResults =>
    obtain ⟨_, -, h⟩ := bind_ok h
    obtain ⟨results, ran, rfl⟩ := MemoryState.map_ok h
    intro record mem
    obtain ⟨view, there, rfl⟩ := mem_map.mp mem
    rw [sourceVersions_shows ran view there]
    exact granted ⟨.readRecord, .record source⟩ mem_cons_self
  | sourceVersion generation id evaluatedAt =>
    obtain ⟨view, ran, rfl⟩ := MemoryState.map_ok h
    obtain ⟨_, -, revision, -, entry, -, ran⟩ := bind_ok₃ ran
    cases ran
    intro record mem
    cases mem_singleton.mp mem
    exact granted ⟨.readRecord, .record id.source⟩ mem_cons_self
  | edgesFrom generation fromRecord kind knowledge maximumCandidates maximumResults =>
    obtain ⟨_, -, h⟩ := bind_ok h
    obtain ⟨results, ran, rfl⟩ := MemoryState.map_ok h
    obtain ⟨_, -, _, -, revision, -, ran⟩ := bind_ok₃ ran
    intro record mem
    obtain ⟨edge, there, mem⟩ := mem_flatMap.mp mem
    obtain ⟨origin, id, target, asserter⟩ := visitEdges_shows ran edge there
    simp only [EdgeInput.identities, mem_cons, not_mem_nil, or_false] at mem
    obtain rfl | rfl | rfl | rfl := mem
    · exact id
    · rw [origin]
      exact granted ⟨.readRecord, .record fromRecord⟩ mem_cons_self
    · exact target
    · exact asserter
  | search scope generation terms knowledge evaluatedAt maximumCandidates maximumResults maximumOutputBytes =>
    obtain ⟨_, -, _, -, h⟩ := bind_ok₂ h
    obtain ⟨results, -, rfl⟩ := MemoryState.map_ok h
    obtain ⟨revision, _, answers, retains, views⟩ := views
    intro record mem
    obtain ⟨view, there, mem⟩ := mem_flatMap.mp mem
    exact shown answers retains (views view there) record mem

theorem getClaim_answers [Primitives] (valid : Valid s)
    (evaluatedAt : Time.UtcInstant) (answers : s.Answers runtime) (named : s.generation = some generation)
    (retains : s.Retains revision) (visible : s.visibleClaim id revision authorize = some entry) :
    s.readAuthorized runtime (.getClaim generation id (.revision revision) evaluatedAt researchProfile.maximumQueryOutputBytes) authorize =
      .ok (.claim (s.claimView entry revision evaluatedAt authorize)) := by
  obtain ⟨-, checked, -⟩ := valid.claim id entry (visibleClaim_iff.mp visible).1
  have fits := claimViewBytes_le s authorize (boundedClaim_of_validate checked) revision evaluatedAt
  have queryable : s.ensureQueryable runtime generation = .ok () := by
    unfold ensureQueryable requireCurrent
    rw [require_pos _ answers.1, require_pos _ named, require_pos _ answers.2.2]
    rfl
  have answer : s.getClaim id (.revision revision) evaluatedAt researchProfile.maximumQueryOutputBytes authorize =
      .ok (s.claimView entry revision evaluatedAt authorize) := by
    unfold getClaim checkOutput checkCount
    rw [require_pos _ ⟨by decide, le_rfl⟩, resolve_of_retains retains]
    simp only [ok_bind, visible, orError, require_pos _ fits]
    rfl
  show (s.ensureQueryable runtime generation >>= fun _ => ResearchReadOutput.claim <$> s.getClaim id _ _ _ authorize) = _
  rw [queryable, answer]
  rfl

theorem identities_readable_iff [Primitives] (valid : Valid s) (runtime : Nat) :
    (∀ request output, request.Granted authorize → s.readAuthorized runtime request authorize = .ok output →
      ∀ id ∈ output.identities, authorize.mayRead id = true) ↔
    (s.Answers runtime → s.PredecessorsReadable authorize) := by
  constructor
  · intro safe answers revision id entry retains found recorded mayRead predecessor corrects
    obtain ⟨generation, named⟩ := answers.2.1
    have evaluatedAt : Time.UtcInstant := ⟨0, 0, by decide⟩
    apply safe _ _ ?_ (getClaim_answers valid evaluatedAt answers named retains (visibleClaim_iff.mpr ⟨found, recorded, mayRead⟩))
      predecessor
    · simp only [ResearchReadOutput.identities, ClaimView.identities, claimView, cons_append, mem_cons, mem_append,
        Option.mem_toList]
      exact .inr (.inl corrects)
    · intro requirement mem
      cases mem_singleton.mp mem
      exact mayRead
  · intro readable request output granted h
    exact readAuthorized_identities valid granted readable h

end ResearchState

end Research

section Sample

attribute [local instance] plainPrimitives

/-! A correction of a fact that the caller may not read, and of a claim. -/

theorem sampleText_valid : InventoryOf sampleScope [sampleBlobOf 1 2] := ⟨by decide, by decide, by simp⟩

def sampleText : List UInt8 × Option BlobInventory :=
  (sampleRequest 2 (.putSource ⟨⟨sampleRecord 1, 1⟩, sampleBlobOf 1 2, textMediaType, some "ab", none⟩),
    some (sampleInventoryOf _ sampleText_valid))

def sampleFact (n : UInt8) : FactInput where
  id := sampleRecord n
  subject := "subject"
  predicate := "is"
  value := "value"
  links := []
  source := ⟨sampleRecord 1, 1⟩
  locator := .byteRange 0 2
  sourceEventTime := none

def sampleCorrected := samplePublish
  [(sampleRequest 2 (.beginRebuild 2), none), sampleText, (sampleRequest 2 (.putFact (sampleFact 9)), none),
    (sampleRequest 2 (.correctFact (sampleRecord 9) (sampleFact 2)), none), (sampleRequest 2 .completeRebuild, none)]

open Research in
def sampleClaim (n : UInt8) (corrects : Option RecordRef) : ClaimInput where
  id := sampleRecord n
  subject := "subject"
  predicate := "is"
  value := "value"
  support := .unsupported
  citations := []
  validFrom := none
  validUntil := none
  corrects := corrects

def sampleResearchCorrected := sampleResearchPublish
  [(sampleResearchRequest 2 (.beginRebuild 2), none), (sampleResearchRequest 2 (.put (.claim (sampleClaim 9 none))), none),
    (sampleResearchRequest 2 (.put (.claim (sampleClaim 2 (some (sampleRecord 9))))), none),
    (sampleResearchRequest 2 .completeRebuild, none)]

def sampleGetFact : MemoryReadRequest := .getFact 2 (sampleRecord 2) .current 65536

def sampleGetClaim : Research.ResearchReadRequest := .getClaim 2 (sampleRecord 2) .current sampleInstant 65536

end Sample

end Uste.Memory
