import Uste.Memory.PilotHistory

/-!
Reads of two states of the pilot that show the same to a caller: the facts that are eligible, but
for how they ended, and the sources these rest on. Everything a read answers comes from that.
-/

namespace Uste.Memory

open Types Crypto Policy Storage Txn Std

def MemoryReadRequest.knowing (knowledge : KnowledgeAt) : MemoryReadRequest → MemoryReadRequest
  | .getFact generation fact _ maximumOutputBytes => .getFact generation fact knowledge maximumOutputBytes
  | .search scope generation terms _ eventTime maximumCandidates maximumResults maximumOutputBytes =>
    .search scope generation terms knowledge eventTime maximumCandidates maximumResults maximumOutputBytes
  | .oneHop generation origin _ maximumCandidates maximumResults maximumOutputBytes =>
    .oneHop generation origin knowledge maximumCandidates maximumResults maximumOutputBytes
  | .resolveCitation generation fact _ maximumOutputBytes => .resolveCitation generation fact knowledge maximumOutputBytes
  | .unsupported generation => .unsupported generation

theorem MemoryReadRequest.exists_knowing (request : MemoryReadRequest) : ∃ knowledge, request = request.knowing knowledge := by
  cases request with
  | getFact _ _ knowledge _ => exact ⟨knowledge, rfl⟩
  | search _ _ _ knowledge => exact ⟨knowledge, rfl⟩
  | oneHop _ _ knowledge => exact ⟨knowledge, rfl⟩
  | resolveCitation _ _ knowledge _ => exact ⟨knowledge, rfl⟩
  | unsupported => exact ⟨.current, rfl⟩

/-- What reads show of a fact: all but how it ended. -/
def FactRecord.shown (fact : FactRecord) : FactRecord := { fact with terminal := none }

theorem collectFact_congr {maximumCandidates maximumResults maximumOutputBytes : Nat} {hits hits' : FactRecord → Bool}
    {results : SearchResults} {fact fact' : FactRecord} (same : hits fact = hits' fact') (view : factView fact = factView fact') :
    collectFact maximumCandidates maximumResults maximumOutputBytes hits results fact =
    collectFact maximumCandidates maximumResults maximumOutputBytes hits' results fact' := by
  unfold collectFact
  rw [same, view]

namespace MemoryState

variable {s t : MemoryState} {revision : CommitRevision} {authorize : Authorize}

def shownFact (s : MemoryState) (revision : CommitRevision) (authorize : Authorize) (id : RecordRef) : Option FactRecord :=
  (s.eligibleFact id revision authorize).map FactRecord.shown

theorem mem_of_shownFact (id : RecordRef) (shown : s.shownFact revision authorize id ≠ none) : id ∈ s.facts := by
  by_contra missing
  apply shown
  unfold shownFact eligibleFact
  rw [ExtTreeMap.getElem?_eq_none missing]
  rfl

theorem visitFacts_eq {maximumCandidates maximumResults maximumOutputBytes : Nat} {hits : FactRecord → Bool}
    (plain : ∀ fact : FactRecord, hits fact.shown = hits fact) (candidates : List RecordRef) :
    s.visitFacts revision authorize maximumCandidates maximumResults maximumOutputBytes hits candidates =
    loop (collectFact maximumCandidates maximumResults maximumOutputBytes hits)
      (candidates.filterMap (s.shownFact revision authorize)) { knowledgeRevision := revision } := by
  unfold visitFacts
  apply Loop.loop_filterMap
  · intro id _ hidden results
    have hidden : s.eligibleFact id revision authorize = none := Option.map_eq_none_iff.mp hidden
    rw [hidden]
  · intro id _ record shown results
    obtain ⟨fact, eligible, rfl⟩ := Option.map_eq_some_iff.mp shown
    rw [eligible]
    exact collectFact_congr (plain fact).symm rfl

/-- Two states show the same at a revision. -/
structure ShowsSame (revision : CommitRevision) (authorize : Authorize) (s t : MemoryState) : Prop where
  fact : ∀ id, s.shownFact revision authorize id = t.shownFact revision authorize id
  source : ∀ id fact, s.eligibleFact id revision authorize = some fact →
    ∃ a b, s.sources[fact.input.source]? = some a ∧ t.sources[fact.input.source]? = some b ∧ a.input = b.input ∧
      a.recordedRevision = b.recordedRevision

namespace ShowsSame

variable (shows : ShowsSame revision authorize s t)

include shows

theorem eligible (id : RecordRef) :
    s.eligibleFact id revision authorize = none ∧ t.eligibleFact id revision authorize = none ∨
    ∃ fact fact', s.eligibleFact id revision authorize = some fact ∧ t.eligibleFact id revision authorize = some fact' ∧
      fact.shown = fact'.shown := by
  have same := shows.fact id
  unfold shownFact at same
  cases left : s.eligibleFact id revision authorize with
  | none =>
    rw [left] at same
    exact .inl ⟨rfl, Option.map_eq_none_iff.mp same.symm⟩
  | some fact =>
    rw [left] at same
    obtain ⟨fact', found, shown⟩ := Option.map_eq_some_iff.mp same.symm
    exact .inr ⟨fact, fact', rfl, found, shown.symm⟩

theorem lexicalMatch {id : RecordRef} {record : FactRecord} (shown : s.shownFact revision authorize id = some record)
    (terms : List String) : s.lexicalMatch record terms = t.lexicalMatch record terms := by
  obtain ⟨fact, eligible, rfl⟩ := Option.map_eq_some_iff.mp shown
  obtain ⟨a, b, found, found', input, -⟩ := shows.source id fact eligible
  have found : s.sources[fact.shown.input.source]? = some a := found
  have found' : t.sources[fact.shown.input.source]? = some b := found'
  unfold MemoryState.lexicalMatch
  rw [found, found']
  simp only [Option.bind_some, input]

omit shows in
theorem visitFacts {maximumCandidates maximumResults maximumOutputBytes : Nat} {hits hits' : FactRecord → Bool}
    (plain : ∀ fact : FactRecord, hits fact.shown = hits fact) (plain' : ∀ fact : FactRecord, hits' fact.shown = hits' fact)
    (same : ∀ id record, s.shownFact revision authorize id = some record → hits record = hits' record)
    {candidates candidates' : List RecordRef}
    (lists : candidates.filterMap (s.shownFact revision authorize) = candidates'.filterMap (t.shownFact revision authorize)) :
    s.visitFacts revision authorize maximumCandidates maximumResults maximumOutputBytes hits candidates =
    t.visitFacts revision authorize maximumCandidates maximumResults maximumOutputBytes hits' candidates' := by
  rw [visitFacts_eq plain, visitFacts_eq plain', ← lists]
  apply Loop.loop_congr
  intro record mem results
  obtain ⟨id, -, shown⟩ := List.mem_filterMap.mp mem
  exact collectFact_congr (same id record shown) rfl

variable {knowledge knowledge' : KnowledgeAt}

section

variable (resolves : s.resolveRevision knowledge = .ok revision) (resolves' : t.resolveRevision knowledge' = .ok revision)

include resolves resolves'

theorem search (terms : List String) (eventTime : EventTimeFilter)
    (maximumCandidates maximumResults maximumOutputBytes : Nat) :
    s.search terms knowledge eventTime maximumCandidates maximumResults maximumOutputBytes authorize =
    t.search terms knowledge' eventTime maximumCandidates maximumResults maximumOutputBytes authorize := by
  unfold MemoryState.search
  rw [resolves, resolves']
  congr 2
  funext _
  congr 1
  funext _
  apply visitFacts
  · exact fun _ => rfl
  · exact fun _ => rfl
  · intro id record shown
    simp only [shows.lexicalMatch shown]
  · exact keys_filterMap_eq mem_of_shownFact mem_of_shownFact shows.fact

theorem oneHop (origin : RecordRef) (maximumCandidates maximumResults maximumOutputBytes : Nat) :
    s.oneHop origin knowledge maximumCandidates maximumResults maximumOutputBytes authorize =
    t.oneHop origin knowledge' maximumCandidates maximumResults maximumOutputBytes authorize := by
  unfold MemoryState.oneHop
  rw [resolves, resolves']
  simp only [ok_bind]
  congr 1
  funext _
  obtain ⟨hidden, hidden'⟩ | ⟨root, root', eligible, eligible', same⟩ := shows.eligible origin
  · rw [hidden, hidden']
    rfl
  · have links : root.input.links = root'.input.links := congrArg (·.input.links) same
    rw [eligible, eligible']
    show s.visitFacts _ _ _ _ _ _ _ = t.visitFacts _ _ _ _ _ _ _
    apply visitFacts
    · exact fun _ => rfl
    · exact fun _ => rfl
    · exact fun _ _ _ => rfl
    · rw [links]
      exact List.filterMap_congr fun id _ => shows.fact id

theorem getFact (id : RecordRef) (maximumOutputBytes : Nat) :
    s.getFact id knowledge maximumOutputBytes authorize = t.getFact id knowledge' maximumOutputBytes authorize := by
  unfold MemoryState.getFact
  rw [resolves, resolves']
  simp only [ok_bind]
  obtain ⟨hidden, hidden'⟩ | ⟨fact, fact', eligible, eligible', same⟩ := shows.eligible id
  · rw [hidden, hidden']
  · have view : factView fact.shown = factView fact'.shown := congrArg factView same
    have view : factView fact = factView fact' := view
    rw [eligible, eligible']
    simp only [orError, ok_bind, view]

theorem resolveCitation (id : RecordRef) (maximumOutputBytes : Nat) :
    s.resolveCitation id knowledge maximumOutputBytes authorize = t.resolveCitation id knowledge' maximumOutputBytes authorize := by
  unfold MemoryState.resolveCitation
  rw [resolves, resolves']
  simp only [ok_bind]
  obtain ⟨hidden, hidden'⟩ | ⟨fact, fact', eligible, eligible', same⟩ := shows.eligible id
  · rw [hidden, hidden']
    simp only [orError, error_bind]
  · have input : fact'.input = fact.input := congrArg (·.input) same.symm
    have recorded : fact'.recordedRevision = fact.recordedRevision := congrArg (·.recordedRevision) same.symm
    obtain ⟨a, b, found, found', inputs, recordeds⟩ := shows.source id fact eligible
    rw [eligible, eligible']
    simp only [orError, ok_bind, input, recorded, found, found', excerpt, inputs, recordeds]

end

end ShowsSame

theorem readAuthorized_same {knowledge knowledge' : KnowledgeAt} (resolves : s.resolveRevision knowledge = t.resolveRevision knowledge')
    (shows : ∀ revision, s.resolveRevision knowledge = .ok revision → ShowsSame revision authorize s t) {runtime runtime' : Nat}
    (queryable : ∀ generation, s.ensureQueryable runtime generation = t.ensureQueryable runtime' generation)
    (request : MemoryReadRequest) : s.readAuthorized runtime (request.knowing knowledge) authorize =
    t.readAuthorized runtime' (request.knowing knowledge') authorize := by
  unfold readAuthorized
  cases resolved : s.resolveRevision knowledge with
  | error error =>
    have resolved' : t.resolveRevision knowledge' = .error error := resolves ▸ resolved
    cases request <;> simp only [MemoryReadRequest.knowing, MemoryReadRequest.authorityGeneration, queryable, getFact, search, oneHop,
      resolveCitation, resolved, resolved', error_bind]
  | ok revision =>
    have resolved' : t.resolveRevision knowledge' = .ok revision := resolves ▸ resolved
    have shows := shows revision resolved
    cases request <;> simp only [MemoryReadRequest.knowing, MemoryReadRequest.authorityGeneration, queryable,
      shows.getFact resolved resolved', shows.search resolved resolved', shows.oneHop resolved resolved',
      shows.resolveCitation resolved resolved']

end MemoryState

end Uste.Memory
