import Uste.Memory.ResearchHistory

/-! Reads of two research states that show the same to a caller. -/

namespace Uste.Memory.Research

open Types Crypto Policy Storage Txn Std
open Time (UtcInstant)

def ResearchReadRequest.knowing (knowledge : KnowledgeAt) : ResearchReadRequest → ResearchReadRequest
  | .getClaim generation claim _ evaluatedAt maximumOutputBytes =>
    .getClaim generation claim knowledge evaluatedAt maximumOutputBytes
  | .sourceVersions generation source _ evaluatedAt maximumResults =>
    .sourceVersions generation source knowledge evaluatedAt maximumResults
  | .sourceVersion generation id evaluatedAt => .sourceVersion generation id evaluatedAt
  | .edgesFrom generation fromRecord kind _ maximumCandidates maximumResults =>
    .edgesFrom generation fromRecord kind knowledge maximumCandidates maximumResults
  | .search scope generation terms _ evaluatedAt maximumCandidates maximumResults maximumOutputBytes =>
    .search scope generation terms knowledge evaluatedAt maximumCandidates maximumResults maximumOutputBytes

theorem ResearchReadRequest.exists_knowing (request : ResearchReadRequest) : ∃ knowledge, request = request.knowing knowledge := by
  cases request with
  | getClaim _ _ knowledge => exact ⟨knowledge, rfl⟩
  | sourceVersions _ _ knowledge => exact ⟨knowledge, rfl⟩
  | sourceVersion => exact ⟨.current, rfl⟩
  | edgesFrom _ _ _ knowledge => exact ⟨knowledge, rfl⟩
  | search _ _ _ knowledge => exact ⟨knowledge, rfl⟩

namespace ResearchState

variable {s t : ResearchState} {revision : CommitRevision} {authorize : Authorize}

def shownClaim (s : ResearchState) (revision : CommitRevision) (evaluatedAt : UtcInstant) (authorize : Authorize) (id : RecordRef) :
    Option ClaimView :=
  (s.visibleClaim id revision authorize).map fun entry => s.claimView entry revision evaluatedAt authorize

def shownVersion (source : RecordRef) (revision : CommitRevision) (evaluatedAt : UtcInstant) (id : SourceVersionId)
    (entry : ResearchSourceEntry) : Option SourceVersionView :=
  if id.source = source ∧ entry.recordedRevision.value ≤ revision.value then some (sourceView id entry revision evaluatedAt) else none

/-- Two states show the same at a revision, the versions of the sources `asked` for included. -/
structure ShowsSame (revision : CommitRevision) (authorize : Authorize) (asked : RecordRef → Prop) (s t : ResearchState) : Prop where
  scope : s.scope = t.scope
  claim : ∀ id evaluatedAt, s.shownClaim revision evaluatedAt authorize id = t.shownClaim revision evaluatedAt authorize id
  edge : ∀ (fromRecord : RecordRef) (kind : Option EdgeKind) (id : RecordRef),
    s.edges[id]?.bind (visibleEdge fromRecord kind revision authorize) = t.edges[id]?.bind (visibleEdge fromRecord kind revision authorize)
  version : ∀ source, asked source → ∀ (evaluatedAt : UtcInstant) (id : SourceVersionId),
    s.sources[id]?.bind (shownVersion source revision evaluatedAt id) = t.sources[id]?.bind (shownVersion source revision evaluatedAt id)

theorem searchedClaim_eq [Primitives] (valid : Valid s) (revision : CommitRevision) (evaluatedAt : UtcInstant) (authorize : Authorize)
    (id : RecordRef) : s.claims[id]?.bind (s.searchedClaim revision evaluatedAt authorize) =
      (s.shownClaim revision evaluatedAt authorize id).filter fun view => view.status = .active := by
  unfold shownClaim visibleClaim
  cases found : s.claims[id]? with
  | none => rfl
  | some entry =>
    obtain ⟨named, -⟩ := valid.claim id entry found
    show s.searchedClaim revision evaluatedAt authorize entry = _
    unfold searchedClaim
    rw [named]
    by_cases visible : entry.recordedRevision.value ≤ revision.value ∧ authorize.mayRead id = true
    · by_cases active : statusAt entry revision = .active
      · simp [visible, active, claimView, Option.filter]
      · simp [visible, active, claimView, Option.filter]
    · rw [if_neg (fun h => visible ⟨h.1, h.2.2⟩)]
      simp only [Option.bind_eq_bind, Option.bind_some, guard, if_neg visible]
      rfl

theorem versionsOf_loop [Primitives] (valid : Valid s) (source : RecordRef) (revision : CommitRevision) (evaluatedAt : UtcInstant)
    (maximumResults : Nat) (results : ResearchReadResults SourceVersionView) :
    loop (fun results (version : SourceVersionId × ResearchSourceEntry) =>
      if version.2.recordedRevision.value > revision.value then .ok (false, results)
      else collectVersion maximumResults results (sourceView version.1 version.2 revision evaluatedAt)) (s.versionsOf source) results =
    loop (collectVersion maximumResults)
      (s.sources.toList.filterMap fun version => shownVersion source revision evaluatedAt version.1 version.2) results := by
  have ahead : (s.versionsOf source).Pairwise fun a b =>
      decide (b.2.recordedRevision.value ≤ revision.value) = true → decide (a.2.recordedRevision.value ≤ revision.value) = true := by
    apply (versionsOf_sorted source).imp_of_mem
    intro a b a_mem b_mem less past
    obtain ⟨a_found, a_source⟩ := mem_versionsOf.mp a_mem
    obtain ⟨b_found, b_source⟩ := mem_versionsOf.mp b_mem
    have order := valid.ordered a.1 b.1 a.2 b.2 a_found b_found (a_source.trans b_source.symm) less
    have past := of_decide_eq_true past
    exact decide_eq_true (order.le.trans past)
  rw [Loop.loop_until (fun version => sourceView version.1 version.2 revision evaluatedAt) (collectVersion maximumResults)
    (fun version => decide (version.2.recordedRevision.value ≤ revision.value)) ?_ ?_ ahead]
  · congr 1
    unfold versionsOf shownVersion
    rw [List.filterMap_filter]
    apply List.filterMap_congr
    intro version _
    by_cases named : version.1.source = source
    · simp [named]
    · simp [named]
  · intro version results late
    exact if_pos (by simpa using late)
  · intro version results past
    exact if_neg (by simpa using past)

theorem visitEdges_eq (fromRecord : RecordRef) (kind : Option EdgeKind) (revision : CommitRevision) (authorize : Authorize)
    (maximumCandidates maximumResults : Nat) :
    s.visitEdges fromRecord kind revision authorize maximumCandidates maximumResults =
    loop (collectEdge maximumCandidates maximumResults)
      (s.edges.toList.filterMap fun entry => visibleEdge fromRecord kind revision authorize entry.2)
      { knowledgeRevision := revision } := by
  apply Loop.loop_filterMap
  · intro entry _ hidden results
    rw [hidden]
  · intro entry _ edge shown results
    rw [shown]

theorem visitClaims_eq (terms : List String) (revision : CommitRevision) (evaluatedAt : UtcInstant) (authorize : Authorize)
    (maximumCandidates maximumResults maximumOutputBytes : Nat) :
    s.visitClaims terms revision evaluatedAt authorize maximumCandidates maximumResults maximumOutputBytes =
    loop (collectClaim terms maximumCandidates maximumResults maximumOutputBytes)
      (s.claims.toList.filterMap fun entry => s.searchedClaim revision evaluatedAt authorize entry.2)
      { results := { knowledgeRevision := revision } } := by
  apply Loop.loop_filterMap
  · intro entry _ hidden results
    rw [hidden]
  · intro entry _ view shown results
    rw [shown]

namespace ShowsSame

variable {asked : RecordRef → Prop} (shows : ShowsSame revision authorize asked s t)

include shows

variable {knowledge knowledge' : KnowledgeAt}

section

variable (resolves : s.resolve knowledge = .ok revision) (resolves' : t.resolve knowledge' = .ok revision)

include resolves resolves'

theorem getClaim (claim : RecordRef) (evaluatedAt : UtcInstant) (maximumOutputBytes : Nat) :
    s.getClaim claim knowledge evaluatedAt maximumOutputBytes authorize =
    t.getClaim claim knowledge' evaluatedAt maximumOutputBytes authorize := by
  have same := shows.claim claim evaluatedAt
  unfold shownClaim at same
  unfold ResearchState.getClaim
  rw [resolves, resolves']
  simp only [ok_bind]
  cases found : s.visibleClaim claim revision authorize with
  | none =>
    rw [found] at same
    rw [Option.map_eq_none_iff.mp same.symm]
    simp only [orError, error_bind]
  | some entry =>
    rw [found] at same
    obtain ⟨entry', found', view⟩ := Option.map_eq_some_iff.mp same.symm
    rw [found']
    simp only [orError, ok_bind, view]

theorem edgesFrom (fromRecord : RecordRef) (kind : Option EdgeKind) (maximumCandidates maximumResults : Nat) :
    s.edgesFrom fromRecord kind knowledge maximumCandidates maximumResults authorize =
    t.edgesFrom fromRecord kind knowledge' maximumCandidates maximumResults authorize := by
  unfold ResearchState.edgesFrom
  rw [resolves, resolves']
  simp only [ok_bind, visitEdges_eq]
  rw [toList_filterMap_eq (shows.edge fromRecord kind)]

end

theorem sourceVersions [Primitives] (valid : Valid s) (valid' : Valid t)
    (resolves : s.resolve knowledge = .ok revision) (resolves' : t.resolve knowledge' = .ok revision) {source : RecordRef}
    (wanted : asked source) (evaluatedAt : UtcInstant) (maximumResults : Nat) :
    s.sourceVersions source knowledge evaluatedAt maximumResults = t.sourceVersions source knowledge' evaluatedAt maximumResults := by
  unfold ResearchState.sourceVersions
  rw [resolves, resolves']
  simp only [ok_bind, versionsOf_loop valid, versionsOf_loop valid']
  rw [toList_filterMap_eq (shows.version source wanted evaluatedAt)]

theorem search [Primitives] (valid : Valid s) (valid' : Valid t)
    (resolves : s.resolve knowledge = .ok revision) (resolves' : t.resolve knowledge' = .ok revision) (terms : List String)
    (evaluatedAt : UtcInstant) (maximumCandidates maximumResults maximumOutputBytes : Nat) :
    s.search terms knowledge evaluatedAt maximumCandidates maximumResults maximumOutputBytes authorize =
    t.search terms knowledge' evaluatedAt maximumCandidates maximumResults maximumOutputBytes authorize := by
  have same (id : RecordRef) : s.claims[id]?.bind (s.searchedClaim revision evaluatedAt authorize) =
      t.claims[id]?.bind (t.searchedClaim revision evaluatedAt authorize) := by
    rw [searchedClaim_eq valid, searchedClaim_eq valid', shows.claim id evaluatedAt]
  unfold ResearchState.search
  rw [resolves, resolves']
  simp only [ok_bind, visitClaims_eq]
  rw [toList_filterMap_eq same]

end ShowsSame

theorem readAuthorized_same [Primitives] (valid : Valid s) (valid' : Valid t) (asked : RecordRef → Prop) (scope : s.scope = t.scope)
    {knowledge knowledge' : KnowledgeAt} (resolves : s.resolve knowledge = t.resolve knowledge')
    (shows : ∀ revision, s.resolve knowledge = .ok revision → ShowsSame revision authorize asked s t) {runtime runtime' : Nat}
    (queryable : ∀ generation, s.ensureQueryable runtime generation = t.ensureQueryable runtime' generation)
    (request : ResearchReadRequest)
    (wanted : ∀ generation source k evaluatedAt maximum, request = .sourceVersions generation source k evaluatedAt maximum → asked source)
    (confirmed : ∀ generation id evaluatedAt, request = .sourceVersion generation id evaluatedAt →
      s.sourceVersion runtime generation id evaluatedAt = t.sourceVersion runtime' generation id evaluatedAt) :
    s.readAuthorized runtime (request.knowing knowledge) authorize =
    t.readAuthorized runtime' (request.knowing knowledge') authorize := by
  unfold readAuthorized
  cases resolved : s.resolve knowledge with
  | error error =>
    have resolved' : t.resolve knowledge' = .error error := resolves ▸ resolved
    cases request with
    | getClaim => simp only [ResearchReadRequest.knowing, queryable, getClaim, resolved, resolved', error_bind]
    | sourceVersions => simp only [ResearchReadRequest.knowing, queryable, sourceVersions, resolved, resolved', error_bind]
    | sourceVersion => simp only [ResearchReadRequest.knowing, confirmed _ _ _ rfl]
    | edgesFrom => simp only [ResearchReadRequest.knowing, queryable, edgesFrom, resolved, resolved', error_bind]
    | search => simp only [ResearchReadRequest.knowing, scope, queryable, search, resolved, resolved', error_bind]
  | ok revision =>
    have resolved' : t.resolve knowledge' = .ok revision := resolves ▸ resolved
    have shows := shows revision resolved
    cases request with
    | getClaim => simp only [ResearchReadRequest.knowing, queryable, shows.getClaim resolved resolved']
    | sourceVersions =>
      simp only [ResearchReadRequest.knowing, queryable,
        shows.sourceVersions valid valid' resolved resolved' (wanted _ _ _ _ _ rfl)]
    | sourceVersion => simp only [ResearchReadRequest.knowing, confirmed _ _ _ rfl]
    | edgesFrom => simp only [ResearchReadRequest.knowing, queryable, shows.edgesFrom resolved resolved']
    | search => simp only [ResearchReadRequest.knowing, scope, queryable, shows.search valid valid' resolved resolved']

end ResearchState

end Uste.Memory.Research
