import Uste.Memory.Citations

/-!
Reads of what was known at a revision: within a generation they answer as the state of that
revision did, but for revocations, which count at once for every revision.
-/

namespace Uste.Memory

open Types Crypto Policy Storage Txn Std

/-! ### The pilot -/

def MemoryReadOutput.sources : MemoryReadOutput → List SourceVersionId
  | .fact view => [view.source]
  | .search results => results.facts.map (·.source)
  | .citation found => [found.source]

namespace MemoryState

variable {s s' : MemoryState} {revision : CommitRevision} {authorize : Authorize}

def UnrevokedSince (revision : CommitRevision) (s : MemoryState) : Prop :=
  ∀ (id : SourceVersionId) (source : SourceVersionRecord), s.sources[id]? = some source →
    ∀ revoked ∈ source.revokedRevision, revoked.value ≤ revision.value

section Extends

variable (extending : Extends revision s s') (unrevoked : UnrevokedSince revision s')

include extending unrevoked

theorem Extends.eligible_later {id : RecordRef} {fact : FactRecord} (eligible : s.Eligible revision authorize id fact) :
    ∃ fact', s'.Eligible revision authorize id fact' ∧ fact.shown = fact'.shown := by
  obtain ⟨fact', found, since⟩ := extending.fact id fact eligible.found
  obtain ⟨source, rests, recorded, standing, superseded⟩ := eligible.source
  obtain ⟨source', rests', since'⟩ := extending.source _ source rests
  refine ⟨fact', ?_, ?_⟩
  · constructor
    · exact found
    · rw [since.recorded]
      exact eligible.recorded
    · have future := since.terminal.future_iff.mp (by simpa using eligible.standing)
      simpa using future
    · exact eligible.mayRead
    · rw [since.input]
      exact eligible.mayReadSource
    · rw [since.input]
      exact eligible.mayReadLinks
    · rw [since.input]
      refine ⟨source', rests', ?_, ?_, since'.superseded.future_iff.mp superseded⟩
      · rw [since'.recorded]
        exact recorded
      · rw [since'.revoked.eq_of_past (unrevoked _ source' rests')]
        exact standing
  · unfold FactRecord.shown
    rw [since.input, since.recorded, since.corrects]

theorem Extends.eligible_earlier {id : RecordRef} {fact' : FactRecord} (eligible : s'.Eligible revision authorize id fact') :
    ∃ fact, s.Eligible revision authorize id fact ∧ fact.shown = fact'.shown := by
  have there : id ∈ s.facts := (extending.newFact id fact' eligible.found).resolve_right (Nat.not_lt.mpr eligible.recorded)
  obtain ⟨fact, found⟩ := mem_iff_exists.mp there
  obtain ⟨other, found', since⟩ := extending.fact id fact found
  obtain rfl : other = fact' := Option.some.inj (found'.symm.trans eligible.found)
  obtain ⟨source', rests', recorded, standing, superseded⟩ := eligible.source
  have present : other.input.source ∈ s.sources := (extending.newSource _ source' rests').resolve_right (Nat.not_lt.mpr recorded)
  obtain ⟨source, rests⟩ := mem_iff_exists.mp present
  obtain ⟨same, rests'', since'⟩ := extending.source _ source rests
  obtain rfl : same = source' := Option.some.inj (rests''.symm.trans rests')
  refine ⟨fact, ?_, ?_⟩
  · constructor
    · exact found
    · rw [← since.recorded]
      exact eligible.recorded
    · have future := since.terminal.future_iff.mpr (by simpa using eligible.standing)
      simpa using future
    · exact eligible.mayRead
    · rw [← since.input]
      exact eligible.mayReadSource
    · rw [← since.input]
      exact eligible.mayReadLinks
    · rw [← since.input]
      refine ⟨source, rests, ?_, ?_, since'.superseded.future_iff.mpr superseded⟩
      · rw [← since'.recorded]
        exact recorded
      · rw [← since'.revoked.eq_of_past (unrevoked _ same rests')]
        exact standing
  · unfold FactRecord.shown
    rw [since.input, since.recorded, since.corrects]

theorem Extends.showsSame : ShowsSame revision authorize s' s := by
  constructor
  · intro id
    unfold shownFact
    cases later : s'.eligibleFact id revision authorize with
    | none =>
      cases earlier : s.eligibleFact id revision authorize with
      | none => rfl
      | some fact =>
        obtain ⟨fact', eligible, -⟩ := extending.eligible_later unrevoked (eligibleFact_iff.mp earlier)
        rw [eligibleFact_iff.mpr eligible] at later
        cases later
    | some fact' =>
      obtain ⟨fact, eligible, same⟩ := extending.eligible_earlier unrevoked (eligibleFact_iff.mp later)
      rw [eligibleFact_iff.mpr eligible]
      exact congrArg some same.symm
  · intro id fact' later
    obtain ⟨fact, eligible, same⟩ := extending.eligible_earlier unrevoked (eligibleFact_iff.mp later)
    have input : fact.input = fact'.input := congrArg (·.input) same
    obtain ⟨source, rests, -⟩ := eligible.source
    obtain ⟨source', rests', since⟩ := extending.source _ source rests
    rw [← input]
    exact ⟨source', source, rests', rests, since.input, since.recorded⟩

theorem Extends.readAuthorized (published : s.currentRevision = some revision) (same : s'.generation = s.generation)
    (ready : s'.ready = s.ready) {current : CommitRevision} (now : s'.currentRevision = some current) (request : MemoryReadRequest) :
    s'.readAuthorized current.value (request.knowing (.revision revision)) authorize =
    s.readAuthorized revision.value (request.knowing .current) authorize := by
  have later : revision.value ≤ current.value := by
    obtain ⟨other, found, le⟩ := extending.current
    rw [now] at found
    cases found
    exact le
  apply readAuthorized_same
  · unfold resolveRevision
    rw [now, published, extending.retainedFrom]
    simp only [orError, ok_bind, later, Nat.le_refl, true_and]
  · intro other resolved
    have same : other = revision := by
      obtain ⟨_, -, _, -, resolved⟩ := bind_ok₂ resolved
      cases resolved
      rfl
    subst same
    exact extending.showsSame unrevoked
  · intro generation
    unfold ensureQueryable
    rw [now, published, same, ready]
    simp only [Option.map_some, Option.getD_some]

end Extends

theorem readAuthorized_unrevoked {runtime : Nat} {request : MemoryReadRequest} {output : MemoryReadOutput}
    (h : s.readAuthorized runtime request authorize = .ok output) :
    ∀ id ∈ output.sources, ∃ source, s.sources[id]? = some source ∧ source.revokedRevision = none := by
  obtain ⟨-, revision, -, shows⟩ := readAuthorized_shows h
  have standing {id : RecordRef} {fact : FactRecord} (eligible : s.Eligible revision authorize id fact) :
      ∃ source, s.sources[fact.input.source]? = some source ∧ source.revokedRevision = none := by
    obtain ⟨source, rests, -, standing, -⟩ := eligible.source
    exact ⟨source, rests, standing⟩
  intro id mem
  cases output with
  | fact view =>
    obtain ⟨_, fact, eligible, rfl⟩ := shows
    cases List.mem_singleton.mp mem
    exact standing eligible
  | search results =>
    obtain ⟨view, there, rfl⟩ := List.mem_map.mp mem
    obtain ⟨_, fact, eligible, rfl⟩ := shows view there
    exact standing eligible
  | citation found =>
    obtain ⟨fact, eligible, source⟩ := shows
    rw [List.mem_singleton.mp mem, source]
    exact standing eligible

end MemoryState

/-! ### The research reducer -/

namespace Research

/-- Reads that say what is to be known; a confirmed version does not. -/
def ResearchReadRequest.asksKnowledge : ResearchReadRequest → Bool
  | .sourceVersion _ _ _ => false
  | _ => true

def ResearchReadOutput.citations : ResearchReadOutput → List CitationView
  | .claim view => view.citations
  | .search results => results.items.flatMap (·.citations)
  | _ => []

namespace ResearchState

variable {s s' : ResearchState} {revision : CommitRevision} {authorize : Authorize}

def UnrevokedSince (revision : CommitRevision) (s : ResearchState) : Prop :=
  ∀ (id : SourceVersionId) (entry : ResearchSourceEntry), s.sources[id]? = some entry →
    ∀ revoked ∈ entry.revokedRevision, revoked.value ≤ revision.value

theorem ClaimSince.statusAt {old new : ResearchClaimEntry} (since : ClaimSince revision old new) :
    statusAt new revision = statusAt old revision := by
  obtain same | ⟨active, ended, found, after⟩ := since.status
  · unfold Research.statusAt
    rw [same]
  · have found : new.status.revision? = some ended := found
    unfold Research.statusAt
    rw [found, active]
    exact if_neg (Nat.not_le.mpr after)

section Extends

variable (extending : Extends revision s s') (unrevoked : UnrevokedSince revision s')

include extending

include unrevoked in
theorem Extends.citationView {citation : CitationInput} (there : citation.source ∈ s.sources) (evaluatedAt : Time.UtcInstant) :
    s'.citationView evaluatedAt authorize citation = s.citationView evaluatedAt authorize citation := by
  obtain ⟨entry, found⟩ := mem_iff_exists.mp there
  obtain ⟨entry', found', since⟩ := extending.source _ entry found
  unfold ResearchState.citationView
  rw [found, found']
  simp only [Option.bind_eq_bind, Option.bind_some, since.input, since.revoked.eq_of_past (unrevoked _ entry' found')]

include unrevoked in
theorem Extends.claimView [Primitives] (valid : Valid s) {id : RecordRef} {old new : ResearchClaimEntry}
    (found : s.claims[id]? = some old) (since : ClaimSince revision old new) (evaluatedAt : Time.UtcInstant) :
    s'.claimView new revision evaluatedAt authorize = s.claimView old revision evaluatedAt authorize := by
  obtain ⟨-, -, -, cites⟩ := valid.claim id old found
  have citations : old.input.citations.filterMap (s'.citationView evaluatedAt authorize) =
      old.input.citations.filterMap (s.citationView evaluatedAt authorize) :=
    List.filterMap_congr fun citation mem => extending.citationView unrevoked (cites citation mem) evaluatedAt
  unfold ResearchState.claimView
  rw [since.input, since.recorded, since.statusAt, citations]

include unrevoked in
theorem Extends.shownClaim [Primitives] (valid : Valid s) (id : RecordRef) (evaluatedAt : Time.UtcInstant) :
    s'.shownClaim revision evaluatedAt authorize id = s.shownClaim revision evaluatedAt authorize id := by
  unfold ResearchState.shownClaim
  cases earlier : s.visibleClaim id revision authorize with
  | some old =>
    obtain ⟨found, recorded, mayRead⟩ := visibleClaim_iff.mp earlier
    obtain ⟨new, found', since⟩ := extending.claim id old found
    have later : s'.visibleClaim id revision authorize = some new :=
      visibleClaim_iff.mpr ⟨found', by rw [since.recorded]; exact recorded, mayRead⟩
    rw [later]
    exact congrArg some (extending.claimView unrevoked valid found since evaluatedAt)
  | none =>
    cases later : s'.visibleClaim id revision authorize with
    | none => rfl
    | some new =>
      obtain ⟨found', recorded, mayRead⟩ := visibleClaim_iff.mp later
      have there : id ∈ s.claims := (extending.newClaim id new found').resolve_right (Nat.not_lt.mpr recorded)
      obtain ⟨old, found⟩ := mem_iff_exists.mp there
      obtain ⟨other, found'', since⟩ := extending.claim id old found
      obtain rfl : other = new := Option.some.inj (found''.symm.trans found')
      rw [visibleClaim_iff.mpr ⟨found, by rw [← since.recorded]; exact recorded, mayRead⟩] at earlier
      cases earlier

theorem Extends.visibleEdge (fromRecord : RecordRef) (kind : Option EdgeKind) (id : RecordRef) :
    s'.edges[id]?.bind (visibleEdge fromRecord kind revision authorize) =
    s.edges[id]?.bind (ResearchState.visibleEdge fromRecord kind revision authorize) := by
  cases found : s.edges[id]? with
  | some old => rw [extending.edge id old found]
  | none =>
    cases found' : s'.edges[id]? with
    | none => rfl
    | some new =>
      have after := (extending.newEdge id new found').resolve_left fun there => by
        rw [ExtTreeMap.mem_iff_isSome_getElem?, found] at there
        cases there
      exact if_neg fun visible => Nat.not_lt.mpr visible.2.1 after

include unrevoked in
theorem Extends.shownVersion (source : RecordRef) (evaluatedAt : Time.UtcInstant) (id : SourceVersionId) :
    s'.sources[id]?.bind (shownVersion source revision evaluatedAt id) =
    s.sources[id]?.bind (ResearchState.shownVersion source revision evaluatedAt id) := by
  cases found : s.sources[id]? with
  | some old =>
    obtain ⟨new, found', since⟩ := extending.source id old found
    rw [found']
    show ResearchState.shownVersion source revision evaluatedAt id new = ResearchState.shownVersion source revision evaluatedAt id old
    unfold ResearchState.shownVersion sourceView
    rw [since.input, since.recorded, since.superseded.filter_past, since.revoked.eq_of_past (unrevoked id new found')]
  | none =>
    cases found' : s'.sources[id]? with
    | none => rfl
    | some new =>
      have after := (extending.newSource id new found').resolve_left fun there => by
        rw [ExtTreeMap.mem_iff_isSome_getElem?, found] at there
        cases there
      exact if_neg fun visible => Nat.not_lt.mpr visible.2 after

include unrevoked in
theorem Extends.readAuthorized [Primitives] (valid : Valid s) (valid' : Valid s') (published : s.currentRevision = some revision)
    (same : s'.generation = s.generation) (ready : s'.ready = s.ready) {current : CommitRevision}
    (now : s'.currentRevision = some current) {request : ResearchReadRequest} (asks : request.asksKnowledge = true) :
    s'.readAuthorized current.value (request.knowing (.revision revision)) authorize =
    s.readAuthorized revision.value (request.knowing .current) authorize := by
  have later : revision.value ≤ current.value := by
    obtain ⟨other, found, le⟩ := extending.current
    rw [now] at found
    cases found
    exact le
  apply readAuthorized_same valid' valid (fun _ => True) extending.scope
  · unfold resolve
    rw [now, published, extending.retainedFrom]
    simp only [orError, ok_bind, later, Nat.le_refl, true_and]
  · intro other resolved
    have same : other = revision := by
      obtain ⟨_, -, _, -, resolved⟩ := bind_ok₂ resolved
      cases resolved
      rfl
    subst same
    exact ⟨extending.scope, fun id evaluatedAt => extending.shownClaim unrevoked valid id evaluatedAt,
      fun fromRecord kind id => extending.visibleEdge fromRecord kind id,
      fun source _ evaluatedAt id => extending.shownVersion unrevoked source evaluatedAt id⟩
  · intro generation
    unfold ensureQueryable requireCurrent
    rw [now, published, same, ready]
    simp only [Option.map_some, Option.getD_some]
  · exact fun _ _ _ _ _ _ => trivial
  · intro generation id evaluatedAt confirms
    subst confirms
    cases asks

end Extends

theorem readAuthorized_unrevoked [Primitives] (valid : Valid s) {runtime : Nat} {request : ResearchReadRequest}
    {output : ResearchReadOutput} (h : s.readAuthorized runtime request authorize = .ok output) :
    ∀ citation ∈ output.citations, ∀ entry, s.sources[citation.source]? = some entry → entry.revokedRevision ≠ none →
      citation.excerpt = none := by
  have views := readAuthorized_views valid h
  have withheld {revision : CommitRevision} {evaluatedAt : Time.UtcInstant} {view : ClaimView}
      (views : s.Views revision evaluatedAt authorize view) : ∀ citation ∈ view.citations, ∀ entry,
        s.sources[citation.source]? = some entry → entry.revokedRevision ≠ none → citation.excerpt = none := by
    obtain ⟨_, _, -, -, -, rfl⟩ := views
    intro citation mem entry found revoked
    obtain ⟨input, -, shown⟩ := List.mem_filterMap.mp mem
    obtain ⟨_, -, shown⟩ := Option.bind_eq_some_iff.mp shown
    obtain ⟨source, found', shown⟩ := Option.bind_eq_some_iff.mp shown
    cases shown
    obtain rfl : source = entry := Option.some.inj (found'.symm.trans found)
    exact if_pos (Option.isSome_iff_ne_none.mpr revoked)
  cases output with
  | claim view =>
    obtain ⟨_, _, -, -, views⟩ := views
    exact withheld views
  | search results =>
    obtain ⟨_, _, -, -, views⟩ := views
    intro citation mem
    obtain ⟨view, there, mem⟩ := List.mem_flatMap.mp mem
    exact withheld (views view there) citation mem
  | _ => exact nofun

end ResearchState

end Research

/-! ### Histories of a generation -/

/-- Within a generation, a read of what was known at a revision answers as the state published there answered at the time,
where the generation was as ready as now and nothing was revoked since; and what rests on a revoked source is never shown. -/
theorem knowledge_reads_agree [Primitives] (authorize : Authorize) :
    (∀ (s s' : MemoryState) (generation : Nat) (revision current : CommitRevision), s.Reached → s.generation = some generation →
      s.currentRevision = some revision → History MemoryState.prepare MemoryState.currentRevision s s' →
      s'.generation = some generation → s'.currentRevision = some current →
      (s'.ready = s.ready → s'.UnrevokedSince revision → ∀ request : MemoryReadRequest,
        s'.readAuthorized current.value (request.knowing (.revision revision)) authorize =
        s.readAuthorized revision.value (request.knowing .current) authorize) ∧
      ∀ (id : SourceVersionId) (source : SourceVersionRecord), s.sources[id]? = some source → source.revokedRevision ≠ none →
        ∀ runtime request output, s'.readAuthorized runtime request authorize = .ok output → id ∉ output.sources) ∧
    (∀ (s s' : Research.ResearchState) (generation : Nat) (revision current : CommitRevision), s.Reached → s.generation = some generation →
      s.currentRevision = some revision → History Research.ResearchState.prepare Research.ResearchState.currentRevision s s' →
      s'.generation = some generation → s'.currentRevision = some current →
      (s'.ready = s.ready → s'.UnrevokedSince revision → ∀ request : Research.ResearchReadRequest, request.asksKnowledge = true →
        s'.readAuthorized current.value (request.knowing (.revision revision)) authorize =
        s.readAuthorized revision.value (request.knowing .current) authorize) ∧
      ∀ (id : SourceVersionId) (entry : Research.ResearchSourceEntry), s.sources[id]? = some entry → entry.revokedRevision ≠ none →
        ∀ runtime request output, s'.readAuthorized runtime request authorize = .ok output →
          ∀ citation ∈ output.citations, citation.source = id → citation.excerpt = none) := by
  constructor
  · intro s s' generation revision current reached started published history same now
    obtain ⟨extending, -⟩ := MemoryState.extends_of_history reached history started published (same.trans started.symm)
    constructor
    · intro ready unrevoked request
      exact extending.readAuthorized unrevoked published (same.trans started.symm) ready now request
    · intro id source found revoked runtime request output h mem
      obtain ⟨source', found', since⟩ := extending.source id source found
      obtain ⟨other, rests, standing⟩ := MemoryState.readAuthorized_unrevoked h id mem
      obtain rfl : other = source' := Option.some.inj (rests.symm.trans found')
      exact since.revoked.set_stays revoked standing
  · intro s s' generation revision current reached started published history same now
    obtain ⟨extending, -⟩ := Research.ResearchState.extends_of_history reached history started published (same.trans started.symm)
    have valid' := history.keeps reached.valid fun _ _ _ => Research.ResearchState.publishes_valid
    constructor
    · intro ready unrevoked request asks
      exact extending.readAuthorized unrevoked reached.valid valid' published (same.trans started.symm) ready now asks
    · intro id entry found revoked runtime request output h citation mem named
      obtain ⟨entry', found', since⟩ := extending.source id entry found
      rw [← named] at found'
      exact Research.ResearchState.readAuthorized_unrevoked valid' h citation mem entry' found' (since.revoked.set_stays revoked)

section Sample

attribute [local instance] plainPrimitives

def sampleRevision (n : UInt8) (positive : 0 < n.toNat) : CommitRevision :=
  ⟨n.toNat, positive, Nat.lt_of_lt_of_le n.toNat_lt (by decide)⟩

def sampleBegun := samplePublish [(sampleRequest 2 (.beginRebuild 2), none)]

def sampleCompleted (s : MemoryState) : Except ApplyError MemoryState :=
  publishAll MemoryState.prepare MemoryState.currentRevision [(sampleRevision 2 (by decide), sampleRequest 2 .completeRebuild, none)] s

/-- During a rebuild the state answers nothing, while later reads of that revision are answered. -/
theorem rebuilding_revision_reads : ∃ s s' : MemoryState, s.Reached ∧ s.generation = some 2 ∧
    s.currentRevision = some (sampleRevision 1 (by decide)) ∧ History MemoryState.prepare MemoryState.currentRevision s s' ∧
    s'.generation = some 2 ∧ s'.currentRevision = some (sampleRevision 2 (by decide)) ∧
    s'.UnrevokedSince (sampleRevision 1 (by decide)) ∧
    s'.readAuthorized 2 (sampleGetFact.knowing (.revision (sampleRevision 1 (by decide)))) sampleAuthorize = .error .notFound ∧
    s.readAuthorized 1 (sampleGetFact.knowing .current) sampleAuthorize = .error .rebuilding := by
  have checks : (sampleBegun.toOption.any fun s => (sampleCompleted s).toOption.any fun s' =>
      decide (s.generation = some 2) && decide (s.currentRevision = some (sampleRevision 1 (by decide))) &&
      decide (s'.generation = some 2) && decide (s'.currentRevision = some (sampleRevision 2 (by decide))) && s'.sources.isEmpty &&
      decide (s'.readAuthorized 2 (sampleGetFact.knowing (.revision (sampleRevision 1 (by decide)))) sampleAuthorize = .error .notFound) &&
      decide (s.readAuthorized 1 (sampleGetFact.knowing .current) sampleAuthorize = .error .rebuilding)) = true := by
    decide +kernel
  obtain ⟨s, begun, checks⟩ := exists_of_any checks
  obtain ⟨s', completed, checks⟩ := exists_of_any checks
  simp only [Bool.and_eq_true, decide_eq_true_eq, ExtTreeMap.isEmpty_iff] at checks
  obtain ⟨⟨⟨⟨⟨⟨generation, published⟩, generation'⟩, published'⟩, sources⟩, answered⟩, refused⟩ := checks
  refine ⟨s, s', reached_of_samplePublish begun, generation, published, history_of_publishAll completed, generation', published',
    fun id source found => ?_, answered, refused⟩
  rw [sources] at found
  simp at found

/-! A fact that is corrected after it was read, and a claim. -/

def sampleStanding := samplePublish
  [(sampleRequest 2 (.beginRebuild 2), none), sampleText, (sampleRequest 2 (.putFact (sampleFact 2)), none),
    (sampleRequest 2 .completeRebuild, none)]

def sampleReplaced (s : MemoryState) : Except ApplyError MemoryState :=
  publishAll MemoryState.prepare MemoryState.currentRevision
    [(sampleRevision 5 (by decide), sampleRequest 2 (.correctFact (sampleRecord 2) (sampleFact 3)), none)] s

def sampleResearchStanding := sampleResearchPublish
  [(sampleResearchRequest 2 (.beginRebuild 2), none), (sampleResearchRequest 2 (.put (.claim (sampleClaim 2 none))), none),
    (sampleResearchRequest 2 .completeRebuild, none)]

def sampleResearchReplaced (s : Research.ResearchState) : Except ApplyError Research.ResearchState :=
  publishAll Research.ResearchState.prepare Research.ResearchState.currentRevision
    [(sampleRevision 4 (by decide), sampleResearchRequest 2 (.put (.claim (sampleClaim 3 (some (sampleRecord 2))))), none)] s

theorem knowledge_reads_agree_sample :
    (∃ (s s' : MemoryState) (output : MemoryReadOutput), s.Reached ∧
      History MemoryState.prepare MemoryState.currentRevision s s' ∧
      s'.readAuthorized 5 (sampleGetFact.knowing (.revision (sampleRevision 4 (by decide)))) sampleAuthorize = .ok output ∧
      s.readAuthorized 4 (sampleGetFact.knowing .current) sampleAuthorize = .ok output ∧
      s'.readAuthorized 5 (sampleGetFact.knowing .current) sampleAuthorize = .error .notFound) ∧
    ∃ (s s' : Research.ResearchState), s.Reached ∧
      History Research.ResearchState.prepare Research.ResearchState.currentRevision s s' ∧
      s'.readAuthorized 4 (sampleGetClaim.knowing (.revision (sampleRevision 3 (by decide)))) sampleAuthorize =
      s.readAuthorized 3 (sampleGetClaim.knowing .current) sampleAuthorize := by
  have pilot : (sampleStanding.toOption.any fun s => (sampleReplaced s).toOption.any fun s' =>
      (s.readAuthorized 4 (sampleGetFact.knowing .current) sampleAuthorize).toOption.any fun _ =>
      decide (s.generation = some 2) && decide (s.currentRevision = some (sampleRevision 4 (by decide))) &&
      decide (s'.generation = some 2) && decide (s'.currentRevision = some (sampleRevision 5 (by decide))) &&
      decide (s'.ready = s.ready) && s'.sources.toList.all (fun source => decide (source.2.revokedRevision = none)) &&
      decide (s'.readAuthorized 5 (sampleGetFact.knowing .current) sampleAuthorize = .error .notFound)) = true := by
    decide +kernel
  have research : (sampleResearchStanding.toOption.any fun s => (sampleResearchReplaced s).toOption.any fun s' =>
      decide (s.generation = some 2) && decide (s.currentRevision = some (sampleRevision 3 (by decide))) &&
      decide (s'.generation = some 2) && decide (s'.currentRevision = some (sampleRevision 4 (by decide))) &&
      decide (s'.ready = s.ready) && s'.sources.isEmpty) = true := by
    decide +kernel
  obtain ⟨s, standing, pilot⟩ := exists_of_any pilot
  obtain ⟨s', replaced, pilot⟩ := exists_of_any pilot
  obtain ⟨output, answered, pilot⟩ := exists_of_any pilot
  obtain ⟨t, standing', research⟩ := exists_of_any research
  obtain ⟨t', replaced', research⟩ := exists_of_any research
  simp only [Bool.and_eq_true, decide_eq_true_eq, ExtTreeMap.isEmpty_iff, List.all_eq_true] at pilot research
  obtain ⟨⟨⟨⟨⟨⟨generation, published⟩, generation'⟩, published'⟩, ready⟩, sources⟩, gone⟩ := pilot
  obtain ⟨⟨⟨⟨⟨started, recorded⟩, started'⟩, recorded'⟩, ready'⟩, empty⟩ := research
  have reached := reached_of_samplePublish standing
  have reached' : t.Reached := ⟨sampleScope, history_of_publishAll standing'⟩
  have history := history_of_publishAll replaced
  have history' := history_of_publishAll replaced'
  have agrees := ((knowledge_reads_agree sampleAuthorize).1 s s' 2 _ _ reached generation published history generation' published').1
    ready (by
      intro id source found
      rw [sources (id, source) (ExtTreeMap.mem_toList_iff_getElem?_eq_some.mpr found)]
      exact nofun) sampleGetFact
  have agrees' := ((knowledge_reads_agree sampleAuthorize).2 t t' 2 _ _ reached' started recorded history' started' recorded').1
    ready' (by
      intro id source found
      rw [empty] at found
      simp at found) sampleGetClaim rfl
  exact ⟨⟨s, s', output, reached, history, agrees.trans answered, answered, gone⟩, t, t', reached', history', agrees'⟩

end Sample

end Uste.Memory
