import Uste.Memory.ResearchHistory
import Uste.Memory.Timeline

/-!
A research state that mirrors a pilot state, record by record, and how the mutations of one event
carry the mirror on.
-/

namespace Uste.Memory.Research

open Types Crypto Policy Storage Txn Std List ExtTreeMap
open MemoryState (Change Follows Valid AdmitsSource AdmitsFact)

/-! ### The mirror -/

/-- Revisions of the pilot, each with the revision of the research state that stands for it. -/
abbrev Clock := List (CommitRevision × CommitRevision)

abbrev SameMark (clock : Clock) : Option CommitRevision → Option CommitRevision → Prop := Option.Rel fun a b => (a, b) ∈ clock

structure SourceImage (clock : Clock) (record : SourceVersionRecord) (entry : ResearchSourceEntry) : Prop where
  id : entry.input.id = record.input.id
  content : entry.input.content = some ⟨record.input.blob, record.input.mediaType⟩
  complete : entry.input.outcome = .complete
  recorded : (record.recordedRevision, entry.recordedRevision) ∈ clock
  superseded : SameMark clock record.supersededRevision entry.supersededRevision
  revoked : SameMark clock record.revokedRevision entry.revokedRevision

inductive StatusImage (clock : Clock) : Option FactTerminal → ClaimStatus → Prop where
  | active : StatusImage clock none .active
  | superseded {a b : CommitRevision} (tick : (a, b) ∈ clock) : StatusImage clock (some (.superseded a)) (.superseded b)
  | retracted {a b : CommitRevision} (tick : (a, b) ∈ clock) : StatusImage clock (some (.retracted a)) (.retracted b)

structure ClaimImage (clock : Clock) (record : FactRecord) (entry : ResearchClaimEntry) : Prop where
  id : entry.input.id = record.input.id
  text : (entry.input.subject, entry.input.predicate, entry.input.value) =
    (record.input.subject, record.input.predicate, record.input.value)
  cites : entry.input.citations.map (fun citation => (citation.source, citation.locator)) = [(record.input.source, record.input.locator)]
  corrects : entry.input.corrects = record.corrects
  recorded : (record.recordedRevision, entry.recordedRevision) ∈ clock
  status : StatusImage clock record.terminal entry.status

def links (s : MemoryState) : List (RecordRef × RecordRef) :=
  s.facts.toList.flatMap fun entry => entry.2.input.links.map fun link => (entry.1, link)

section

variable [Primitives]

def edgeOf (link : RecordRef × RecordRef) : RecordRef × EdgeInput := (pilotLinkEdgeId link.1 link.2, linkEdge link.1 link.2)

/-- One source for each source, one claim for each fact and one edge for each link, all in the order of the pilot. -/
structure Mirrors (clock : Clock) (s : MemoryState) (r : ResearchState) : Prop where
  ascending : clock.Pairwise fun a b => a.1.value < b.1.value ∧ a.2.value < b.2.value
  source : ∀ id : SourceVersionId, Option.Rel (SourceImage clock) s.sources[id]? r.sources[id]?
  claim : ∀ id : RecordRef, Option.Rel (ClaimImage clock) s.facts[id]? r.claims[id]?
  edge : (r.edges.toList.map fun entry => (entry.1, entry.2.input)).Perm ((links s).map edgeOf)

def touches (record : RecordRef) (link : RecordRef × RecordRef) : Bool := decide (link.1 = record) || decide (link.2 = record)

/-- The mirror while it is made, with the links that have their edge, and with what the research reducer counts. -/
structure Tracks (generation : Nat) (clock : Clock) (linked : List (RecordRef × RecordRef)) (s : MemoryState) (r : ResearchState) :
    Prop where
  scope : r.scope = s.scope
  generation : r.generation = some generation
  unready : r.ready = false
  artifacts : r.artifacts = ∅
  ascending : clock.Pairwise fun a b => a.1.value < b.1.value ∧ a.2.value < b.2.value
  ticked : ∀ tick ∈ clock, s.Past tick.1
  past : ∀ tick ∈ clock, ∃ current ∈ r.currentRevision, tick.2.value ≤ current.value
  numbered : ∀ id : SourceVersionId, id ∈ s.sources → id.version ≠ 0
  source : ∀ id : SourceVersionId, Option.Rel (SourceImage clock) s.sources[id]? r.sources[id]?
  claim : ∀ id : RecordRef, Option.Rel (ClaimImage clock) s.facts[id]? r.claims[id]?
  edge : (r.edges.toList.map fun entry => (entry.1, entry.2.input)).Perm (linked.map edgeOf)
  fanOut : ∀ record, r.fanOutOf record = linked.countP (touches record)
  bytes : r.retainedBytes = s.sourceBytes
  distinct : r.distinctSources ≤ r.sources.size

end

/-! ### Maps that are related entry by entry -/

section Rel

variable {κ α β : Type} [Ord κ] [TransOrd κ] {R : α → β → Prop} {m : ExtTreeMap κ α} {m' : ExtTreeMap κ β}

theorem mem_iff_of_rel (rel : ∀ k : κ, Option.Rel R m[k]? m'[k]?) (k : κ) : k ∈ m ↔ k ∈ m' := by
  have same := rel k
  rw [mem_iff_isSome_getElem?, mem_iff_isSome_getElem?]
  cases h : m[k]? <;> cases h' : m'[k]? <;> rw [h, h'] at same
  · rfl
  · cases same
  · cases same
  · rfl

variable {k : κ} {v : α}

theorem exists_of_rel (rel : ∀ k : κ, Option.Rel R m[k]? m'[k]?) (found : m[k]? = some v) :
    ∃ v', m'[k]? = some v' ∧ R v v' := by
  have same := rel k
  rw [found] at same
  cases h : m'[k]? <;> rw [h] at same
  · cases same
  · cases same with
    | some related => exact ⟨_, rfl, related⟩

theorem rel_insert (rel : ∀ k : κ, Option.Rel R m[k]? m'[k]?) {v' : β} (related : R v v') (j : κ) :
    Option.Rel R (m.insert k v)[j]? (m'.insert k v')[j]? := by
  rw [ExtTreeMap.getElem?_insert, ExtTreeMap.getElem?_insert]
  split
  · exact .some related
  · exact rel j

omit [Ord κ] [TransOrd κ] in
theorem rel_mono {R' : α → β → Prop} (imp : ∀ a b, R a b → R' a b) {a : Option α} {b : Option β} (rel : Option.Rel R a b) :
    Option.Rel R' a b := by
  cases rel with
  | some related => exact .some (imp _ _ related)
  | none => exact .none

end Rel

theorem SourceImage.usable {clock : Clock} {record : SourceVersionRecord} {entry : ResearchSourceEntry}
    (image : SourceImage clock record entry) (standing : record.revokedRevision = none) : entry.revokedRevision = none := by
  have revoked := image.revoked
  rw [standing] at revoked
  generalize entry.revokedRevision = mark at revoked
  cases revoked
  rfl

/-! ### A longer clock -/

section Clock

variable {clock clock' : Clock} (longer : clock ⊆ clock')

include longer

theorem SourceImage.mono {record : SourceVersionRecord} {entry : ResearchSourceEntry} (image : SourceImage clock record entry) :
    SourceImage clock' record entry where
  id := image.id
  content := image.content
  complete := image.complete
  recorded := longer image.recorded
  superseded := rel_mono (fun _ _ tick => longer tick) image.superseded
  revoked := rel_mono (fun _ _ tick => longer tick) image.revoked

theorem StatusImage.mono {terminal : Option FactTerminal} {status : ClaimStatus} (image : StatusImage clock terminal status) :
    StatusImage clock' terminal status := by
  cases image with
  | active => exact .active
  | superseded tick => exact .superseded (longer tick)
  | retracted tick => exact .retracted (longer tick)

theorem ClaimImage.mono {record : FactRecord} {entry : ResearchClaimEntry} (image : ClaimImage clock record entry) :
    ClaimImage clock' record entry where
  id := image.id
  text := image.text
  cites := image.cites
  corrects := image.corrects
  recorded := longer image.recorded
  status := image.status.mono longer

end Clock

/-! ### What the mirror tells -/

section Tracks

variable [Primitives] {generation : Nat} {clock : Clock} {linked : List (RecordRef × RecordRef)} {s : MemoryState} {r : ResearchState}
  (tracks : Tracks generation clock linked s r)

include tracks

theorem Tracks.mirrors (all : linked.Perm (links s)) : Mirrors clock s r :=
  ⟨tracks.ascending, tracks.source, tracks.claim, tracks.edge.trans (all.map _)⟩

theorem Tracks.mem_claims (id : RecordRef) : id ∈ r.claims ↔ id ∈ s.facts := (mem_iff_of_rel tracks.claim id).symm

variable {id : RecordRef}

theorem Tracks.mem_edges (mem : id ∈ r.edges) : ∃ link ∈ linked, pilotLinkEdgeId link.1 link.2 = id := by
  obtain ⟨entry, found⟩ := mem_iff_exists.mp mem
  have listed : (id, entry.input) ∈ r.edges.toList.map fun entry => (entry.1, entry.2.input) :=
    mem_map.mpr ⟨(id, entry), mem_toList_iff_getElem?_eq_some.mpr found, rfl⟩
  obtain ⟨link, there, same⟩ := mem_map.mp (tracks.edge.mem_iff.mp listed)
  exact ⟨link, there, congrArg Prod.fst same⟩

theorem Tracks.latestVersion_none {record : RecordRef} (absent : ∀ id : SourceVersionId, id ∈ s.sources → id.source ≠ record) :
    r.latestVersion record = none := by
  cases h : r.latestVersion record with
  | none => rfl
  | some latest =>
    obtain ⟨entry, found⟩ := ResearchState.latestVersion_mem h
    exact absurd rfl (absent _ ((mem_iff_of_rel tracks.source _).mpr (mem_of_some found)))

theorem Tracks.free (source : r.latestVersion id = none) (fact : id ∉ s.facts)
    (edge : ∀ link ∈ linked, pilotLinkEdgeId link.1 link.2 ≠ id) : r.occupied id = false := by
  unfold ResearchState.occupied
  have claims : r.claims.contains id = false := by
    rw [← Bool.not_eq_true, ExtTreeMap.contains_iff_mem, tracks.mem_claims]
    exact fact
  have edges : r.edges.contains id = false := by
    rw [← Bool.not_eq_true, ExtTreeMap.contains_iff_mem]
    intro mem
    obtain ⟨link, there, same⟩ := tracks.mem_edges mem
    exact edge link there same
  simp [source, tracks.artifacts, claims, edges]

theorem Tracks.occupied_fact (fact : id ∈ s.facts) : r.occupied id = true := by
  have claims : r.claims.contains id = true := contains_iff_mem.mpr ((tracks.mem_claims id).mpr fact)
  unfold ResearchState.occupied
  simp [claims]

theorem Tracks.size_sources : r.sources.size = s.sources.size :=
  (Totals.size_eq_of_mem_iff (mem_iff_of_rel tracks.source)).symm

theorem Tracks.size_claims : r.claims.size = s.facts.size :=
  (Totals.size_eq_of_mem_iff (mem_iff_of_rel tracks.claim)).symm

theorem Tracks.size_edges : r.edges.size = linked.length := by
  have lengths := tracks.edge.length_eq
  rwa [length_map, length_map, length_toList] at lengths

theorem Tracks.latestVersion_of_expected {source : RecordRef} {version : Nat} (expected : s.expectedVersion source = .ok version) :
    version < 2 ^ 32 ∧ (r.latestVersion source = none ∧ version = 1 ∨
      ∃ latest, r.latestVersion source = some latest ∧ latest ≠ 0 ∧ version = latest + 1) := by
  obtain ⟨fits, sum⟩ := checkedAdd_eq_some.mp (orError_ok.mp expected)
  refine ⟨by omega, ?_⟩
  have known (id : SourceVersionId) (mem : id ∈ s.sources.keys.filter (·.source = source)) :
      ∃ latest, r.latestVersion source = some latest ∧ id.version ≤ latest := by
    obtain ⟨there, sourced⟩ := mem_filter.mp mem
    obtain ⟨record, found⟩ := mem_iff_exists.mp (mem_keys.mp there)
    obtain ⟨entry, found, -⟩ := exists_of_rel tracks.source found
    rw [← of_decide_eq_true sourced]
    exact ResearchState.le_latestVersion found
  cases latest : r.latestVersion source with
  | none =>
    left
    have empty : s.sources.keys.filter (·.source = source) = [] := by
      apply eq_nil_iff_forall_not_mem.mpr
      intro id mem
      obtain ⟨_, found, -⟩ := known id mem
      cases latest.symm.trans found
    rw [empty] at sum
    simpa using sum.symm
  | some latest' =>
    right
    obtain ⟨entry, found⟩ := ResearchState.latestVersion_mem latest
    have mem : (⟨source, latest'⟩ : SourceVersionId) ∈ s.sources := (mem_iff_of_rel tracks.source _).mpr (mem_of_some found)
    have greatest : ((s.sources.keys.filter (·.source = source)).map (·.version)).max? = some latest' := by
      apply List.max?_eq_some_iff.mpr
      refine ⟨mem_map.mpr ⟨_, mem_filter.mpr ⟨mem_keys.mpr mem, by simp⟩, rfl⟩, ?_⟩
      intro version mem
      obtain ⟨id, there, rfl⟩ := mem_map.mp mem
      obtain ⟨_, found, le⟩ := known id there
      cases latest.symm.trans found
      exact le
    rw [greatest] at sum
    exact ⟨latest', rfl, tracks.numbered _ mem, sum.symm⟩

end Tracks

/-! ### One mutation -/

section Steps

variable [Primitives] {generation : Nat} {clock : Clock} {linked : List (RecordRef × RecordRef)} {s : MemoryState} {r : ResearchState}
  {revision now : CommitRevision}

theorem Tracks.tick (tracks : Tracks generation clock linked s r)
    (later : ∀ current ∈ s.currentRevision, current.value < revision.value)
    (after : ∀ current ∈ r.currentRevision, current.value < now.value) :
    Tracks generation (clock ++ [(revision, now)]) linked { s with currentRevision := some revision }
      { r with currentRevision := some now } := by
  have longer : clock ⊆ clock ++ [(revision, now)] := subset_append_left _ _
  exact { tracks with
    ascending := by
      apply pairwise_append.mpr
      refine ⟨tracks.ascending, pairwise_singleton _ _, ?_⟩
      intro tick mem last there
      obtain rfl := mem_singleton.mp there
      obtain ⟨current, found, le⟩ := tracks.ticked tick mem
      obtain ⟨current', found', le'⟩ := tracks.past tick mem
      exact ⟨le.trans_lt (later current found), le'.trans_lt (after current' found')⟩
    ticked := by
      intro tick mem
      rcases mem_append.mp mem with mem | mem
      · exact (tracks.ticked tick mem).advance later rfl
      · obtain rfl := mem_singleton.mp mem
        exact MemoryState.past_now rfl
    past := by
      intro tick mem
      rcases mem_append.mp mem with mem | mem
      · obtain ⟨current, found, le⟩ := tracks.past tick mem
        exact ⟨now, rfl, le.trans (after current found).le⟩
      · obtain rfl := mem_singleton.mp mem
        exact ⟨now, rfl, le_rfl⟩
    source := fun id => rel_mono (fun _ _ => SourceImage.mono longer) (tracks.source id)
    claim := fun id => rel_mono (fun _ _ => ClaimImage.mono longer) (tracks.claim id) }

theorem Tracks.wait (tracks : Tracks generation clock linked s r)
    (after : ∀ current ∈ r.currentRevision, current.value < now.value) :
    Tracks generation clock linked s { r with currentRevision := some now } :=
  { tracks with
    past := by
      intro tick mem
      obtain ⟨current, found, le⟩ := tracks.past tick mem
      exact ⟨now, rfl, le.trans (after current found).le⟩ }

omit [Primitives] in
theorem apply_of_mutate {transaction : ResearchTransaction} {inventory : Option BlobInventory} {r' : ResearchState}
    (scope : transaction.scope = r.scope) (nonzero : transaction.generation ≠ 0)
    (h : r.mutate transaction inventory now = .ok r') :
    r.apply transaction inventory now = .ok { r' with currentRevision := some now } := by
  unfold ResearchState.apply
  rw [require_pos _ ⟨scope, nonzero⟩, ok_bind, h]
  rfl

omit [Primitives] in
theorem checkLinks_ok {previous : Option RecordRef} {items : List RecordRef} (h : s.checkLinks previous items = .ok ()) :
    ∀ link ∈ items, link ∈ s.facts := by
  induction items generalizing previous with
  | nil => nofun
  | cons first rest ih =>
    obtain ⟨_, -, _, checked, h⟩ := bind_ok₂ h
    intro link mem
    rcases mem_cons.mp mem with rfl | mem
    · exact (require_ok.mp checked).2
    · exact ih h link mem

variable {fact : FactInput}

omit [Primitives] in
theorem validateFact_ok (h : s.validateFact fact = .ok ()) :
    (∃ source, s.sources[fact.source]? = some source ∧ source.revokedRevision = none ∧
      fact.locator.range.2 ≤ source.input.blob.byteLen) ∧ ∀ link ∈ fact.links, link ∈ s.facts := by
  obtain ⟨_, -, _, -, _, -, _, -, h⟩ := bind_ok₄ h
  obtain ⟨_, linked, source, found, _, usable, _, located, -⟩ := bind_ok₄ h
  exact ⟨⟨source, orError_ok.mp found, require_ok.mp usable, (require_ok.mp located).2⟩, checkLinks_ok linked⟩

variable {corrects : Option RecordRef} {claim : ClaimInput}

theorem mapFact_ok (h : mapFact s fact corrects = .ok claim) :
    claim.id = fact.id ∧ (claim.subject, claim.predicate, claim.value) = (fact.subject, fact.predicate, fact.value) ∧
      claim.corrects = corrects ∧ ∃ citation, claim.citations = [citation] ∧ citation.source = fact.source ∧
        citation.locator = fact.locator := by
  obtain ⟨_, -, text, -, _, -, h⟩ := bind_ok₃ h
  cases h
  exact ⟨rfl, rfl, rfl, _, rfl, rfl, rfl⟩

omit [Primitives] in
theorem countEdge_getD (counts : ExtTreeMap RecordRef Nat) (edge : EdgeInput) (record : RecordRef) :
    (ResearchState.countEdge counts edge)[record]?.getD 0 = counts[record]?.getD 0 +
      (if edge.fromRecord = record then 1 else 0) + if edge.toRecord = record then 1 else 0 := by
  have key (a b : RecordRef) : compare a b = .eq ↔ a = b := LawfulEqOrd.compare_eq_iff_eq
  unfold ResearchState.countEdge
  simp only [foldl_cons, foldl_nil, ExtTreeMap.getElem?_insert, key]
  by_cases first : edge.fromRecord = record
  · by_cases second : edge.toRecord = record <;> simp [first, second]
  · by_cases second : edge.toRecord = record <;> simp [first, second]

theorem Tracks.logical (tracks : Tracks generation clock linked s r) (bytes : Nat) :
    Tracks generation clock linked { s with logicalBytes := bytes } r := { tracks with }

variable {id : SourceVersionId} {source : SourceVersionInput}

omit [Primitives] in
theorem mapSource_ok {context : PilotMappingContext} {mapped : PilotMappedMutation}
    (h : mapSource id source context = .ok mapped) : ∃ input inventory, mapped = ⟨.put (.source input), some inventory⟩ ∧
      input.id = id ∧ input.content = some ⟨source.blob, source.mediaType⟩ ∧ input.outcome = .complete ∧
      inventory.scope = source.blob.scope ∧ inventory.references = [source.blob] := by
  obtain ⟨inventory, made, h⟩ := bind_ok h
  cases h
  exact ⟨_, inventory, rfl, rfl, rfl, rfl, BlobInventory.new_singleton_ok (mapError_eq_ok made)⟩

variable (tracks : Tracks generation clock linked s { r with currentRevision := some now })

include tracks

theorem Tracks.endClaim {target : RecordRef} {prior : FactRecord} {terminal : FactTerminal} {status : ClaimStatus}
    (found : s.facts[target]? = some prior)
    (standing : prior.terminal = none) (image : StatusImage clock (some terminal) status) :
    ∃ r', r.endClaim target status = .ok r' ∧
      Tracks generation clock linked { s with facts := s.facts.insert target { prior with terminal := some terminal } }
        { r' with currentRevision := some now } := by
  obtain ⟨claim, found, same⟩ := exists_of_rel tracks.claim found
  have active : claim.status = .active := by
    have status := same.status
    rw [standing] at status
    generalize claim.status = current at status
    cases status
    rfl
  refine ⟨{ r with claims := r.claims.insert target { claim with status := status } }, ?_, ?_⟩
  · unfold ResearchState.endClaim
    rw [found]
    simp only [orError, ok_bind]
    rw [require_pos _ active]
    rfl
  · have ended : ClaimImage clock { prior with terminal := some terminal } { claim with status := status } :=
      ⟨same.id, same.text, same.cites, same.corrects, same.recorded, image⟩
    exact { tracks with claim := rel_insert tracks.claim ended }

theorem Tracks.revokeSource {prior : SourceVersionRecord} (found : s.sources[id]? = some prior)
    (standing : prior.revokedRevision = none) (tick : (revision, now) ∈ clock) : ∃ r', r.revokeSource id now = .ok r' ∧
      Tracks generation clock linked { s with sources := s.sources.insert id { prior with revokedRevision := some revision } }
        { r' with currentRevision := some now } := by
  have present := mem_of_some found
  obtain ⟨entry, found, same⟩ := exists_of_rel tracks.source found
  have usable := same.usable standing
  refine ⟨{ r with sources := r.sources.insert id { entry with revokedRevision := some now } }, ?_, ?_⟩
  · unfold ResearchState.revokeSource
    rw [found]
    simp only [orError, ok_bind]
    rw [require_pos _ usable]
    rfl
  · have revoked : SourceImage clock { prior with revokedRevision := some revision } { entry with revokedRevision := some now } :=
      ⟨same.id, same.content, same.complete, same.recorded, same.superseded, .some tick⟩
    exact { tracks with
      numbered := by
        intro other mem
        exact tracks.numbered other ((mem_reinsert present).mp mem)
      source := rel_insert tracks.source revoked
      distinct := tracks.distinct.trans (size_le_size_insert) }

theorem Tracks.checkCitation {citation : CitationInput} {source : SourceVersionRecord} (found : s.sources[citation.source]? = some source)
    (standing : source.revokedRevision = none) (within : citation.locator.range.2 ≤ source.input.blob.byteLen) :
    r.checkCitation citation = .ok () := by
  obtain ⟨entry, found, same⟩ := exists_of_rel tracks.source found
  have usable := same.usable standing
  have ready : r.usableSource citation.source = .ok entry.input := by
    unfold ResearchState.usableSource
    rw [found]
    simp only [orError, ok_bind]
    rw [require_pos _ usable]
    rfl
  unfold ResearchState.checkCitation
  rw [ready, ok_bind, same.complete, same.content]
  exact require_pos _ within

theorem Tracks.putClaim {pilot s₁ : MemoryState}
    {r₁ : ResearchState} (usable : ∃ source, s.sources[fact.source]? = some source ∧ source.revokedRevision = none ∧
      fact.locator.range.2 ≤ source.input.blob.byteLen) (few : s.facts.size < pilotProfile.maximumFacts)
    (mapped : mapFact pilot fact corrects = .ok claim) (free : r.occupied fact.id = false) (tick : (revision, now) ∈ clock) (superseding : r.supersedeClaim corrects now = .ok r₁)
    (superseded : Tracks generation clock linked s₁ { r₁ with currentRevision := some now }) :
    ∃ r', r.putClaim claim now = .ok r' ∧
      Tracks generation clock linked { s₁ with facts := s₁.facts.insert fact.id ⟨fact, revision, corrects, none⟩ }
        { r' with currentRevision := some now } := by
  obtain ⟨id, text, corrected, citation, cites, cited, located⟩ := mapFact_ok mapped
  obtain ⟨source, found, standing, within⟩ := usable
  have checked : claim.citations.forM r.checkCitation = .ok () := by
    rw [cites]
    have checked : r.checkCitation citation = .ok () :=
      tracks.checkCitation (by rw [cited]; exact found) standing (by rw [located]; exact within)
    show (do r.checkCitation citation; pure ()) = Except.ok ()
    rw [checked]
    rfl
  have room : r.claims.size < researchProfile.maximumClaims := by
    have size : r.claims.size = s.facts.size := tracks.size_claims
    rw [size]
    exact Nat.lt_of_lt_of_le few (by decide)
  refine ⟨{ r₁ with claims := r₁.claims.insert claim.id ⟨claim, now, .active⟩ }, ?_, ?_⟩
  · unfold ResearchState.putClaim
    rw [id, require_pos _ free, ok_bind, require_pos _ room, ok_bind, checked, ok_bind, corrected, superseding]
    rfl
  · have image : ClaimImage clock ⟨fact, revision, corrects, none⟩ ⟨claim, now, .active⟩ := by
      refine ⟨id, text, ?_, corrected, tick, .active⟩
      show claim.citations.map _ = _
      rw [cites, map_singleton, cited, located]
    rw [id]
    exact { superseded with claim := rel_insert superseded.claim image }

theorem Tracks.putEdge {fact link : RecordRef} (free : r.occupied (pilotLinkEdgeId fact link) = false) (stands : fact ∈ s.facts) (linksTo : link ∈ s.facts) (apart : fact ≠ link)
    (room : linked.length < researchProfile.maximumEdges)
    (fanOut : ∀ record ∈ [fact, link], linked.countP (touches record) < researchProfile.maximumEdgesPerRecord) :
    ∃ r', r.putEdge (linkEdge fact link) now = .ok r' ∧
      Tracks generation clock (linked ++ [(fact, link)]) s { r' with currentRevision := some now } := by
  have ends {id : RecordRef} (mem : id ∈ s.facts) : r.occupied id = true := tracks.occupied_fact mem
  have asserted : fact ∈ r.claims := (tracks.mem_claims fact).mpr stands
  have size : r.edges.size = linked.length := tracks.size_edges
  have counted : ([fact, link].forM fun record =>
      require (r.fanOutOf record < researchProfile.maximumEdgesPerRecord) ApplyError.resourceLimit) = .ok () := by
    have within (record : RecordRef) (mem : record ∈ [fact, link]) :
        r.fanOutOf record < researchProfile.maximumEdgesPerRecord := by
      have count : r.fanOutOf record = linked.countP (touches record) := tracks.fanOut record
      rw [count]
      exact fanOut record mem
    show (do
      require (r.fanOutOf fact < researchProfile.maximumEdgesPerRecord) ApplyError.resourceLimit
      require (r.fanOutOf link < researchProfile.maximumEdgesPerRecord) ApplyError.resourceLimit
      pure ()) = Except.ok ()
    rw [require_pos _ (within fact (by simp)), ok_bind, require_pos _ (within link (by simp))]
    rfl
  have absent : r.edges[pilotLinkEdgeId fact link]? = none := (ResearchState.not_mem_of_occupied free).2
  refine ⟨{ r with
    fanOut := ResearchState.countEdge r.fanOut (linkEdge fact link)
    edges := r.edges.insert (pilotLinkEdgeId fact link) ⟨linkEdge fact link, now⟩ }, ?_, ?_⟩
  · unfold ResearchState.putEdge
    rw [require_pos _ ⟨free, ends stands, ends linksTo⟩, ok_bind, require_pos _ (.inl asserted), ok_bind,
      require_pos _ (by rw [size]; exact room), ok_bind]
    exact counted ▸ rfl
  · exact { tracks with
      edge := by
        apply ((Totals.perm_insert absent _).map _).trans
        rw [map_append, map_cons]
        exact (tracks.edge.cons _).trans (perm_append_singleton _ _).symm
      fanOut := by
        intro record
        have count : r.fanOut[record]?.getD 0 = linked.countP (touches record) := tracks.fanOut record
        show (ResearchState.countEdge r.fanOut (linkEdge fact link))[record]?.getD 0 = _
        rw [countEdge_getD, count, countP_append, countP_singleton, Nat.add_assoc]
        by_cases first : fact = record
        · subst first
          simp [linkEdge, touches, apart.symm]
        · by_cases second : link = record <;> simp [linkEdge, touches, first, second] }

variable {sources : ExtTreeMap SourceVersionId SourceVersionRecord}

theorem Tracks.supersede {source : RecordRef} {version : Nat}
    (latest : r.latestVersion source = none ∧ version = 1 ∨ ∃ latest, r.latestVersion source = some latest ∧ latest ≠ 0 ∧
      version = latest + 1)
    (superseded : version = 1 ∧ sources = s.sources ∨ 1 < version ∧ ∃ record,
      s.sources[(⟨source, version - 1⟩ : SourceVersionId)]? = some record ∧
      sources = s.sources.insert ⟨source, version - 1⟩ { record with supersededRevision := some revision })
    (tick : (revision, now) ∈ clock) :
    ∃ entries distinct, (∀ retained, { r with retainedBytes := retained }.supersede source now =
        .ok { r with retainedBytes := retained, sources := entries, distinctSources := distinct }) ∧
      (∀ id : SourceVersionId, Option.Rel (SourceImage clock) sources[id]? entries[id]?) ∧ distinct ≤ s.sources.size + 1 ∧
      sources.size = s.sources.size ∧ ∀ id : SourceVersionId, id ∈ sources ↔ id ∈ s.sources := by
  have bounded : r.distinctSources ≤ s.sources.size := by
    have size : r.sources.size = s.sources.size := tracks.size_sources
    rw [← size]
    exact tracks.distinct
  obtain ⟨none_before, rfl⟩ | ⟨previous, some_before, nonzero, rfl⟩ := latest
  · obtain ⟨-, rfl⟩ | ⟨more, -⟩ := superseded
    · refine ⟨r.sources, r.distinctSources + 1, ?_, tracks.source, by omega, rfl, fun _ => Iff.rfl⟩
      intro retained
      have same : { r with retainedBytes := retained }.latestVersion source = none := none_before
      unfold ResearchState.supersede
      rw [same]
      rfl
    · omega
  · obtain ⟨one, -⟩ | ⟨-, record, found, rfl⟩ := superseded
    · omega
    · rw [Nat.add_sub_cancel] at found ⊢
      have present := mem_of_some found
      obtain ⟨entry, entered, image⟩ := exists_of_rel tracks.source found
      have next : SourceImage clock { record with supersededRevision := some revision } { entry with supersededRevision := some now } :=
        ⟨image.id, image.content, image.complete, image.recorded, .some tick, image.revoked⟩
      refine ⟨r.sources.insert ⟨source, previous⟩ { entry with supersededRevision := some now }, r.distinctSources, ?_,
        rel_insert tracks.source next, by omega, ?_, ?_⟩
      · intro retained
        have same : { r with retainedBytes := retained }.latestVersion source = some previous := some_before
        unfold ResearchState.supersede
        rw [same]
        simp only [entered, orError, ok_bind]
        rfl
      · rw [size_insert, if_pos (contains_iff_mem.mpr present)]
      · exact fun _ => mem_reinsert present

theorem Tracks.putSource {given : Option BlobInventory} {input : SourceRecordInput} {inventory : BlobInventory}
    (admits : AdmitsSource s source given)
    (superseded : source.id.version = 1 ∧ sources = s.sources ∨ 1 < source.id.version ∧ ∃ record,
      s.sources[(⟨source.id.source, source.id.version - 1⟩ : SourceVersionId)]? = some record ∧
      sources = s.sources.insert ⟨source.id.source, source.id.version - 1⟩ { record with supersededRevision := some revision })
    (id : input.id = source.id) (content : input.content = some ⟨source.blob, source.mediaType⟩) (complete : input.outcome = .complete)
    (scope : inventory.scope = source.blob.scope) (references : inventory.references = [source.blob])
    (free : r.latestVersion source.id.source = none → r.occupied source.id.source = false) (tick : (revision, now) ∈ clock) :
    ∃ r', r.putSource input (some inventory) now = .ok r' ∧
      Tracks generation clock linked { s with
        sources := sources.insert source.id ⟨source, revision, none, none⟩
        sourceBytes := s.sourceBytes + source.blob.byteLen } { r' with currentRevision := some now } := by
  obtain ⟨fits, latest⟩ : source.id.version < 2 ^ 32 ∧ (r.latestVersion source.id.source = none ∧ source.id.version = 1 ∨
      ∃ latest, r.latestVersion source.id.source = some latest ∧ latest ≠ 0 ∧ source.id.version = latest + 1) :=
    tracks.latestVersion_of_expected admits.next
  obtain ⟨entries, distinct, supersedes, related, bounded, size, members⟩ := tracks.supersede latest superseded tick
  have shape : source.id.version ≠ 0 ∧ source.blob.scope = s.scope := by
    obtain ⟨_, -, _, shape, -⟩ := bind_ok₂ admits.valid
    exact ⟨(require_ok.mp shape).1, (require_ok.mp shape).2.1⟩
  have sized : r.sources.size = s.sources.size := tracks.size_sources
  have room : r.sources.size < 256 := by
    rw [sized]
    exact admits.room
  have few : r.distinctSources ≤ r.sources.size := tracks.distinct
  have retained : r.retainedBytes = s.sourceBytes := tracks.bytes
  have bytes : s.sourceBytes + source.blob.byteLen ≤ 32 * 1024 * 1024 := admits.bytes
  have expected : checkedAdd (2 ^ 32) ((r.latestVersion source.id.source).getD 0) 1 = some source.id.version := by
    obtain ⟨before, one⟩ | ⟨previous, before, -, next⟩ := latest
    · rw [before, one]
      decide
    · rw [before, next]
      have fits : previous + 1 < 2 ^ 32 := by omega
      exact if_pos fits
  have charged : r.chargeRetained input.content = .ok { r with retainedBytes := s.sourceBytes + source.blob.byteLen } := by
    have sum : checkedAdd wordLimit r.retainedBytes ((input.content.map (·.blob.byteLen)).getD 0) =
        some (s.sourceBytes + source.blob.byteLen) := by
      rw [content, retained]
      have fits : s.sourceBytes + source.blob.byteLen < wordLimit := Nat.lt_of_le_of_lt bytes (by decide)
      exact if_pos fits
    unfold ResearchState.chargeRetained
    rw [sum]
    simp only [orError, ok_bind]
    rw [require_pos _ (Nat.le_trans bytes (by decide))]
    rfl
  have bound : requireInventory r.scope input.content (some inventory) = .ok () := by
    have same : r.scope = s.scope := tracks.scope
    rw [content]
    exact require_pos _ ⟨by rw [scope, same]; exact shape.2, references⟩
  have unoccupied : ¬(r.latestVersion source.id.source = none ∧ r.occupied source.id.source = true) := by
    rintro ⟨before, taken⟩
    rw [free before] at taken
    cases taken
  have roomy : ¬(r.latestVersion source.id.source = none ∧ researchProfile.maximumSources ≤ r.distinctSources) := by
    rintro ⟨-, many⟩
    have many : 65536 ≤ r.distinctSources := many
    omega
  have absent : source.id ∉ sources := fun mem => admits.fresh ((members _).mp mem)
  refine ⟨{ r with
    retainedBytes := s.sourceBytes + source.blob.byteLen
    distinctSources := distinct
    sources := entries.insert source.id ⟨input, now, none, none⟩ }, ?_, ?_⟩
  · unfold ResearchState.putSource
    rw [id]
    dsimp only
    rw [require_pos _ unoccupied, ok_bind, expected]
    simp only [orError, ok_bind]
    rw [require_pos _ trivial, ok_bind, require_pos _ roomy, ok_bind, require_pos _ (Nat.lt_of_lt_of_le room (by decide)), ok_bind, bound, ok_bind, charged, ok_bind, supersedes]
    rfl
  · have image : SourceImage clock ⟨source, revision, none, none⟩ ⟨input, now, none, none⟩ :=
      ⟨id, content, complete, tick, .none, .none⟩
    exact { tracks with
      numbered := by
        intro other mem
        rcases mem_insert_iff.mp mem with rfl | mem
        · exact shape.1
        · exact tracks.numbered other ((members other).mp mem)
      source := rel_insert related image
      bytes := rfl
      distinct := by
        have grown : (entries.insert source.id ⟨input, now, none, none⟩).size = s.sources.size + 1 := by
          rw [← Totals.size_eq_of_mem_iff (mem_iff_of_rel (rel_insert related image)), size_insert_new absent, size]
        show distinct ≤ (entries.insert source.id ⟨input, now, none, none⟩).size
        rw [grown]
        exact bounded }

end Steps

end Uste.Memory.Research
