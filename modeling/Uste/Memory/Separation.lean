import Uste.Memory.Mirror

/-!
Identities of a research state: a source, a claim and an edge never share one, and no record has
more edges than the profile allows.
-/

namespace Uste.Memory.Research

open Types Crypto Policy Storage Txn Std

def edgesAt (edges : ExtTreeMap RecordRef ResearchEdgeEntry) (record : RecordRef) : Nat :=
  edges.toList.countP fun entry => touches record (entry.2.input.fromRecord, entry.2.input.toRecord)

structure Separate (r : ResearchState) : Prop where
  claim : ∀ id : RecordRef, id ∈ r.claims → ∀ version : SourceVersionId, version ∈ r.sources → version.source ≠ id
  edge : ∀ id : RecordRef, id ∈ r.edges → id ∉ r.claims ∧ ∀ version : SourceVersionId, version ∈ r.sources → version.source ≠ id
  counted : ∀ record, edgesAt r.edges record ≤ r.fanOutOf record
  fanOut : ∀ record, edgesAt r.edges record ≤ researchProfile.maximumEdgesPerRecord

namespace ResearchState

variable {s s' : ResearchState} {revision : CommitRevision}

theorem separate_of_empty (claims : s.claims = ∅) (edges : s.edges = ∅) : Separate s := by
  have none_at (record : RecordRef) : edgesAt s.edges record = 0 := by
    rw [edges]
    rfl
  constructor
  · intro id mem
    simp [claims] at mem
  · intro id mem
    simp [edges] at mem
  · intro record
    rw [none_at]
    exact Nat.zero_le _
  · intro record
    rw [none_at]
    exact Nat.zero_le _

theorem separate_of_mem (separate : Separate s) (sources : ∀ id : SourceVersionId, id ∈ s'.sources → id ∈ s.sources)
    (claims : ∀ id : RecordRef, id ∈ s'.claims → id ∈ s.claims) (edges : s'.edges = s.edges) (fanOut : s'.fanOut = s.fanOut) :
    Separate s' := by
  constructor
  · intro id mem version there
    exact separate.claim id (claims id mem) version (sources version there)
  · intro id mem
    rw [edges] at mem
    obtain ⟨unclaimed, unsourced⟩ := separate.edge id mem
    exact ⟨fun mem => unclaimed (claims id mem), fun version there => unsourced version (sources version there)⟩
  · intro record
    unfold fanOutOf
    rw [edges, fanOut]
    exact separate.counted record
  · intro record
    rw [edges]
    exact separate.fanOut record

theorem apart_of_free {id : RecordRef} (free : s.occupied id = false) :
    id ∉ s.claims ∧ id ∉ s.edges ∧ ∀ version : SourceVersionId, version ∈ s.sources → version.source ≠ id := by
  obtain ⟨claims, edges⟩ := not_mem_of_occupied free
  refine ⟨not_mem_of_none claims, not_mem_of_none edges, ?_⟩
  rintro version mem rfl
  obtain ⟨entry, found⟩ := mem_iff_exists.mp mem
  obtain ⟨latest, known, -⟩ := le_latestVersion found
  unfold occupied at free
  rw [known] at free
  simp at free

theorem endClaim_separate {target : RecordRef} {terminal : ClaimStatus} (separate : Separate s)
    (h : s.endClaim target terminal = .ok s') : Separate s' := by
  obtain ⟨entry, found, _, -, h⟩ := bind_ok₂ h
  cases h
  exact separate_of_mem separate (fun _ mem => mem) (fun _ mem => (mem_reinsert (mem_of_some (orError_ok.mp found))).mp mem) rfl rfl

theorem supersede_mem {source : RecordRef} (h : s.supersede source revision = .ok s') :
    (∀ id : SourceVersionId, id ∈ s'.sources → id ∈ s.sources) ∧ s'.claims = s.claims ∧ s'.edges = s.edges ∧
      s'.fanOut = s.fanOut := by
  unfold supersede at h
  split at h
  · obtain ⟨entry, found, h⟩ := bind_ok h
    cases h
    exact ⟨fun _ mem => (mem_reinsert (mem_of_some (orError_ok.mp found))).mp mem, rfl, rfl, rfl⟩
  · cases h
    exact ⟨fun _ mem => mem, rfl, rfl, rfl⟩

variable {inventory : Option BlobInventory}

section

variable (separate : Separate s)

include separate

theorem putSource_separate {source : SourceRecordInput}
    (h : s.putSource source inventory revision = .ok s') : Separate s' := by
  obtain ⟨_, unoccupied, _, -, _, -, _, -, h⟩ := bind_ok₄ h
  obtain ⟨_, -, _, -, charged, charge, h⟩ := bind_ok₃ h
  obtain ⟨retained, rfl⟩ := chargeRetained_ok charge
  obtain ⟨superseding, supersedes, h⟩ := bind_ok h
  cases h
  obtain ⟨sources, claims, edges, fanOut⟩ := supersede_mem supersedes
  -- the record is a source already, or its identity is free
  have apart : source.id.source ∉ s.claims ∧ source.id.source ∉ s.edges := by
    cases latest : s.latestVersion source.id.source with
    | none =>
      have free : s.occupied source.id.source = false := by
        by_contra taken
        exact require_ok.mp unoccupied ⟨latest, Bool.eq_true_of_not_eq_false taken⟩
      exact ⟨(apart_of_free free).1, (apart_of_free free).2.1⟩
    | some version =>
      obtain ⟨entry, found⟩ := latestVersion_mem latest
      have there := mem_of_some found
      exact ⟨fun mem => separate.claim _ mem _ there rfl, fun mem => (separate.edge _ mem).2 _ there rfl⟩
  have before : Separate superseding := separate_of_mem separate sources (by rw [claims]; exact fun _ mem => mem) edges fanOut
  constructor
  · intro id mem version there
    rcases mem_insert_iff.mp there with rfl | there
    · rintro rfl
      exact apart.1 (claims ▸ mem)
    · exact before.claim id mem version there
  · intro id mem
    refine ⟨(before.edge id mem).1, ?_⟩
    intro version there
    rcases mem_insert_iff.mp there with rfl | there
    · rintro rfl
      exact apart.2 (edges ▸ mem)
    · exact (before.edge id mem).2 version there
  · exact before.counted
  · exact before.fanOut

theorem putArtifact_separate {artifact : ArtifactInput}
    (h : s.putArtifact artifact inventory revision = .ok s') : Separate s' := by
  obtain ⟨_, -, _, -, _, -, _, -, h⟩ := bind_ok₄ h
  obtain ⟨charged, charge, h⟩ := bind_ok h
  obtain ⟨retained, rfl⟩ := chargeRetained_ok charge
  cases h
  exact separate_of_mem separate (fun _ mem => mem) (fun _ mem => mem) rfl rfl

theorem putClaim_separate {claim : ClaimInput} (h : s.putClaim claim revision = .ok s') : Separate s' := by
  obtain ⟨_, free, _, -, _, -, superseding, supersedes, h⟩ := bind_ok₄ h
  cases h
  obtain ⟨-, unlinked, unsourced⟩ := apart_of_free (require_ok.mp free)
  have kept : superseding.sources = s.sources ∧ superseding.edges = s.edges ∧ superseding.fanOut = s.fanOut ∧ Separate superseding := by
    unfold supersedeClaim at supersedes
    split at supersedes
    · cases supersedes
      exact ⟨rfl, rfl, rfl, separate⟩
    · have before := endClaim_separate separate supersedes
      obtain ⟨entry, -, _, -, supersedes⟩ := bind_ok₂ supersedes
      cases supersedes
      exact ⟨rfl, rfl, rfl, before⟩
  obtain ⟨sources, edges, fanOut, before⟩ := kept
  constructor
  · intro id mem version there
    rcases mem_insert_iff.mp mem with rfl | mem
    · exact unsourced version (sources ▸ there)
    · exact before.claim id mem version there
  · intro id mem
    refine ⟨?_, (before.edge id mem).2⟩
    intro there
    rcases mem_insert_iff.mp there with rfl | there
    · exact unlinked (edges ▸ mem)
    · exact (before.edge id mem).1 there
  · exact before.counted
  · exact before.fanOut

theorem putEdge_separate {edge : EdgeInput} (h : s.putEdge edge revision = .ok s') : Separate s' := by
  obtain ⟨_, free, _, -, _, -, _, within, h⟩ := bind_ok₄ h
  cases h
  obtain ⟨unclaimed, unlinked, unsourced⟩ := apart_of_free (require_ok.mp free).1
  have one_more (record : RecordRef) : edgesAt (s.edges.insert edge.id ⟨edge, revision⟩) record =
      edgesAt s.edges record + if touches record (edge.fromRecord, edge.toRecord) = true then 1 else 0 := by
    unfold edgesAt
    rw [(Totals.perm_insert (ExtTreeMap.getElem?_eq_none unlinked) _).countP_eq, List.countP_cons]
  constructor
  · exact separate.claim
  · intro id mem
    rcases mem_insert_iff.mp mem with rfl | mem
    · exact ⟨unclaimed, unsourced⟩
    · exact separate.edge id mem
  · intro record
    show edgesAt (s.edges.insert edge.id ⟨edge, revision⟩) record ≤ (countEdge s.fanOut edge)[record]?.getD 0
    rw [one_more, countEdge_getD, Nat.add_assoc]
    apply Nat.add_le_add (separate.counted record)
    by_cases first : edge.fromRecord = record <;> by_cases second : edge.toRecord = record <;> simp [touches, first, second]
  · intro record
    show edgesAt (s.edges.insert edge.id ⟨edge, revision⟩) record ≤ _
    rw [one_more]
    split
    · rename_i touched
      have ended : record ∈ [edge.fromRecord, edge.toRecord] := by
        unfold touches at touched
        simp only [Bool.or_eq_true, decide_eq_true_eq] at touched
        rcases touched with rfl | rfl <;> simp
      have room := require_ok.mp (forM_ok within record ended)
      exact Nat.lt_of_le_of_lt (separate.counted record) room
    · exact separate.fanOut record

theorem apply_separate {transaction : ResearchTransaction}
    (h : s.apply transaction inventory revision = .ok s') : Separate s' := by
  obtain ⟨_, -, after, ran, h⟩ := bind_ok₂ h
  cases h
  have kept : Separate after := by
    unfold mutate at ran
    split at ran
    · obtain ⟨_, -, ran⟩ := bind_ok ran
      cases ran
      exact separate_of_empty rfl rfl
    · obtain ⟨_, -, ran⟩ := bind_ok ran
      unfold put at ran
      split at ran
      · exact putSource_separate separate ran
      · exact putArtifact_separate separate ran
      · obtain ⟨_, -, ran⟩ := bind_ok ran
        exact putClaim_separate separate ran
      · obtain ⟨_, -, ran⟩ := bind_ok ran
        exact putEdge_separate separate ran
    · obtain ⟨_, -, _, -, ran⟩ := bind_ok₂ ran
      exact endClaim_separate separate ran
    · obtain ⟨_, -, _, -, ran⟩ := bind_ok₂ ran
      exact endClaim_separate separate ran
    · obtain ⟨_, -, _, -, entry, found, _, -, ran⟩ := bind_ok₄ ran
      cases ran
      exact separate_of_mem separate (fun _ mem => (mem_reinsert (mem_of_some (orError_ok.mp found))).mp mem) (fun _ mem => mem) rfl rfl
    · obtain ⟨_, -, _, -, _, -, ran⟩ := bind_ok₃ ran
      cases ran
      exact separate_of_mem separate (fun _ mem => mem) (fun _ mem => mem) rfl rfl
  exact separate_of_mem kept (fun _ mem => mem) (fun _ mem => mem) rfl rfl

theorem replay_separate {scope : NamespaceRef} {generation : Nat} {steps : List (CommitRevision × PilotMappedMutation)}
    (h : replay scope generation steps s = .ok s') : Separate s' := by
  induction steps generalizing s with
  | nil =>
    cases h
    exact separate
  | cons step rest ih =>
    obtain ⟨after, ran, h⟩ := bind_ok h
    exact ih (apply_separate separate ran) h

end

end ResearchState

end Uste.Memory.Research
