import Uste.Memory.PilotMapping

/-!
The timeline of a pilot state. It is sorted from the final records, and yet it is the history of the
generation: every transaction adds its event at the end.
-/

namespace Uste.Memory.Research

open Types Crypto Policy Storage Txn Std List
open MemoryState (Change Follows Valid)

variable {s s' : MemoryState} {revision : CommitRevision}

/-! ### The event of a transaction -/

theorem mem_timeline {timed : TimedEvent} : timed ∈ timeline s ↔ timed ∈ events s := mem_insertionSort _

variable {sources : ExtTreeMap SourceVersionId SourceVersionRecord} {id : SourceVersionId}

theorem sourceEvents_supersede {record : SourceVersionRecord} (found : sources[id]? = some record) :
    ((sources.insert id { record with supersededRevision := some revision }).toList.flatMap sourceEvents).Perm
      (sources.toList.flatMap sourceEvents) := by
  apply Totals.flatMap_insert_same
  rw [found]
  rfl

variable {facts : ExtTreeMap RecordRef FactRecord}

theorem factEvents_supersede {target : RecordRef} {record : FactRecord}
    (found : facts[target]? = some record) (standing : record.terminal = none) :
    ((facts.insert target { record with terminal := some (.superseded revision) }).toList.flatMap factEvents).Perm
      (facts.toList.flatMap factEvents) := by
  apply Totals.flatMap_insert_same
  rw [found]
  simp [factEvents, standing]

theorem events_of_sources {new : List TimedEvent} (facts : s'.facts = s.facts)
    (perm : (s'.sources.toList.flatMap sourceEvents).Perm (s.sources.toList.flatMap sourceEvents ++ new)) :
    (events s').Perm (events s ++ new) := by
  unfold events
  rw [facts, append_assoc]
  apply (perm.append_right _).trans
  rw [append_assoc]
  exact perm_append_comm.append_left _

theorem events_of_facts {new : List TimedEvent} (sources : s'.sources = s.sources)
    (perm : (s'.facts.toList.flatMap factEvents).Perm (s.facts.toList.flatMap factEvents ++ new)) :
    (events s').Perm (events s ++ new) := by
  unfold events
  rw [sources, append_assoc]
  exact perm.append_left _

/-! ### The order of the events -/

structure Ordered (s : MemoryState) : Prop where
  ascending : (timeline s).Pairwise fun a b => a.revision.value < b.revision.value
  past : ∀ timed ∈ timeline s, s.Past timed.revision

theorem TimedEvent.revision_eq {a b : TimedEvent} (ab : NotAfter a b) (ba : NotAfter b a) : a.revision = b.revision := by
  have same : order a b = .eq := OrientedCmp.isLE_antisymm ab ba
  obtain ⟨revisions, -⟩ := compareLex_eq_eq.mp same
  exact LawfulEqOrd.eq_of_compare revisions

theorem TimedEvent.notAfter_of_lt {a b : TimedEvent} (less : a.revision.value < b.revision.value) : NotAfter a b := by
  have less : compare a.revision b.revision = .lt := Nat.compare_eq_lt.mpr less
  show (order a b).isLE = true
  unfold order
  rw [compareLex, compareOn, less]
  rfl

theorem timeline_eq {ordered : List TimedEvent} (perm : (events s).Perm ordered)
    (ascending : ordered.Pairwise fun a b => a.revision.value < b.revision.value) : timeline s = ordered := by
  have sorted : (timeline s).Perm ordered := (perm_insertionSort _ _).trans perm
  apply List.Perm.eq_of_pairwise _ (pairwise_insertionSort _ _) _ sorted
  · intro a b a_mem b_mem ab ba
    have apart : ordered.Pairwise fun a b => a.revision ≠ b.revision := by
      apply ascending.imp
      intro a b less same
      rw [same] at less
      exact Nat.lt_irrefl _ less
    by_contra different
    have : Std.Symm fun a b : TimedEvent => a.revision ≠ b.revision := ⟨fun _ _ => Ne.symm⟩
    exact apart.forall (sorted.mem_iff.mp a_mem) b_mem different (TimedEvent.revision_eq ab ba)
  · exact ascending.imp TimedEvent.notAfter_of_lt

theorem Ordered.grow {event : Event} (ordered : Ordered s) (perm : (events s').Perm (events s ++ [⟨revision, event⟩]))
    (later : ∀ current ∈ s.currentRevision, current.value < revision.value) (now : s'.currentRevision = some revision) :
    timeline s' = timeline s ++ [⟨revision, event⟩] ∧ Ordered s' := by
  have ascending : (timeline s ++ [(⟨revision, event⟩ : TimedEvent)]).Pairwise fun a b => a.revision.value < b.revision.value := by
    apply pairwise_append.mpr
    refine ⟨ordered.ascending, pairwise_singleton _ _, ?_⟩
    intro a a_mem b b_mem
    obtain rfl := mem_singleton.mp b_mem
    obtain ⟨current, found, le⟩ := ordered.past a a_mem
    exact le.trans_lt (later current found)
  have same : timeline s' = timeline s ++ [⟨revision, event⟩] :=
    timeline_eq (perm.trans ((perm_insertionSort _ _).symm.append_right _)) ascending
  refine ⟨same, ?_, ?_⟩
  · rw [same]
    exact ascending
  · intro timed mem
    rw [same] at mem
    rcases mem_append.mp mem with mem | mem
    · exact (ordered.past timed mem).advance later now
    · obtain rfl := mem_singleton.mp mem
      exact MemoryState.past_now now

theorem Ordered.idle (ordered : Ordered s) (sources : s'.sources = s.sources) (facts : s'.facts = s.facts)
    (later : ∀ current ∈ s.currentRevision, current.value < revision.value) (now : s'.currentRevision = some revision) :
    timeline s' = timeline s ∧ Ordered s' := by
  have same : timeline s' = timeline s := by
    unfold timeline events
    rw [sources, facts]
  refine ⟨same, ?_, ?_⟩
  · rw [same]
    exact ordered.ascending
  · intro timed mem
    rw [same] at mem
    exact (ordered.past timed mem).advance later now

theorem timeline_of_empty (sources : s.sources = ∅) (facts : s.facts = ∅) : timeline s = [] := by
  unfold timeline events
  rw [sources, facts]
  rfl

end Uste.Memory.Research
