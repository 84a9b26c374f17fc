import Uste.Memory.Pilot

/-!
Histories of a reducer: transaction after transaction, each published at a revision after the one
before. A reducer is given by how it prepares a request and where it keeps its revision.
-/

namespace Uste.Memory

open Types Storage Txn

abbrev Prepare (σ : Type) := σ → List UInt8 → Option BlobInventory → CommitRevision → Except ApplyError σ

section

variable {σ : Type} (prepare : Prepare σ) (current : σ → Option CommitRevision)

/-- A transaction is published at a revision after the current one. -/
inductive Publishes (s : σ) (revision : CommitRevision) (s' : σ) : Prop where
  | intro (request : List UInt8) (inventory : Option BlobInventory)
      (later : ∀ before ∈ current s, before.value < revision.value) (prepared : prepare s request inventory revision = .ok s')

inductive History (s : σ) : σ → Prop where
  | refl : History s s
  | step {s' s'' : σ} {revision : CommitRevision} (before : History s s') (publishes : Publishes prepare current s' revision s'') :
      History s s''

def publishAll : List (CommitRevision × List UInt8 × Option BlobInventory) → σ → Except ApplyError σ
  | [], s => .ok s
  | (revision, request, inventory) :: rest, s => do
    require (∀ before ∈ current s, before.value < revision.value) .conflict
    let s ← prepare s request inventory revision
    publishAll rest s

variable {prepare current}

theorem history_of_publishAll {requests : List (CommitRevision × List UInt8 × Option BlobInventory)} {s s' : σ}
    (h : publishAll prepare current requests s = .ok s') : History prepare current s s' := by
  suffices general : ∀ start, History prepare current start s → History prepare current start s' from general s .refl
  induction requests generalizing s with
  | nil =>
    cases h
    exact fun _ before => before
  | cons request rest ih =>
    intro start before
    obtain ⟨revision, request, inventory⟩ := request
    obtain ⟨_, later, next, prepared, h⟩ := bind_ok₂ h
    exact ih h start (.step before ⟨request, inventory, require_ok.mp later, prepared⟩)

theorem History.keeps {P : σ → Prop} {s s' : σ} (history : History prepare current s s') (start : P s)
    (step : ∀ s revision s', P s → Publishes prepare current s revision s' → P s') : P s' := by
  induction history with
  | refl => exact start
  | step _ publishes ih => exact step _ _ _ ih publishes

/-- What holds of a state and is kept within its generation holds of every later state of the generation, where
generations only grow. -/
theorem History.within {generation : σ → Option Nat} {P Q : σ → Prop} {n : Nat} {s s' : σ} (history : History prepare current s s')
    (valid : P s) (started : generation s = some n) (start : Q s)
    (step : ∀ t now t', P t → Publishes prepare current t now t' → P t' ∧
      ((∃ next, (∀ m ∈ generation t, m < next) ∧ generation t' = some next) ∨ generation t' = generation t ∧ (Q t → Q t')))
    (same : generation s' = generation s) : Q s' := by
  have kept := history.keeps (P := fun t => P t ∧ ((∃ next, n < next ∧ generation t = some next) ∨ generation t = some n ∧ Q t))
    ⟨valid, .inr ⟨started, start⟩⟩ (by
      rintro t now t' ⟨valid, kept⟩ publishes
      obtain ⟨valid, ⟨next, less, begun⟩ | ⟨same, keeps⟩⟩ := step t now t' valid publishes
      · obtain ⟨other, above, found⟩ | ⟨found, -⟩ := kept
        · exact ⟨valid, .inl ⟨next, above.trans (less other found), begun⟩⟩
        · exact ⟨valid, .inl ⟨next, less n found, begun⟩⟩
      · obtain ⟨other, above, found⟩ | ⟨found, holds⟩ := kept
        · exact ⟨valid, .inl ⟨other, above, same.trans found⟩⟩
        · exact ⟨valid, .inr ⟨same.trans found, keeps holds⟩⟩)
  obtain ⟨-, ⟨next, above, found⟩ | ⟨-, holds⟩⟩ := kept
  · rw [same, started] at found
    cases found
    exact absurd above (Nat.lt_irrefl _)
  · exact holds

end

/-- A mark that is as it was at a revision, or was set after it. -/
inductive Since (revision : CommitRevision) : Option CommitRevision → Option CommitRevision → Prop where
  | same (mark : Option CommitRevision) : Since revision mark mark
  | later (mark : CommitRevision) (after : revision.value < mark.value) : Since revision none (some mark)

namespace Since

variable {revision : CommitRevision} {before after : Option CommitRevision}

section

variable (since : Since revision before after)

include since

theorem mark {now : CommitRevision}
    (unset : after = none) (later : revision.value < now.value) : Since revision before (some now) := by
  subst unset
  cases since
  exact .later now later

theorem future_iff : (∀ mark ∈ before, revision.value < mark.value) ↔ ∀ mark ∈ after, revision.value < mark.value := by
  cases since with
  | same => exact Iff.rfl
  | later mark after =>
    constructor
    · intro _ other set
      cases set
      exact after
    · exact fun _ _ => nofun

theorem eq_of_past (past : ∀ mark ∈ after, mark.value ≤ revision.value) : after = before := by
  cases since with
  | same => rfl
  | later mark after => exact absurd after (Nat.not_lt.mpr (past mark rfl))

theorem filter_past :
    after.filter (fun mark => mark.value ≤ revision.value) = before.filter fun mark => mark.value ≤ revision.value := by
  cases since with
  | same => rfl
  | later mark after =>
    have late : ¬mark.value ≤ revision.value := Nat.not_le.mpr after
    simp [Option.filter, late]

theorem set_stays (set : before ≠ none) : after ≠ none := by
  cases since with
  | same => exact set
  | later => exact absurd rfl set

end

end Since

def nextVersion (id : SourceVersionId) : SourceVersionId := ⟨id.source, id.version + 1⟩

end Uste.Memory
