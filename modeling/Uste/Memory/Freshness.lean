import Uste.Memory.ResearchQuery

/-!
How old a source is said to be. The report counts clock seconds, while instants have nanoseconds.
-/

namespace Uste.Memory.Research

open Txn (before)
open Time (UtcInstant)

def elapsed (retrievedAt evaluatedAt : UtcInstant) : Int :=
  (evaluatedAt.seconds - retrievedAt.seconds) * 1000000000 + (evaluatedAt.nanoseconds - retrievedAt.nanoseconds)

/-- Stale once the age has passed, with the whole seconds that have elapsed. -/
def expectedFreshness (maximum : Nat) (retrievedAt evaluatedAt : UtcInstant) : FreshnessState :=
  if before evaluatedAt retrievedAt then .unknown
  else if maximum * 1000000000 < elapsed retrievedAt evaluatedAt then
    .stale (elapsed retrievedAt evaluatedAt / 1000000000).toNat
  else .fresh

variable (maximum : Nat) (retrievedAt evaluatedAt : UtcInstant)

def StaysStale : Prop :=
  ∀ age, freshnessAt (.maxAge maximum) retrievedAt evaluatedAt = .stale age → ∀ later, ¬before later evaluatedAt →
    ∃ age', freshnessAt (.maxAge maximum) retrievedAt later = .stale age'

/-- Where the nanoseconds do not matter: before the age is reached, or on the side that the clock seconds take them to be. -/
def SecondsSuffice : Prop :=
  before evaluatedAt retrievedAt ∨ evaluatedAt.seconds - retrievedAt.seconds < maximum ∨
  evaluatedAt.seconds - retrievedAt.seconds = maximum ∧ evaluatedAt.nanoseconds ≤ retrievedAt.nanoseconds ∨
  maximum < evaluatedAt.seconds - retrievedAt.seconds ∧ retrievedAt.nanoseconds ≤ evaluatedAt.nanoseconds

theorem staysStale : StaysStale maximum retrievedAt evaluatedAt := by
  intro age stale later after
  unfold freshnessAt at stale ⊢
  split at stale
  · cases stale
  rename_i retrieved
  dsimp only at stale ⊢
  unfold before at retrieved after
  split at stale
  · rw [if_neg (by unfold before; omega), if_pos (by omega)]
    exact ⟨_, rfl⟩
  · cases stale

/-- The report is right exactly where the nanoseconds do not matter; what is stale stays stale everywhere. -/
theorem freshness_exact_iff :
    freshnessAt (.maxAge maximum) retrievedAt evaluatedAt = expectedFreshness maximum retrievedAt evaluatedAt ∧
      StaysStale maximum retrievedAt evaluatedAt ↔ SecondsSuffice maximum retrievedAt evaluatedAt := by
  have nanos := retrievedAt.inRange.2.2
  have nanos' := evaluatedAt.inRange.2.2
  rw [and_iff_left (staysStale maximum retrievedAt evaluatedAt)]
  unfold freshnessAt expectedFreshness SecondsSuffice
  by_cases early : before evaluatedAt retrievedAt
  · simp [early]
  rw [if_neg early, if_neg early, or_iff_right early]
  unfold before at early
  unfold elapsed
  dsimp only
  -- the age that is stated is the elapsed one, or one second more
  by_cases aged : (evaluatedAt.seconds - retrievedAt.seconds).natAbs > maximum
  · rw [if_pos aged, if_pos (by omega), FreshnessState.stale.injEq]
    omega
  · rw [if_neg aged]
    split
    · refine iff_of_false nofun ?_
      omega
    · refine iff_of_true rfl ?_
      omega

/-- Half a second after the age has passed the source is fresh; and a stale one is said to be a second too old. -/
theorem nanoseconds_mislead :
    freshnessAt (.maxAge 10) ⟨0, 0, by decide⟩ ⟨10, 500000000, by decide⟩ = .fresh ∧
    expectedFreshness 10 ⟨0, 0, by decide⟩ ⟨10, 500000000, by decide⟩ = .stale 10 ∧
    freshnessAt (.maxAge 5) ⟨0, 900000000, by decide⟩ ⟨10, 100000000, by decide⟩ = .stale 10 ∧
    expectedFreshness 5 ⟨0, 900000000, by decide⟩ ⟨10, 100000000, by decide⟩ = .stale 9 := by
  decide

end Uste.Memory.Research
