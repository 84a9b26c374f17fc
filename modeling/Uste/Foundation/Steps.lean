import Mathlib

/-!
Step functions on the integers: the points where a function changes its value, and functions whose
changes keep a distance from each other.
-/

namespace Uste

variable {α : Type} {f : Int → α}

def ChangesAt (f : Int → α) (point : Int) : Prop := f (point - 1) ≠ f point

theorem exists_first_change [DecidableEq α] {s t : Int} (le : s ≤ t) (ne : f s ≠ f t) :
    ∃ point, s < point ∧ point ≤ t ∧ f (point - 1) = f s ∧ ChangesAt f point := by
  obtain ⟨n, rfl⟩ := Int.le.dest le
  induction n with
  | zero => simp at ne
  | succ n ih =>
    by_cases early : f s = f (s + n)
    · refine ⟨s + (n + 1 : Nat), by omega, le_rfl, ?_, ?_⟩
      · rw [early, show s + ((n + 1 : Nat) : Int) - 1 = s + n by omega]
      · unfold ChangesAt
        rw [show s + ((n + 1 : Nat) : Int) - 1 = s + n by omega, ← early]
        exact ne
    · obtain ⟨point, after, before, same, change⟩ := ih (by omega) early
      exact ⟨point, after, by omega, same, change⟩

theorem exists_last_change [DecidableEq α] {s t : Int} (le : s ≤ t) (ne : f s ≠ f t) :
    ∃ point, s < point ∧ point ≤ t ∧ f point = f t ∧ ChangesAt f point := by
  obtain ⟨n, rfl⟩ := Int.le.dest le
  induction n with
  | zero => simp at ne
  | succ n ih =>
    by_cases late : f (s + n) = f (s + (n + 1 : Nat))
    · obtain ⟨point, after, before, same, change⟩ := ih (by omega) (by rw [late]; exact ne)
      exact ⟨point, after, by omega, by rw [same, late], change⟩
    · refine ⟨s + (n + 1 : Nat), by omega, le_rfl, rfl, ?_⟩
      unfold ChangesAt
      rw [show s + ((n + 1 : Nat) : Int) - 1 = s + n by omega]
      exact late

def Spaced (f : Int → α) (gap : Int) : Prop :=
  ∀ s t, ChangesAt f s → ChangesAt f t → s < t → gap ≤ t - s

variable {gap s t point : Int}

theorem Spaced.eq_after [DecidableEq α] (spaced : Spaced f gap) (change : ChangesAt f point)
    (le : point ≤ t) (near : t - point < gap) : f t = f point := by
  by_contra ne
  obtain ⟨later, after, before, _, other⟩ := exists_first_change le (Ne.symm ne)
  have := spaced point later change other after
  omega

theorem Spaced.eq_before [DecidableEq α] (spaced : Spaced f gap) (change : ChangesAt f point)
    (lt : t < point) (near : point - t ≤ gap) : f t = f (point - 1) := by
  by_contra ne
  obtain ⟨earlier, after, before, _, other⟩ := exists_last_change (by omega) ne
  have := spaced earlier point other change (by omega)
  omega

/-- Two changes with different values between them have another change between them. -/
theorem Spaced.double [DecidableEq α] (spaced : Spaced f gap) (first : ChangesAt f s)
    (second : ChangesAt f t) (lt : s < t) (ne : f s ≠ f (t - 1)) : 2 * gap ≤ t - s := by
  obtain ⟨point, after, before, _, change⟩ := exists_first_change (by omega) ne
  have := spaced s point first change after
  have := spaced point t change second (by omega)
  omega

end Uste
