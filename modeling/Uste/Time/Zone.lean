import Uste.Foundation.Steps
import Uste.Time.Civil

/-!
Time zones: an offset from UTC in force at each instant, and the classification of clock readings
into those shown once, skipped and shown twice.
-/

namespace Uste.Time

inductive AmbiguousOffset where
  | unambiguous (offset : Int)
  | gap (before after : Int)
  | fold (before after : Int)
  deriving DecidableEq, Repr

/-- The clock reading `wall` is skipped, or shown twice, by the change of offset at `instant`. -/
def Affected (offsetAt : Int → Int) (instant wall : Int) : Prop :=
  (instant + offsetAt (instant - 1) ≤ wall ∧ wall < instant + offsetAt instant) ∨
    (instant + offsetAt instant ≤ wall ∧ wall < instant + offsetAt (instant - 1))

/-- A time zone with offsets under a day that change at most once a day. A reading skipped by a
change is in a gap, one shown again after a change is in a fold, and any other is unambiguous. -/
structure TimeZone where
  offsetAt : Int → Int
  classify : Int → AmbiguousOffset
  bounded : ∀ instant, -86400 < offsetAt instant ∧ offsetAt instant < 86400
  spaced : Spaced offsetAt 86400
  classify_gap : ∀ wall before after, classify wall = .gap before after ↔
    ∃ instant, offsetAt (instant - 1) = before ∧ offsetAt instant = after ∧
      instant + before ≤ wall ∧ wall < instant + after
  classify_fold : ∀ wall before after, classify wall = .fold before after ↔
    ∃ instant, offsetAt (instant - 1) = before ∧ offsetAt instant = after ∧
      instant + after ≤ wall ∧ wall < instant + before
  classify_unambiguous : ∀ wall offset, classify wall = .unambiguous offset ↔
    offsetAt (wall - offset) = offset ∧ ∀ instant, ¬ Affected offsetAt instant wall

namespace TimeZone

variable {zone : TimeZone} {S T wall : Int}

def toAmbiguousTimestamp (zone : TimeZone) (datetime : DateTime) : AmbiguousOffset :=
  zone.classify datetime.wallSeconds

theorem changes_of_affected (h : Affected zone.offsetAt T wall) : ChangesAt zone.offsetAt T := by
  intro same
  unfold Affected at h
  omega

theorem affected_unique (first : Affected zone.offsetAt S wall) (second : Affected zone.offsetAt T wall) : S = T := by
  by_contra ne
  wlog lt : S < T generalizing S T
  · exact this second first (Ne.symm ne) (by omega)
  have bound' := zone.bounded (T - 1)
  have bound'' := zone.bounded T
  have far : zone.offsetAt S ≠ zone.offsetAt (T - 1) → 172800 ≤ T - S := fun differ =>
    zone.spaced.double (changes_of_affected first) (changes_of_affected second) lt differ
  rcases first with first | first <;> rcases second with second | second
  · have one := (zone.classify_gap wall _ _).2 ⟨S, rfl, rfl, first⟩
    have two := (zone.classify_gap wall _ _).2 ⟨T, rfl, rfl, second⟩
    rw [one] at two
    injection two
    omega
  · have one := (zone.classify_gap wall _ _).2 ⟨S, rfl, rfl, first⟩
    have two := (zone.classify_fold wall _ _).2 ⟨T, rfl, rfl, second⟩
    rw [one] at two
    cases two
  · have one := (zone.classify_fold wall _ _).2 ⟨S, rfl, rfl, first⟩
    have two := (zone.classify_gap wall _ _).2 ⟨T, rfl, rfl, second⟩
    rw [one] at two
    cases two
  · have one := (zone.classify_fold wall _ _).2 ⟨S, rfl, rfl, first⟩
    have two := (zone.classify_fold wall _ _).2 ⟨T, rfl, rfl, second⟩
    rw [one] at two
    injection two
    omega

def opens (zone : TimeZone) (T : Int) : Int := T + min (zone.offsetAt (T - 1)) (zone.offsetAt T)

def closes (zone : TimeZone) (T : Int) : Int := T + max (zone.offsetAt (T - 1)) (zone.offsetAt T)

theorem affected_iff : Affected zone.offsetAt T wall ↔ zone.opens T ≤ wall ∧ wall < zone.closes T := by
  unfold Affected opens closes
  omega

theorem closes_le_opens (first : ChangesAt zone.offsetAt S) (second : ChangesAt zone.offsetAt T)
    (lt : S < T) : zone.closes S ≤ zone.opens T := by
  by_contra overlap
  have bounds' := zone.bounded S
  have bounds'' := zone.bounded (T - 1)
  have bounds''' := zone.bounded T
  have far : zone.offsetAt S ≠ zone.offsetAt (T - 1) → 172800 ≤ T - S := zone.spaced.double first second lt
  unfold ChangesAt at first second
  have shared : ∃ wall, Affected zone.offsetAt S wall ∧ Affected zone.offsetAt T wall := by
    refine ⟨max (zone.opens S) (zone.opens T), ?_, ?_⟩ <;> rw [affected_iff] <;>
      unfold opens closes at * <;> omega
  obtain ⟨wall, one, two⟩ := shared
  have := affected_unique one two
  omega

theorem opens_le_closes : zone.opens T ≤ zone.closes T := by
  unfold opens closes
  omega

theorem shown_after (change : ChangesAt zone.offsetAt T) {instant : Int} (le : T ≤ instant) :
    zone.offsetAt instant = zone.offsetAt T ∨ zone.closes T ≤ instant + zone.offsetAt instant := by
  by_cases same : zone.offsetAt T = zone.offsetAt instant
  · exact .inl same.symm
  · obtain ⟨last, after, before, value, lastChange⟩ := exists_last_change le same
    have := closes_le_opens change lastChange after
    have : zone.opens last ≤ last + zone.offsetAt last := by unfold opens; omega
    exact .inr (by omega)

theorem shown_before (change : ChangesAt zone.offsetAt T) {instant : Int} (lt : instant < T) :
    zone.offsetAt instant = zone.offsetAt (T - 1) ∨
      instant + zone.offsetAt instant < zone.opens T := by
  by_cases same : zone.offsetAt instant = zone.offsetAt (T - 1)
  · exact .inl same
  · obtain ⟨first, after, before, value, firstChange⟩ := exists_first_change (by omega) same
    have := closes_le_opens firstChange change (by omega)
    have : first + zone.offsetAt (first - 1) ≤ zone.closes first := by unfold closes; omega
    exact .inr (by omega)

theorem side_of_unambiguous {offset : Int} (h : zone.classify wall = .unambiguous offset)
    (change : ChangesAt zone.offsetAt T) :
    (T ≤ wall - offset ∧ zone.closes T ≤ wall) ∨ (wall - offset < T ∧ wall < zone.opens T) := by
  obtain ⟨shown, unaffected⟩ := (zone.classify_unambiguous wall offset).1 h
  have here := unaffected T
  rw [affected_iff] at here
  by_cases le : T ≤ wall - offset
  · rcases shown_after change le with same | later
    · have : zone.opens T ≤ wall := by unfold opens; omega
      omega
    · omega
  · rcases shown_before change (by omega : wall - offset < T) with same | earlier
    · have : wall < zone.closes T := by unfold closes; omega
      omega
    · omega

theorem shown_of_fold (low : T + zone.offsetAt T ≤ wall) (high : wall < T + zone.offsetAt (T - 1)) :
    zone.offsetAt (wall - zone.offsetAt (T - 1)) = zone.offsetAt (T - 1) ∧
      zone.offsetAt (wall - zone.offsetAt T) = zone.offsetAt T := by
  have affected : Affected zone.offsetAt T wall := .inr ⟨low, high⟩
  have change := changes_of_affected affected
  rw [affected_iff] at affected
  constructor
  · by_contra ne
    obtain ⟨last, after, before, value, lastChange⟩ := exists_last_change (by omega) ne
    have := closes_le_opens lastChange change (by omega)
    have : last + zone.offsetAt last ≤ zone.closes last := by unfold closes; omega
    omega
  · by_contra ne
    obtain ⟨first, after, before, value, firstChange⟩ := exists_first_change (by omega) (Ne.symm ne)
    have := closes_le_opens change firstChange (by omega)
    have : zone.opens first ≤ first + zone.offsetAt (first - 1) := by unfold opens; omega
    omega

def single (T before after : Int) (bounds : -86400 < before ∧ before < 86400)
    (bounds' : -86400 < after ∧ after < 86400) : TimeZone where
  offsetAt instant := if instant < T then before else after
  classify wall :=
    if T + before ≤ wall ∧ wall < T + after then .gap before after
    else if T + after ≤ wall ∧ wall < T + before then .fold before after
    else .unambiguous (if wall < T + before then before else after)
  bounded instant := by split <;> assumption
  spaced s t first second lt := by
    simp only [ChangesAt] at first second
    split at first <;> split at first <;> split at second <;> split at second <;> omega
  classify_gap wall b a := by
    constructor
    · intro h
      split at h
      · next window =>
        injection h with hb ha
        subst hb ha
        exact ⟨T, if_pos (by omega), if_neg (by omega), window⟩
      · split at h <;> cases h
    · rintro ⟨instant, rfl, rfl, low, high⟩
      have : instant = T := by
        split at low <;> split at high <;> omega
      subst this
      rw [if_pos (by omega)] at low
      rw [if_neg (by omega)] at high
      rw [if_pos ⟨low, high⟩, if_pos (by omega), if_neg (by omega)]
  classify_fold wall b a := by
    constructor
    · intro h
      split at h
      · cases h
      · split at h
        · next window =>
          injection h with hb ha
          subst hb ha
          exact ⟨T, if_pos (by omega), if_neg (by omega), window⟩
        · cases h
    · rintro ⟨instant, rfl, rfl, low, high⟩
      have : instant = T := by
        split at low <;> split at high <;> omega
      subst this
      rw [if_neg (by omega)] at low
      rw [if_pos (by omega)] at high
      rw [if_neg (by omega), if_pos ⟨low, high⟩, if_pos (by omega), if_neg (by omega)]
  classify_unambiguous wall offset := by
    constructor
    · intro h
      split at h
      · cases h
      · split at h
        · cases h
        · next outside outside' =>
          injection h with same
          refine ⟨?_, ?_⟩
          · split at same <;> subst same
            · rw [if_pos (by omega)]
            · rw [if_neg (by omega)]
          · intro instant affected
            simp only [Affected] at affected
            split at affected <;> split at affected <;> omega
    · rintro ⟨shown, unaffected⟩
      have here := unaffected T
      simp only [Affected] at here
      rw [if_pos (by omega), if_neg (by omega)] at here
      rw [if_neg (fun window => here (.inl window)), if_neg (fun window => here (.inr window))]
      congr 1
      split at shown <;> split <;> omega

end TimeZone

end Uste.Time
