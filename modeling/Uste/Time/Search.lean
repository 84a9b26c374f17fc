import Uste.Time.Zone

/-!
The search for the local time of an instant: offsets are guessed from the clock reading of UTC and
a guess is accepted once the zone names it again at the reading it leads to.
-/

namespace Uste.Time

open List

def offsets : AmbiguousOffset → List Int
  | .unambiguous offset => [offset]
  | .gap before after | .fold before after => if before = after then [before] else [before, after]

/-- One offset the zone names at `localTime`. An early return of the source is an error here. -/
def tryActual (instant : UtcInstant) (localTime : DateTime) (next : List Int) (actual : Int) :
    Except (Option (DateTime × Int)) (List Int) :=
  if instantFromDatetimeOffset localTime actual = some instant then .error (some (localTime, actual))
  else if actual ∈ next then .ok next
  else .ok (next ++ [actual])

def tryCandidate (zone : TimeZone) (instant : UtcInstant) (next : List Int) (candidate : Int) :
    Except (Option (DateTime × Int)) (List Int) :=
  match datetimeFromEpoch (instant.seconds + candidate) instant.nanoseconds with
  | none => .ok next
  | some localTime =>
    (offsets (zone.toAmbiguousTimestamp localTime)).foldlM (tryActual instant localTime) next

def searchRounds (zone : TimeZone) (instant : UtcInstant) :
    Nat → List Int → Option (DateTime × Int)
  | 0, _ => none
  | rounds + 1, candidates =>
    match candidates.foldlM (tryCandidate zone instant) [] with
    | .error returned => returned
    | .ok [] => none
    | .ok next => searchRounds zone instant rounds next

def localDatetimeForInstant (zone : TimeZone) (instant : UtcInstant) : Option (DateTime × Int) := do
  let utc ← datetimeFromEpoch instant.seconds instant.nanoseconds
  searchRounds zone instant 4 (offsets (zone.toAmbiguousTimestamp utc))

/-! ### What a guess can name -/

section Guess

variable {zone : TimeZone} {t c : Int}

/-- The guess leads to a reading that the clock skips, in a gap the guess is one side of. -/
def Deceives (zone : TimeZone) (t c : Int) : Prop :=
  ∃ T, T + zone.offsetAt (T - 1) ≤ t + c ∧ t + c < T + zone.offsetAt T ∧
    (c = zone.offsetAt (T - 1) ∨ c = zone.offsetAt T)

theorem mem_offsets_pair {before after : Int} :
    c ∈ (if before = after then [before] else [before, after]) ↔ c = before ∨ c = after := by
  split
  · next same =>
    subst same
    simp
  · simp

theorem offsets_ne_nil (reading : AmbiguousOffset) : offsets reading ≠ [] := by
  cases reading with
  | unambiguous offset => simp [offsets]
  | gap before after | fold before after =>
    simp only [offsets]
    split <;> simp

theorem offsets_affected {zone : TimeZone} {T wall : Int} (affected : Affected zone.offsetAt T wall) :
    offsets (zone.classify wall) = [zone.offsetAt (T - 1), zone.offsetAt T] := by
  have change := TimeZone.changes_of_affected affected
  rcases affected with ⟨low, high⟩ | ⟨low, high⟩
  · rw [(zone.classify_gap _ _ _).2 ⟨T, rfl, rfl, low, high⟩]
    exact if_neg change
  · rw [(zone.classify_fold _ _ _).2 ⟨T, rfl, rfl, low, high⟩]
    exact if_neg change

theorem unambiguous_or_affected (zone : TimeZone) (wall : Int) :
    (∃ offset, zone.classify wall = .unambiguous offset) ∨ ∃ T, Affected zone.offsetAt T wall := by
  cases reading : zone.classify wall with
  | unambiguous offset => exact .inl ⟨offset, rfl⟩
  | gap before after =>
    obtain ⟨T, rfl, rfl, bounds⟩ := (zone.classify_gap _ _ _).1 reading
    exact .inr ⟨T, .inl bounds⟩
  | fold before after =>
    obtain ⟨T, rfl, rfl, bounds⟩ := (zone.classify_fold _ _ _).1 reading
    exact .inr ⟨T, .inr bounds⟩

theorem shown_not_gap {before after : Int} : zone.classify (t + zone.offsetAt t) ≠ .gap before after := by
  intro reading
  obtain ⟨T, rfl, rfl, low, high⟩ := (zone.classify_gap _ _ _).1 reading
  have affected : Affected zone.offsetAt T (t + zone.offsetAt t) := .inl ⟨low, high⟩
  have change := TimeZone.changes_of_affected affected
  rw [TimeZone.affected_iff] at affected
  by_cases le : T ≤ t
  · have := TimeZone.shown_after change le
    omega
  · have := TimeZone.shown_before change (by omega : t < T)
    omega

theorem inForce_accepted : zone.offsetAt t ∈ offsets (zone.classify (t + zone.offsetAt t)) := by
  cases reading : zone.classify (t + zone.offsetAt t) with
  | unambiguous offset =>
    obtain ⟨shown, unaffected⟩ := (zone.classify_unambiguous _ _).1 reading
    simp only [offsets, mem_singleton]
    by_contra ne
    have differ : zone.offsetAt (t + zone.offsetAt t - offset) ≠ zone.offsetAt t := by
      rw [shown]
      exact Ne.symm ne
    rcases le_total (t + zone.offsetAt t - offset) t with le | le
    · obtain ⟨last, after, before, value, change⟩ := exists_last_change le differ
      have side := TimeZone.side_of_unambiguous reading change
      have : zone.opens last ≤ last + zone.offsetAt last := by unfold TimeZone.opens; omega
      omega
    · obtain ⟨first, after, before, value, change⟩ := exists_first_change le (Ne.symm differ)
      have side := TimeZone.side_of_unambiguous reading change
      have : first + zone.offsetAt (first - 1) ≤ zone.closes first := by
        unfold TimeZone.closes
        omega
      omega
  | gap before after => exact absurd reading shown_not_gap
  | fold before after =>
    obtain ⟨T, rfl, rfl, low, high⟩ := (zone.classify_fold _ _ _).1 reading
    have affected : Affected zone.offsetAt T (t + zone.offsetAt t) := .inr ⟨low, high⟩
    have change := TimeZone.changes_of_affected affected
    rw [TimeZone.affected_iff] at affected
    simp only [offsets, mem_offsets_pair]
    by_cases le : T ≤ t
    · have := TimeZone.shown_after change le
      omega
    · have := TimeZone.shown_before change (by omega : t < T)
      omega

/-- A guess is accepted when it is the offset in force or deceives. -/
theorem accepted_iff : c ∈ offsets (zone.classify (t + c)) ↔ c = zone.offsetAt t ∨ Deceives zone t c := by
  constructor
  · intro accepted
    cases reading : zone.classify (t + c) with
    | unambiguous offset =>
      rw [reading] at accepted
      simp only [offsets, mem_singleton] at accepted
      subst accepted
      obtain ⟨shown, _⟩ := (zone.classify_unambiguous _ _).1 reading
      rw [show t + c - c = t by omega] at shown
      exact .inl shown.symm
    | gap before after =>
      rw [reading] at accepted
      simp only [offsets, mem_offsets_pair] at accepted
      obtain ⟨T, rfl, rfl, low, high⟩ := (zone.classify_gap _ _ _).1 reading
      exact .inr ⟨T, low, high, accepted⟩
    | fold before after =>
      rw [reading] at accepted
      simp only [offsets, mem_offsets_pair] at accepted
      obtain ⟨T, rfl, rfl, low, high⟩ := (zone.classify_fold _ _ _).1 reading
      obtain ⟨one, two⟩ := TimeZone.shown_of_fold low high
      left
      rcases accepted with same | same
      · rw [← same, show t + c - c = t by omega] at one
        exact one.symm
      · rw [← same, show t + c - c = t by omega] at two
        exact two.symm
  · rintro (rfl | ⟨T, low, high, side⟩)
    · exact inForce_accepted
    · rw [(zone.classify_gap _ _ _).2 ⟨T, rfl, rfl, low, high⟩]
      simpa only [offsets, mem_offsets_pair] using side

end Guess

/-! ### Rounds -/

section Rounds

variable {zone : TimeZone} {instant : UtcInstant} {c : Int}

def Interior (instant : UtcInstant) : Prop :=
  minEpochSeconds ≤ instant.seconds - 86400 ∧ instant.seconds + 86400 ≤ maxEpochSeconds

instance (instant : UtcInstant) : Decidable (Interior instant) := inferInstanceAs (Decidable (_ ∧ _))

def reached (instant : UtcInstant) (c : Int) : Option (DateTime × Int) :=
  (datetimeFromEpoch (instant.seconds + c) instant.nanoseconds).map fun datetime => (datetime, c)

theorem interior_datetime (interior : Interior instant) (bounds : -86400 < c ∧ c < 86400) :
    ∃ datetime, datetimeFromEpoch (instant.seconds + c) instant.nanoseconds = some datetime ∧
      datetime.wallSeconds = instant.seconds + c ∧
      datetime.subsecNanosecond = instant.nanoseconds ∧ 1 ≤ datetime.year := by
  unfold Interior at interior
  exact datetimeFromEpoch_ok (by omega) (by omega) instant.inRange.2.2

theorem instantFromDatetimeOffset_eq_some {datetime : DateTime} (wall : datetime.wallSeconds = instant.seconds + c)
    (nanos : datetime.subsecNanosecond = instant.nanoseconds) (actual : Int) :
    instantFromDatetimeOffset datetime actual = some instant ↔ actual = c := by
  unfold instantFromDatetimeOffset
  rw [UtcInstant.new_eq_some, wall, nanos]
  omega

def merge (next named : List Int) : List Int :=
  named.foldl (fun next actual => if actual ∈ next then next else next ++ [actual]) next

theorem foldlM_tryActual {datetime : DateTime} (wall : datetime.wallSeconds = instant.seconds + c)
    (nanos : datetime.subsecNanosecond = instant.nanoseconds) (named next : List Int) :
    named.foldlM (tryActual instant datetime) next =
      if c ∈ named then .error (some (datetime, c)) else .ok (merge next named) := by
  induction named generalizing next with
  | nil => rfl
  | cons actual rest ih =>
    rw [foldlM_cons, tryActual]
    by_cases same : actual = c
    · subst same
      rw [if_pos ((instantFromDatetimeOffset_eq_some wall nanos actual).2 rfl), if_pos mem_cons_self]
      rfl
    · rw [if_neg (mt (instantFromDatetimeOffset_eq_some wall nanos actual).1 same)]
      simp only [mem_cons, Ne.symm same, false_or, merge, foldl_cons]
      split <;> exact ih _

section

variable (interior : Interior instant) (bounds : -86400 < c ∧ c < 86400)

include interior bounds

theorem tryCandidate_eq (next : List Int) : tryCandidate zone instant next c =
      if c ∈ offsets (zone.classify (instant.seconds + c)) then .error (reached instant c)
      else .ok (merge next (offsets (zone.classify (instant.seconds + c)))) := by
  obtain ⟨datetime, made, wall, nanos, _⟩ := interior_datetime interior bounds
  unfold tryCandidate reached
  rw [made]
  simp only [TimeZone.toAmbiguousTimestamp, wall, Option.map_some]
  exact foldlM_tryActual wall nanos _ _

theorem searchRounds_head
    (accepted : c ∈ offsets (zone.classify (instant.seconds + c))) (rounds : Nat) (rest : List Int) :
    searchRounds zone instant (rounds + 1) (c :: rest) = reached instant c := by
  rw [searchRounds, foldlM_cons, tryCandidate_eq interior bounds, if_pos accepted]
  rfl

theorem searchRounds_second {d : Int} (bounds' : -86400 < d ∧ d < 86400)
    (refused : c ∉ offsets (zone.classify (instant.seconds + c)))
    (accepted : d ∈ offsets (zone.classify (instant.seconds + d))) (rounds : Nat) :
    searchRounds zone instant (rounds + 1) [c, d] = reached instant d := by
  rw [searchRounds, foldlM_cons, tryCandidate_eq interior bounds, if_neg refused]
  show (match ([d].foldlM (tryCandidate zone instant) _ : Except _ _) with
    | .error returned => returned | .ok [] => none | .ok next => _) = _
  rw [foldlM_cons, tryCandidate_eq interior bounds', if_pos accepted]
  rfl

theorem searchRounds_single (refused : c ∉ offsets (zone.classify (instant.seconds + c))) (rounds : Nat) :
    searchRounds zone instant (rounds + 1) [c] =
      searchRounds zone instant rounds (offsets (zone.classify (instant.seconds + c))) := by
  have named : merge [] (offsets (zone.classify (instant.seconds + c))) =
      offsets (zone.classify (instant.seconds + c)) := by
    cases zone.classify (instant.seconds + c) with
    | unambiguous offset => rfl
    | gap before after | fold before after =>
      simp only [offsets]
      split
      · rfl
      · next differ => simp [merge, Ne.symm differ]
  rw [searchRounds, foldlM_cons, tryCandidate_eq interior bounds, if_neg refused, named]
  show (match (.ok (offsets (zone.classify (instant.seconds + c))) : Except (Option (DateTime × Int)) _) with
    | .error returned => returned | .ok [] => none | .ok next => _) = _
  split
  · next h => cases h
  · next h =>
    injection h with empty
    exact absurd empty (offsets_ne_nil _)
  · next h =>
    injection h with same
    rw [same]

end

end Rounds

/-! ### Where the search goes wrong -/

/-- The instants whose local time the search gets wrong. The clock is set forward at `T`, and the
instant lies within the width of the gap after `T` while UTC does not yet read past the gap, or
before `T` while UTC reads past it already. With offsets of many hours that change almost every
day the guess that deceives can also come from the other side of a neighbouring change. -/
inductive Misled (zone : TimeZone) (t : Int) : Prop
  | afterGap (T : Int) (forward : zone.offsetAt (T - 1) < zone.offsetAt T) (le : T ≤ t)
      (width : t < T + (zone.offsetAt T - zone.offsetAt (T - 1))) (utc : t < T + zone.offsetAt T)
  | beforeGap (T : Int) (forward : zone.offsetAt (T - 1) < zone.offsetAt T) (lt : t < T)
      (width : T - (zone.offsetAt T - zone.offsetAt (T - 1)) ≤ t) (utc : T + zone.offsetAt T ≤ t)
  | betweenFoldAndGap (S T : Int) (back : zone.offsetAt S < zone.offsetAt (S - 1)) (le : S ≤ t)
      (utc : t < S + zone.offsetAt (S - 1)) (lt : t < T) (adjacent : zone.offsetAt (T - 1) = zone.offsetAt t)
      (returns : zone.offsetAt T = zone.offsetAt (S - 1))
      (width : T - (zone.offsetAt T - zone.offsetAt (T - 1)) ≤ t)
  | beyondGap (R S T : Int) (back : zone.offsetAt R < zone.offsetAt (R - 1)) (le : R ≤ t)
      (adjacent : zone.offsetAt R = zone.offsetAt t)
      (lt : t < S) (change : ChangesAt zone.offsetAt S) (adjacent' : zone.offsetAt (S - 1) = zone.offsetAt t)
      (utc : zone.closes S ≤ t) (guess : t + zone.offsetAt S < R + zone.offsetAt (R - 1)) (lt' : S < T)
      (returns : zone.offsetAt T = zone.offsetAt (R - 1))
      (width : T - (zone.offsetAt T - zone.offsetAt (T - 1)) ≤ t)

section Guesses

variable {zone : TimeZone} {t T : Int}

theorem classify_after (change : ChangesAt zone.offsetAt T) (le : T ≤ t) (utc : t < zone.closes T) :
    (t < zone.opens T ∧ zone.classify t = .unambiguous (zone.offsetAt (T - 1))) ∨
      (zone.opens T ≤ t ∧
        offsets (zone.classify t) = [zone.offsetAt (T - 1), zone.offsetAt T]) := by
  by_cases affected : zone.opens T ≤ t
  · right
    refine ⟨affected, ?_⟩
    exact offsets_affected (TimeZone.affected_iff.2 ⟨affected, utc⟩)
  · left
    have bounds := zone.bounded (T - 1)
    have : zone.opens T ≤ T + zone.offsetAt (T - 1) := by unfold TimeZone.opens; omega
    refine ⟨by omega, (zone.classify_unambiguous _ _).2 ⟨?_, ?_⟩⟩
    · exact zone.spaced.eq_before change (by omega) (by omega)
    · intro other otherAffected
      have otherChange := TimeZone.changes_of_affected otherAffected
      rw [TimeZone.affected_iff] at otherAffected
      have otherBounds := zone.bounded other
      have otherBounds' := zone.bounded (other - 1)
      rcases lt_trichotomy other T with lt | rfl | gt
      · have := zone.spaced other T otherChange change lt
        unfold TimeZone.closes at otherAffected
        omega
      · omega
      · have := TimeZone.closes_le_opens change otherChange gt
        omega

theorem classify_before (change : ChangesAt zone.offsetAt T) (lt : t < T) (utc : zone.closes T ≤ t) :
    zone.classify t = .unambiguous (zone.offsetAt T) := by
  have bounds := zone.bounded T
  have : T + zone.offsetAt T ≤ zone.closes T := by unfold TimeZone.closes; omega
  refine (zone.classify_unambiguous _ _).2 ⟨?_, ?_⟩
  · exact zone.spaced.eq_after change (by omega) (by omega)
  · intro other otherAffected
    have otherChange := TimeZone.changes_of_affected otherAffected
    rw [TimeZone.affected_iff] at otherAffected
    have otherBounds := zone.bounded other
    have otherBounds' := zone.bounded (other - 1)
    rcases lt_trichotomy other T with before | rfl | after
    · have := TimeZone.closes_le_opens otherChange change before
      have := zone.opens_le_closes (T := T)
      omega
    · omega
    · have := zone.spaced T other change otherChange after
      unfold TimeZone.opens at otherAffected
      omega

/-- The first guess is the offset in force, except near a change that the local clock and UTC
see in a different order. -/
theorem guess_cases (zone : TimeZone) (t : Int) : (∃ rest, offsets (zone.classify t) = zone.offsetAt t :: rest) ∨
      (∃ T, ChangesAt zone.offsetAt T ∧ T ≤ t ∧ t < zone.closes T) ∨
      (∃ T, ChangesAt zone.offsetAt T ∧ t < T ∧ zone.closes T ≤ t) := by
  rcases unambiguous_or_affected zone t with ⟨offset, reading⟩ | ⟨T, affected⟩
  · have shown := ((zone.classify_unambiguous _ _).1 reading).1
    by_cases same : offset = zone.offsetAt t
    · exact .inl ⟨[], by rw [reading, offsets, same]⟩
    · right
      rw [← shown] at same
      rcases le_total (t - offset) t with le | le
      · obtain ⟨T, after, before, _, change⟩ := exists_first_change le same
        have := TimeZone.side_of_unambiguous reading change
        have := zone.opens_le_closes (T := T)
        exact .inl ⟨T, change, before, by omega⟩
      · obtain ⟨T, after, before, _, change⟩ := exists_first_change le (Ne.symm same)
        have := TimeZone.side_of_unambiguous reading change
        exact .inr ⟨T, change, after, by omega⟩
  · have change := TimeZone.changes_of_affected affected
    have bounds := zone.bounded (T - 1)
    have bounds' := zone.bounded T
    by_cases le : T ≤ t
    · exact .inr (.inl ⟨T, change, le, (TimeZone.affected_iff.1 affected).2⟩)
    · rw [offsets_affected affected,
        zone.spaced.eq_before change (by omega : t < T) (by unfold Affected at affected; omega)]
      exact .inl ⟨_, rfl⟩

theorem misled_after (change : ChangesAt zone.offsetAt T) (le : T ≤ t) (utc : t < zone.closes T)
    (deceives : Deceives zone t (zone.offsetAt (T - 1))) : Misled zone t := by
  have bounds := zone.bounded (T - 1)
  have bounds' := zone.bounded T
  have inForce : zone.offsetAt t = zone.offsetAt T :=
    zone.spaced.eq_after change le (by unfold TimeZone.closes at utc; omega)
  obtain ⟨other, low, high, side⟩ := deceives
  have otherChange : ChangesAt zone.offsetAt other := by unfold ChangesAt; omega
  rcases lt_trichotomy other T with lt | rfl | gt
  · have := TimeZone.closes_le_opens otherChange change lt
    unfold TimeZone.closes TimeZone.opens at this
    omega
  · exact .afterGap other (by omega) le (by omega) (by unfold TimeZone.closes at utc; omega)
  · have apart := zone.spaced T other change otherChange gt
    have near : t < T + 86400 := by unfold TimeZone.closes at utc; omega
    have returns : zone.offsetAt (T - 1) = zone.offsetAt other := by omega
    have adjacent : zone.offsetAt T = zone.offsetAt (other - 1) := by
      by_contra differ
      obtain ⟨last, after, before, value, lastChange⟩ := exists_last_change (by omega) differ
      have := TimeZone.closes_le_opens change lastChange after
      have := zone.spaced last other lastChange otherChange (by omega)
      have : zone.opens last ≤ last + zone.offsetAt last := by unfold TimeZone.opens; omega
      omega
    exact .betweenFoldAndGap T other (by omega) le (by unfold TimeZone.closes at utc; omega) (by omega)
      (by omega) returns.symm (by omega)

theorem guess_after (change : ChangesAt zone.offsetAt T) (le : T ≤ t) (utc : t < zone.opens T)
    (refused : ¬ Deceives zone t (zone.offsetAt (T - 1))) :
    ∃ rest, offsets (zone.classify (t + zone.offsetAt (T - 1))) = zone.offsetAt T :: rest := by
  have bounds := zone.bounded (T - 1)
  have low : zone.opens T ≤ T + zone.offsetAt (T - 1) := by unfold TimeZone.opens; omega
  have early : t < T + zone.offsetAt T := by unfold TimeZone.opens at utc; omega
  -- the reading is not past the next change
  have next : ∀ point, ChangesAt zone.offsetAt point → T < point →
      zone.offsetAt (point - 1) = zone.offsetAt T →
        t + zone.offsetAt (T - 1) < zone.closes point := by
    intro point otherChange after value
    have := zone.spaced T point change otherChange after
    unfold TimeZone.closes
    omega
  rcases unambiguous_or_affected zone (t + zone.offsetAt (T - 1)) with
    ⟨offset, reading⟩ | ⟨other, affected⟩
  · have shown := ((zone.classify_unambiguous _ _).1 reading).1
    have side := TimeZone.side_of_unambiguous reading change
    refine ⟨[], ?_⟩
    rw [reading, offsets, ← shown]
    by_contra differ
    have differ' : zone.offsetAt T ≠ zone.offsetAt (t + zone.offsetAt (T - 1) - offset) := by
      intro same
      exact differ (by rw [same])
    obtain ⟨first, after, before, value, firstChange⟩ := exists_first_change (by omega) differ'
    have := TimeZone.side_of_unambiguous reading firstChange
    have := next first firstChange after value
    omega
  · have otherChange := TimeZone.changes_of_affected affected
    have window := TimeZone.affected_iff.1 affected
    have later : T < other := by
      rcases lt_trichotomy other T with lt | rfl | gt
      · have := TimeZone.closes_le_opens otherChange change lt
        omega
      · rcases affected with ⟨start, stop⟩ | ⟨start, stop⟩
        · exact absurd ⟨other, start, stop, .inl rfl⟩ refused
        · omega
      · exact gt
    have value : zone.offsetAt (other - 1) = zone.offsetAt T := by
      by_contra differ
      obtain ⟨first, after, before, value, firstChange⟩ :=
        exists_first_change (by omega) (Ne.symm differ)
      have := TimeZone.closes_le_opens firstChange otherChange (by omega)
      have := next first firstChange after value
      omega
    exact ⟨[zone.offsetAt other], by rw [offsets_affected affected, value]⟩

section Before

variable (change : ChangesAt zone.offsetAt T) (lt : t < T) (utc : zone.closes T ≤ t)
include change lt utc

theorem inForce_before : zone.offsetAt t = zone.offsetAt (T - 1) := by
  have bounds := zone.bounded T
  exact zone.spaced.eq_before change lt (by unfold TimeZone.closes at utc; omega)

theorem opens_le_guess {point : Int} (earlier : ChangesAt zone.offsetAt point) (before : point < T) :
    zone.opens point ≤ t + zone.offsetAt T := by
  have bounds := zone.bounded T
  -- the last change before `T` decides
  have last : ∃ last, point ≤ last ∧ last < T ∧ ChangesAt zone.offsetAt last ∧
      zone.offsetAt last = zone.offsetAt (T - 1) := by
    by_cases same : zone.offsetAt point = zone.offsetAt (T - 1)
    · exact ⟨point, le_rfl, before, earlier, same⟩
    · obtain ⟨last, after, until_, value, lastChange⟩ := exists_last_change (by omega) same
      exact ⟨last, by omega, by omega, lastChange, value⟩
  obtain ⟨last, after, until_, lastChange, value⟩ := last
  have apart := zone.spaced last T lastChange change until_
  have order : zone.opens point ≤ zone.opens last := by
    rcases after.eq_or_lt with rfl | after
    · exact le_rfl
    · have := TimeZone.closes_le_opens earlier lastChange after
      have := zone.opens_le_closes (T := point)
      omega
  have : zone.opens last ≤ last + zone.offsetAt last := by unfold TimeZone.opens; omega
  unfold TimeZone.closes at utc
  omega

theorem adjacent_before {other : Int} (before : other < T)
    (affected : Affected zone.offsetAt other (t + zone.offsetAt T)) : zone.offsetAt other = zone.offsetAt (T - 1) := by
  have otherChange := TimeZone.changes_of_affected affected
  rw [TimeZone.affected_iff] at affected
  by_contra differ
  obtain ⟨first, after, until_, _, firstChange⟩ := exists_first_change (by omega) differ
  have := TimeZone.closes_le_opens otherChange firstChange after
  have := opens_le_guess change lt utc firstChange (by omega)
  omega

omit utc in
theorem affected_le {other : Int} (affected : Affected zone.offsetAt other (t + zone.offsetAt T)) : other ≤ T := by
  have otherChange := TimeZone.changes_of_affected affected
  rw [TimeZone.affected_iff] at affected
  by_contra gt
  have := TimeZone.closes_le_opens change otherChange (by omega)
  unfold TimeZone.closes at this
  omega

theorem misled_before (deceives : Deceives zone t (zone.offsetAt T)) : Misled zone t := by
  have bounds := zone.bounded T
  obtain ⟨other, low, high, side⟩ := deceives
  have affected : Affected zone.offsetAt other (t + zone.offsetAt T) := .inl ⟨low, high⟩
  have otherChange := TimeZone.changes_of_affected affected
  have past : T + max (zone.offsetAt (T - 1)) (zone.offsetAt T) ≤ t := utc
  rcases (affected_le change lt affected).lt_or_eq with earlier | rfl
  · have := adjacent_before change lt utc earlier affected
    have := zone.spaced other T otherChange change earlier
    omega
  · exact .beforeGap other (by omega) lt (by omega) (by omega)

theorem guess_before (refused : ¬ Deceives zone t (zone.offsetAt T)) :
    (∃ rest, offsets (zone.classify (t + zone.offsetAt T)) = zone.offsetAt (T - 1) :: rest) ∨
      ∃ R, R < T ∧ Affected zone.offsetAt R (t + zone.offsetAt T) := by
  rcases unambiguous_or_affected zone (t + zone.offsetAt T) with
    ⟨offset, reading⟩ | ⟨other, affected⟩
  · left
    have shown := ((zone.classify_unambiguous _ _).1 reading).1
    have side := TimeZone.side_of_unambiguous reading change
    have earlier : t + zone.offsetAt T - offset < T := by
      unfold TimeZone.closes at side
      omega
    refine ⟨[], ?_⟩
    rw [reading, offsets, ← shown]
    by_contra differ
    have differ' : zone.offsetAt (t + zone.offsetAt T - offset) ≠ zone.offsetAt (T - 1) := by
      intro same
      exact differ (by rw [same])
    obtain ⟨first, after, until_, _, firstChange⟩ := exists_first_change (by omega) differ'
    have := TimeZone.side_of_unambiguous reading firstChange
    have := opens_le_guess change lt utc firstChange (by omega)
    omega
  · right
    rcases (affected_le change lt affected).lt_or_eq with earlier | rfl
    · exact ⟨other, earlier, affected⟩
    · rcases affected with ⟨low, high⟩ | ⟨low, high⟩
      · exact absurd ⟨other, low, high, .inr rfl⟩ refused
      · omega

theorem misled_beyond {R : Int} (before : R < T) (affected : Affected zone.offsetAt R (t + zone.offsetAt T))
    (deceives : Deceives zone t (zone.offsetAt (R - 1))) : Misled zone t := by
  have bounds := zone.bounded T
  have bounds' := zone.bounded (R - 1)
  have first := TimeZone.changes_of_affected affected
  have window := TimeZone.affected_iff.1 affected
  have past : T + max (zone.offsetAt (T - 1)) (zone.offsetAt T) ≤ t := utc
  have adjacent := adjacent_before change lt utc before affected
  have inForce := inForce_before change lt utc
  have apart := zone.spaced R T first change before
  obtain ⟨other, low, high, side⟩ := deceives
  have affected' : Affected zone.offsetAt other (t + zone.offsetAt (R - 1)) := .inl ⟨low, high⟩
  have otherChange := TimeZone.changes_of_affected affected'
  have window' := TimeZone.affected_iff.1 affected'
  have later : T < other := by
    by_contra notLater
    rcases lt_trichotomy other R with lt' | rfl | gt
    · have := TimeZone.closes_le_opens otherChange first lt'
      have : zone.opens R ≤ R + zone.offsetAt (R - 1) := by unfold TimeZone.opens; omega
      omega
    · omega
    · rcases (by omega : other ≤ T).lt_or_eq with between | rfl
      · have := TimeZone.closes_le_opens first otherChange gt
        have := opens_le_guess change lt utc otherChange between
        omega
      · have same : zone.offsetAt (R - 1) = zone.offsetAt other := by
          unfold ChangesAt at first
          omega
        rw [same] at affected'
        have := TimeZone.affected_unique affected affected'
        omega
  have order := TimeZone.closes_le_opens change otherChange later
  have back : zone.offsetAt R < zone.offsetAt (R - 1) := by
    unfold TimeZone.closes at order
    unfold ChangesAt at first
    omega
  exact .beyondGap R T other back (by omega) (by omega) lt change (by omega) utc
    (by unfold TimeZone.closes at window; omega) later (by omega) (by omega)

end Before

end Guesses

section Outcome

variable {zone : TimeZone} {instant : UtcInstant} (interior : Interior instant)
include interior

/-- Away from the instants described above the search ends at the offset in force. -/
theorem search_inForce (clear : ¬ Misled zone instant.seconds) :
    searchRounds zone instant 4 (offsets (zone.classify instant.seconds)) =
      reached instant (zone.offsetAt instant.seconds) := by
  have refused : ∀ c, c ≠ zone.offsetAt instant.seconds → ¬ Deceives zone instant.seconds c →
      c ∉ offsets (zone.classify (instant.seconds + c)) := by
    intro c differ honest accepted
    rcases accepted_iff.1 accepted with same | deceives
    · exact differ same
    · exact honest deceives
  rcases guess_cases zone instant.seconds with ⟨rest, guess⟩ | ⟨T, change, le, utc⟩ | ⟨T, change, lt, utc⟩
  · rw [guess]
    exact searchRounds_head interior (zone.bounded _) inForce_accepted 3 rest
  · have bounds := zone.bounded (T - 1)
    have bounds' := zone.bounded T
    have value : zone.offsetAt instant.seconds = zone.offsetAt T :=
      zone.spaced.eq_after change le (by unfold TimeZone.closes at utc; omega)
    have honest : ¬ Deceives zone instant.seconds (zone.offsetAt (T - 1)) :=
      fun deceives => clear (misled_after change le utc deceives)
    have notNamed := refused _ (by rw [value]; exact change) honest
    rcases classify_after change le utc with ⟨early, reading⟩ | ⟨_, named⟩
    · obtain ⟨rest, next⟩ := guess_after change le early honest
      rw [reading, offsets, searchRounds_single interior bounds notNamed, next, ← value]
      exact searchRounds_head interior (zone.bounded _) inForce_accepted 2 rest
    · rw [named, ← value]
      exact searchRounds_second interior bounds (zone.bounded _) notNamed inForce_accepted 3
  · have bounds := zone.bounded T
    have value := inForce_before change lt utc
    have honest : ¬ Deceives zone instant.seconds (zone.offsetAt T) :=
      fun deceives => clear (misled_before change lt utc deceives)
    have notNamed := refused _ (by rw [value]; exact Ne.symm change) honest
    rw [classify_before change lt utc, offsets, searchRounds_single interior bounds notNamed]
    rcases guess_before change lt utc honest with ⟨rest, next⟩ | ⟨R, before, affected⟩
    · rw [next, ← value]
      exact searchRounds_head interior (zone.bounded _) inForce_accepted 2 rest
    · have adjacent := adjacent_before change lt utc before affected
      have first := TimeZone.changes_of_affected affected
      have honest' : ¬ Deceives zone instant.seconds (zone.offsetAt (R - 1)) :=
        fun deceives => clear (misled_beyond change lt utc before affected deceives)
      have notNamed' := refused _ (by rw [value, ← adjacent]; exact first) honest'
      rw [offsets_affected affected, adjacent, ← value]
      exact searchRounds_second interior (zone.bounded _) (zone.bounded _) notNamed' inForce_accepted 2

/-- At them it ends at a reading that the local clock skips. -/
theorem search_misled (misled : Misled zone instant.seconds) :
    ∃ c, (-86400 < c ∧ c < 86400) ∧ Deceives zone instant.seconds c ∧
      searchRounds zone instant 4 (offsets (zone.classify instant.seconds)) = reached instant c := by
  -- a first guess that deceives ends the search
  have head : ∀ S rest, offsets (zone.classify instant.seconds) = zone.offsetAt S :: rest →
      Deceives zone instant.seconds (zone.offsetAt S) →
      ∃ c, (-86400 < c ∧ c < 86400) ∧ Deceives zone instant.seconds c ∧
        searchRounds zone instant 4 (offsets (zone.classify instant.seconds)) = reached instant c := by
    intro S rest guess deceives
    refine ⟨zone.offsetAt S, zone.bounded S, deceives, ?_⟩
    rw [guess]
    exact searchRounds_head interior (zone.bounded S) (accepted_iff.2 (.inr deceives)) 3 rest
  have first : ∀ T, ChangesAt zone.offsetAt T → T ≤ instant.seconds →
      instant.seconds < zone.closes T →
      ∃ rest, offsets (zone.classify instant.seconds) = zone.offsetAt (T - 1) :: rest := by
    intro T change le utc
    rcases classify_after change le utc with ⟨_, reading⟩ | ⟨_, named⟩
    · exact ⟨[], by rw [reading, offsets]⟩
    · exact ⟨_, named⟩
  cases misled with
  | afterGap T forward le width utc =>
    obtain ⟨rest, guess⟩ := first T (by unfold ChangesAt; omega) le (by unfold TimeZone.closes; omega)
    exact head _ rest guess ⟨T, by omega, by omega, .inl rfl⟩
  | beforeGap T forward lt width utc =>
    have reading := classify_before (by unfold ChangesAt; omega) lt
      (by unfold TimeZone.closes; omega : zone.closes T ≤ instant.seconds)
    exact head T [] (by rw [reading, offsets]) ⟨T, by omega, by omega, .inr rfl⟩
  | betweenFoldAndGap S T back le utc lt adjacent returns width =>
    obtain ⟨rest, guess⟩ := first S (by unfold ChangesAt; omega) le (by unfold TimeZone.closes; omega)
    exact head _ rest guess ⟨T, by omega, by omega, .inr returns.symm⟩
  | beyondGap R S T back le adjacent lt change adjacent' utc guess lt' returns width =>
    have bounds := zone.bounded S
    have apart := zone.spaced R S (by unfold ChangesAt; omega) change (by omega)
    have past : S + max (zone.offsetAt (S - 1)) (zone.offsetAt S) ≤ instant.seconds := utc
    have affected : Affected zone.offsetAt R (instant.seconds + zone.offsetAt S) :=
      .inr ⟨by omega, guess⟩
    have notNamed : zone.offsetAt S ∉ offsets (zone.classify (instant.seconds + zone.offsetAt S)) := by
      rw [offsets_affected affected]
      unfold ChangesAt at change
      simp only [mem_cons, not_mem_nil, or_false]
      omega
    have deceives : Deceives zone instant.seconds (zone.offsetAt (R - 1)) :=
      ⟨T, by omega, by omega, .inr returns.symm⟩
    refine ⟨zone.offsetAt (R - 1), zone.bounded _, deceives, ?_⟩
    rw [classify_before change lt utc, offsets, searchRounds_single interior bounds notNamed,
      offsets_affected affected]
    exact searchRounds_head interior (zone.bounded _) (accepted_iff.2 (.inr deceives)) 2 _

end Outcome

end Uste.Time
