import Uste.Time.Search
import Uste.Time.Text

/-!
Presentation of an instant in a named zone, and normalization of a local time in one.
-/

namespace Uste.Time

inductive FoldChoice where
  | earlier
  | later
  deriving DecidableEq, Repr

inductive TimeError where
  | fieldTooLarge (field : String) (actual maximum : Nat)
  | invalidEnvelope
  | invalidEncoding
  | unsupportedProfile
  | pinnedProfileUnavailable
  | resourceLimit
  deriving DecidableEq, Repr

def maxOriginalBytes : Nat := 4096

def maxZoneBytes : Nat := 255

/-- The embedded zone database: the canonical name and the rules of a known zone. -/
structure Tzdb where
  get : String → Option (String × TimeZone)
  short : ∀ {name found}, get name = some found → name.utf8ByteSize ≤ maxZoneBytes

/-! ### Normalization -/

def resolveNamedZone (tzdb : Tzdb) (datetime : DateTime) (zone : String) (suppliedOffset : Option Int)
    (fold : Option FoldChoice) : Resolution :=
  match tzdb.get zone with
  | none => .invalid .unknownZone
  | some (_, timezone) =>
    let effective : Except Resolution Int :=
      match timezone.toAmbiguousTimestamp datetime, fold with
      | .gap _ _, _ => .error (.invalid .nonexistentLocalTime)
      | .fold _ _, none => .error (.ambiguous .foldChoiceRequired)
      | .fold before _, some .earlier => .ok before
      | .fold _ after, some .later => .ok after
      | .unambiguous _, some _ => .error (.invalid .unnecessaryFoldChoice)
      | .unambiguous offset, none => .ok offset
    match effective with
    | .error resolution => resolution
    | .ok effectiveOffset =>
      if suppliedOffset.any (· ≠ effectiveOffset) then .invalid .offsetZoneConflict
      else match instantFromDatetimeOffset datetime effectiveOffset with
        | some instant => .resolved instant effectiveOffset
        | none => .invalid .outOfRange

def validOffset (offset : Int) : Bool := -86340 ≤ offset ∧ offset ≤ 86340 ∧ offset.tmod 60 = 0

/-- The resolution and the precision of the envelope that local input normalizes to. -/
def normalizeLocal (tzdb : Tzdb) (original : String) (zone : Option String)
    (suppliedOffset : Option Int) (fold : Option FoldChoice) :
    Except TimeError (Resolution × SourcePrecision) := do
  require (original.utf8ByteSize ≤ maxOriginalBytes)
    (.fieldTooLarge "original" original.utf8ByteSize maxOriginalBytes)
  if let some name := zone then
    require (name.utf8ByteSize ≤ maxZoneBytes) (.fieldTooLarge "zone" name.utf8ByteSize maxZoneBytes)
  if suppliedOffset.any fun offset => !validOffset offset then
    return (.invalid .invalidSyntax, .unknown)
  match parseDatetime original false with
  | .error failure => return (failure.resolution, failure.precision)
  | .ok parsed =>
    let resolution := match zone, suppliedOffset, fold with
      | none, some offset, none =>
        match instantFromDatetimeOffset parsed.datetime offset with
        | some instant => .resolved instant offset
        | none => .invalid .outOfRange
      | none, _, some _ => .invalid .unnecessaryFoldChoice
      | none, none, none => .ambiguous .missingZone
      | some name, _, _ => resolveNamedZone tzdb parsed.datetime name suppliedOffset fold
    return (resolution, parsed.precision)

/-! ### Presentation -/

structure LocalPresentation where
  text : String
  zone : String
  offsetSeconds : Int
  deriving DecidableEq

def presentInZone (tzdb : Tzdb) (instant : UtcInstant) (zone : String) :
    Except TimeError LocalPresentation := do
  require (zone.utf8ByteSize ≤ maxZoneBytes) (.fieldTooLarge "zone" zone.utf8ByteSize maxZoneBytes)
  let (canonical, timezone) ← orError .invalidEnvelope (tzdb.get zone)
  let (datetime, offset) ← orError .invalidEnvelope (localDatetimeForInstant timezone instant)
  return ⟨formatDatetime datetime ++ formatOffset offset ++ "[" ++ canonical ++ "]", canonical, offset⟩

/-- The choice that tells which showing of an ambiguous local time is meant. -/
def matchingFold (timezone : TimeZone) (datetime : DateTime) (offset : Int) : Option FoldChoice :=
  match timezone.toAmbiguousTimestamp datetime with
  | .fold before _ => some (if offset = before then .earlier else .later)
  | _ => none

/-- A presented local time is the one in force: it belongs to the instant, with the offset of the
zone at the instant, the clock shows it, and normalizing its text again gives the instant back. -/
structure InForce (tzdb : Tzdb) (zone : String) (timezone : TimeZone) (instant : UtcInstant)
    (datetime : DateTime) (offset : Int) : Prop where
  inverse : instantFromDatetimeOffset datetime offset = some instant
  offset_eq : offset = timezone.offsetAt instant.seconds
  shown : ∀ before after, timezone.toAmbiguousTimestamp datetime ≠ .gap before after
  normalizes : ∃ precision,
    normalizeLocal tzdb (formatDatetime datetime) (some zone) none (matchingFold timezone datetime offset) =
      .ok (.resolved instant offset, precision)

def Presents (tzdb : Tzdb) (zone canonical : String) (timezone : TimeZone) (instant : UtcInstant) : Prop :=
  ∃ datetime offset,
    presentInZone tzdb instant zone =
      .ok ⟨formatDatetime datetime ++ formatOffset offset ++ "[" ++ canonical ++ "]", canonical, offset⟩ ∧
    InForce tzdb zone timezone instant datetime offset

section Outcome

variable {tzdb : Tzdb} {zone canonical : String} {timezone : TimeZone} {instant : UtcInstant}
  (known : tzdb.get zone = some (canonical, timezone)) (interior : Interior instant)
include known interior

theorem presentInZone_eq {c : Int} (bounds : -86400 < c ∧ c < 86400)
    (search : searchRounds timezone instant 4 (offsets (timezone.classify instant.seconds)) =
      reached instant c) :
    ∃ datetime : DateTime, datetime.wallSeconds = instant.seconds + c ∧
      datetime.subsecNanosecond = instant.nanoseconds ∧ 1 ≤ datetime.year ∧
      presentInZone tzdb instant zone =
        .ok ⟨formatDatetime datetime ++ formatOffset c ++ "[" ++ canonical ++ "]", canonical, c⟩ := by
  obtain ⟨utc, madeUtc, wallUtc, _⟩ := interior_datetime (c := 0) interior (by decide)
  rw [Int.add_zero] at madeUtc wallUtc
  obtain ⟨datetime, made, wall, nanos, year⟩ := interior_datetime interior bounds
  refine ⟨datetime, wall, nanos, year, ?_⟩
  have found : localDatetimeForInstant timezone instant = some (datetime, c) := by
    unfold localDatetimeForInstant
    rw [madeUtc, Option.bind_eq_bind, Option.bind_some, TimeZone.toAmbiguousTimestamp, wallUtc, search,
      reached, made, Option.map_some]
  simp only [presentInZone, require_pos _ (tzdb.short known), known, orError, ok_bind, found]
  rfl

omit interior in
theorem resolveNamedZone_shown {datetime : DateTime}
    (wall : datetime.wallSeconds = instant.seconds + timezone.offsetAt instant.seconds)
    (inverse : instantFromDatetimeOffset datetime (timezone.offsetAt instant.seconds) = some instant) :
    resolveNamedZone tzdb datetime zone none
        (matchingFold timezone datetime (timezone.offsetAt instant.seconds)) =
      .resolved instant (timezone.offsetAt instant.seconds) := by
  have named : timezone.offsetAt instant.seconds ∈
      offsets (timezone.classify (instant.seconds + timezone.offsetAt instant.seconds)) :=
    inForce_accepted
  unfold resolveNamedZone matchingFold TimeZone.toAmbiguousTimestamp
  rw [known, wall]
  generalize reading : timezone.classify (instant.seconds + timezone.offsetAt instant.seconds) = ambiguous at named
  cases ambiguous with
  | unambiguous offset =>
    simp only [offsets, List.mem_singleton] at named
    simp [reading, ← named, inverse]
  | gap before after => exact absurd reading shown_not_gap
  | fold before after =>
    simp only [offsets, mem_offsets_pair] at named
    by_cases first : timezone.offsetAt instant.seconds = before
    · simp [reading, ← first, inverse]
    · have second := named.resolve_left first
      simp [reading, first, ← second, inverse]

/-- Presenting an instant gives the local time in force exactly where the search is not misled. -/
theorem presents_iff : Presents tzdb zone canonical timezone instant ↔ ¬ Misled timezone instant.seconds := by
  constructor
  · rintro ⟨datetime, offset, presented, inForce⟩ misled
    obtain ⟨c, bounds, deceives, search⟩ := search_misled interior misled
    obtain ⟨_, _, _, _, wrong⟩ := presentInZone_eq known interior bounds search
    rw [wrong] at presented
    have same : c = offset := congrArg LocalPresentation.offsetSeconds (Except.ok.inj presented)
    rw [same, inForce.offset_eq] at deceives
    obtain ⟨T, low, high, _⟩ := deceives
    exact shown_not_gap ((timezone.classify_gap _ _ _).2 ⟨T, rfl, rfl, low, high⟩)
  · intro clear
    obtain ⟨datetime, wall, nanos, year, presented⟩ :=
      presentInZone_eq known interior (timezone.bounded _) (search_inForce interior clear)
    have inverse := (instantFromDatetimeOffset_eq_some wall nanos _).2 rfl
    refine ⟨datetime, _, presented, inverse, rfl, ?_, ?_⟩
    · intro before after
      rw [TimeZone.toAmbiguousTimestamp, wall]
      exact shown_not_gap
    · obtain ⟨precision, parsed⟩ := parseDatetime_formatDatetime year
      refine ⟨precision, ?_⟩
      have fits : (formatDatetime datetime).utf8ByteSize ≤ maxOriginalBytes := Nat.le_succ_of_le (utf8ByteSize_formatDatetime year)
      simp only [normalizeLocal, require_pos _ fits, ok_bind, require_pos _ (tzdb.short known), parsed,
        resolveNamedZone_shown known wall inverse]
      rfl

end Outcome

/-! ### The clocks of New York on 2024-03-10 -/

/-- Eastern standard time until 07:00Z, eastern daylight time from then on. -/
def newYork : TimeZone := .single 1710054000 (-18000) (-14400) (by decide) (by decide)

def sampleTzdb : Tzdb where
  get name := if name = "America/New_York" then some ("America/New_York", newYork) else none
  short := by
    intro name found h
    split at h
    · next same =>
      subst same
      decide
    · cases h

/-- 2024-03-10T07:30:00Z. -/
def afterChange : UtcInstant := ⟨1710055800, 0, by decide⟩

/-- 2024-03-10T06:30:00Z, when New York reads 01:30:00 with the offset -05:00. -/
def beforeChange : UtcInstant := ⟨1710052200, 0, by decide⟩

theorem presents_iff_sample :
    Presents sampleTzdb "America/New_York" "America/New_York" newYork afterChange := by
  have known : sampleTzdb.get "America/New_York" = some ("America/New_York", newYork) := by
    simp [sampleTzdb]
  refine (presents_iff known (by decide)).2 ?_
  have seconds : afterChange.seconds = 1710055800 := rfl
  have value : ∀ instant, newYork.offsetAt instant = if instant < 1710054000 then -18000 else -14400 :=
    fun _ => rfl
  have never_back : ∀ T, ¬ newYork.offsetAt T < newYork.offsetAt (T - 1) := by
    intro T
    rw [value, value]
    split <;> split <;> omega
  intro misled
  cases misled with
  | afterGap T forward le width utc =>
    rw [value] at utc
    split at utc <;> omega
  | beforeGap T forward lt width utc =>
    rw [value, value] at forward
    split at forward <;> split at forward <;> omega
  | betweenFoldAndGap S T back => exact never_back S back
  | beyondGap R S T back => exact never_back R back

theorem presents_skipped_reading :
    presentInZone sampleTzdb beforeChange "America/New_York" =
        .ok ⟨"2024-03-10T02:30:00-04:00[America/New_York]", "America/New_York", -14400⟩ ∧
      newYork.offsetAt beforeChange.seconds = -18000 ∧
      ¬ Presents sampleTzdb "America/New_York" "America/New_York" newYork beforeChange := by
  have presented : presentInZone sampleTzdb beforeChange "America/New_York" =
      .ok ⟨"2024-03-10T02:30:00-04:00[America/New_York]", "America/New_York", -14400⟩ := by
    decide +kernel
  refine ⟨presented, rfl, ?_⟩
  rintro ⟨datetime, offset, other, inForce⟩
  have same : -14400 = offset := congrArg LocalPresentation.offsetSeconds (Except.ok.inj other)
  have := same.trans inForce.offset_eq
  revert this
  decide

end Uste.Time
