import Uste.Foundation.Program
import Uste.Time.Civil

/-!
Date-times as text: the formatter of local presentations and the strict parser of the normalizer.
-/

namespace Uste.Time

open List

inductive ResolutionReason where
  | missingValue
  | missingZone
  | dateOnlyWithoutPolicy
  | unknownOffset
  | foldChoiceRequired
  | unitRequired
  | invalidSyntax
  | outOfRange
  | unknownZone
  | unnecessaryFoldChoice
  | nonexistentLocalTime
  | offsetZoneConflict
  | leapSecond
  | unsupportedTimeScale
  deriving DecidableEq, Repr

inductive Resolution where
  | resolved (instant : UtcInstant) (effectiveOffsetSeconds : Int)
  | missing (reason : ResolutionReason)
  | ambiguous (reason : ResolutionReason)
  | invalid (reason : ResolutionReason)
  | unsupported (reason : ResolutionReason)
  deriving DecidableEq

inductive EpochUnit where
  | seconds
  | milliseconds
  | microseconds
  | nanoseconds
  deriving DecidableEq, Repr

inductive SourcePrecision where
  | unknown
  | date
  | second
  | fractionDigits (count : Nat)
  | epochUnit (unit : EpochUnit)
  deriving DecidableEq, Repr

/-! ### Formatting -/

/-- A decimal number filled with zeros to a width, as `{:04}` prints it. -/
def padded (width n : Nat) : List Char :=
  List.replicate (width - (Nat.toDigits 10 n).length) '0' ++ Nat.toDigits 10 n

/-- The sign of a negative number counts for the width. -/
def paddedInt (width : Nat) (n : Int) : List Char :=
  if n < 0 then '-' :: padded (width - 1) n.natAbs else padded width n.natAbs

def formatFraction (nanos : Nat) : List Char :=
  if nanos = 0 then [] else '.' :: (padded 9 nanos).rdropWhile (· == '0')

def formatDatetime (datetime : DateTime) : String :=
  String.ofList <|
    paddedInt 4 datetime.year ++ '-' :: paddedInt 2 datetime.month ++ '-' :: paddedInt 2 datetime.day ++
      'T' :: paddedInt 2 datetime.hour ++ ':' :: paddedInt 2 datetime.minute ++
      ':' :: paddedInt 2 datetime.second ++ formatFraction datetime.subsecNanosecond.natAbs

def formatOffset (offset : Int) : String :=
  let sign := if offset < 0 then '-' else '+'
  let absolute := offset.natAbs
  let hours := absolute / 3600
  let minutes := absolute % 3600 / 60
  let seconds := absolute % 60
  String.ofList <|
    sign :: padded 2 hours ++ ':' :: padded 2 minutes ++
      if seconds = 0 then [] else ':' :: padded 2 seconds

/-! ### Parsing -/

def digitStep (value : Nat) (byte : Char) : Option Nat :=
  if byte.isDigit then
    let next := value * 10 + (byte.toNat - 48)
    if next < 2 ^ 32 then some next else none
  else none

def digits (bytes : List Char) (start count : Nat) : Option Nat :=
  if start + count ≤ bytes.length then ((bytes.drop start).take count).foldlM digitStep 0 else none

structure ParsedDateTime where
  datetime : DateTime
  offset : Option Int
  precision : SourcePrecision
  deriving DecidableEq

structure ParseFailure where
  resolution : Resolution
  precision : SourcePrecision
  offset : Option Int
  deriving DecidableEq

def ParseFailure.invalid : ParseFailure := ⟨.invalid .invalidSyntax, .unknown, none⟩

/-- The end of the seconds with their fraction, the nanoseconds and the precision. -/
def parseFraction (bytes : List Char) : Except ParseFailure (Nat × Nat × SourcePrecision) := do
  if bytes[19]? = some '.' then
    let count := ((bytes.drop 20).takeWhile (·.isDigit)).length
    if count = 0 ∨ count > 9 then .error .invalid
    let fraction ← orError .invalid (digits bytes 20 count)
    let nanos := fraction * 10 ^ (9 - count)
    if nanos < 2 ^ 32 then .ok (20 + count, nanos, .fractionDigits count) else .error .invalid
  else .ok (19, 0, .second)

/-- The offset at the end of the text, and whether it is the unknown offset `-00:00`. -/
def parseOffset (suffix : List Char) : Except ParseFailure (Option Int × Bool) :=
  if suffix = ['Z'] then .ok (some 0, false)
  else if suffix.length = 6 ∧ (suffix[0]? = some '+' ∨ suffix[0]? = some '-') ∧ suffix[3]? = some ':' then do
    let hours ← orError .invalid (digits suffix 1 2)
    let minutes ← orError .invalid (digits suffix 4 2)
    if hours > 23 ∨ minutes > 59 then .error .invalid
    else if suffix = "-00:00".toList then .ok (none, true)
    else
      let seconds : Int := hours * 3600 + minutes * 60
      .ok (some (if suffix[0]? = some '-' then -seconds else seconds), false)
  else .error .invalid

/-- The narrowing conversions of the source never fail: the fields have at most four digits. -/
def parseDatetime (input : String) (requireOffset : Bool) : Except ParseFailure ParsedDateTime := do
  let bytes := input.toList
  if (∃ c ∈ bytes, 128 ≤ c.toNat) ∨ bytes.length < 19 ∨ bytes[4]? ≠ some '-' ∨ bytes[7]? ≠ some '-' ∨
      bytes[10]? ≠ some 'T' ∨ bytes[13]? ≠ some ':' ∨ bytes[16]? ≠ some ':' then
    .error .invalid
  let year ← orError .invalid (digits bytes 0 4)
  let month ← orError .invalid (digits bytes 5 2)
  let day ← orError .invalid (digits bytes 8 2)
  let hour ← orError .invalid (digits bytes 11 2)
  let minute ← orError .invalid (digits bytes 14 2)
  let second ← orError .invalid (digits bytes 17 2)
  if year = 0 then .error .invalid
  let leapSecond := second = 60
  let (cursor, nanos, precision) ← parseFraction bytes
  let (offset, unknownOffset) ←
    if requireOffset then parseOffset (bytes.drop cursor)
    else if cursor = bytes.length then .ok (none, false)
    else .error .invalid
  let datetime ← orError .invalid
    (DateTime.new year month day hour minute (if leapSecond then 59 else second) nanos)
  if leapSecond then .error ⟨.unsupported .leapSecond, precision, offset⟩
  else if unknownOffset then .error ⟨.ambiguous .unknownOffset, precision, none⟩
  else .ok ⟨datetime, offset, precision⟩

/-! ### What is written can be read -/

variable {c : Char}

theorem isDigit_of_mem_padded (width n : Nat) (h : c ∈ padded width n) : c.isDigit = true := by
  rw [padded, mem_append] at h
  rcases h with zero | digit
  · rw [eq_of_mem_replicate zero]
    rfl
  · exact Nat.isDigit_of_mem_toDigits (by decide) (by decide) digit

theorem ofDigitChars_padded (width n : Nat) : Nat.ofDigitChars 10 (padded width n) 0 = n := by
  rw [padded, Nat.ofDigitChars_append, Nat.ofDigitChars_replicate_zero, Nat.mul_zero,
    Nat.ofDigitChars_ten_toDigits]

theorem length_padded (width n : Nat) (positive : 0 < width) (h : n < 10 ^ width) :
    (padded width n).length = width := by
  have := (Nat.length_toDigits_le_iff (by decide) positive).2 h
  rw [padded, length_append, length_replicate]
  omega

theorem foldlM_digitStep {slice : List Char} (digit : ∀ c ∈ slice, c.isDigit = true) (init : Nat)
    (small : Nat.ofDigitChars 10 slice init < 2 ^ 32) :
    slice.foldlM digitStep init = some (Nat.ofDigitChars 10 slice init) ∧
      init ≤ Nat.ofDigitChars 10 slice init := by
  induction slice generalizing init with
  | nil => exact ⟨rfl, le_rfl⟩
  | cons c rest ih =>
    rw [Nat.ofDigitChars_cons] at small ⊢
    have next : 10 * init + (c.toNat - '0'.toNat) = init * 10 + (c.toNat - 48) := by
      rw [Nat.mul_comm]
      rfl
    obtain ⟨value, grows⟩ := ih (fun c' h => digit c' (mem_cons_of_mem c h)) _ small
    refine ⟨?_, by omega⟩
    rw [foldlM_cons, digitStep, if_pos (digit c mem_cons_self)]
    rw [← next, if_pos (by omega)]
    exact value

theorem foldlM_padded (width n : Nat) (small : n < 2 ^ 32) : (padded width n).foldlM digitStep 0 = some n := by
  have := foldlM_digitStep (fun _ => isDigit_of_mem_padded width n) 0
    (by rw [ofDigitChars_padded]; exact small)
  rw [this.1, ofDigitChars_padded]

variable {nanos : Nat}

theorem fraction_digits (h : nanos < 10 ^ 9) (positive : nanos ≠ 0) :
    let written := (padded 9 nanos).rdropWhile (· == '0')
    (∀ c ∈ written, c.isDigit = true) ∧ written ≠ [] ∧ written.length ≤ 9 ∧
      Nat.ofDigitChars 10 written 0 * 10 ^ (9 - written.length) = nanos := by
  intro written
  have split : written ++ (padded 9 nanos).rtakeWhile (· == '0') = padded 9 nanos :=
    rdropWhile_append_rtakeWhile
  have zeros : (padded 9 nanos).rtakeWhile (· == '0') =
      List.replicate ((padded 9 nanos).rtakeWhile (· == '0')).length '0' := by
    apply eq_replicate_of_mem
    intro c mem
    simpa using mem_rtakeWhile_imp mem
  have length := congrArg List.length split
  rw [length_append, length_padded 9 nanos (by decide) h] at length
  have value : Nat.ofDigitChars 10 written 0 * 10 ^ (9 - written.length) = nanos := by
    have whole := ofDigitChars_padded 9 nanos
    rw [← split, zeros, Nat.ofDigitChars_append, Nat.ofDigitChars_replicate_zero] at whole
    rw [show 9 - written.length = ((padded 9 nanos).rtakeWhile (· == '0')).length by omega, Nat.mul_comm]
    exact whole
  refine ⟨?_, ?_, by omega, value⟩
  · intro c mem
    apply isDigit_of_mem_padded 9 nanos
    rw [← split]
    exact mem_append_left _ mem
  · intro empty
    rw [empty, Nat.ofDigitChars_nil, Nat.zero_mul] at value
    exact positive value.symm

def Stops (suffix : List Char) : Prop := ∀ c ∈ suffix.head?, c.isDigit = false ∧ c ≠ '.'

variable {suffix : List Char}

theorem parseFraction_formatFraction (front : List Char) (length : front.length = 19)
    (h : nanos < 10 ^ 9) (stops : Stops suffix) :
    ∃ precision, parseFraction (front ++ (formatFraction nanos ++ suffix)) =
      .ok ((front ++ formatFraction nanos).length, nanos, precision) := by
  unfold parseFraction formatFraction
  by_cases zero : nanos = 0
  · have point : (front ++ suffix)[19]? ≠ some '.' := by
      rw [List.getElem?_append_right (by omega), length, Nat.sub_self, ← List.head?_eq_getElem?]
      exact fun there => (stops _ there).2 rfl
    rw [if_pos zero, append_nil, nil_append, if_neg point, length, zero]
    exact ⟨_, rfl⟩
  · obtain ⟨digit, nonempty, short, value⟩ := fraction_digits h zero
    generalize (padded 9 nanos).rdropWhile (· == '0') = written at digit nonempty short value ⊢
    have point : (front ++ ('.' :: written ++ suffix))[19]? = some '.' := by
      rw [List.getElem?_append_right (by omega), length]
      rfl
    have rest : (front ++ ('.' :: written ++ suffix)).drop 20 = written ++ suffix := by
      rw [drop_append, drop_eq_nil_of_le (by omega), length]
      rfl
    have run : (written ++ suffix).takeWhile (·.isDigit) = written := by
      have ends : suffix.takeWhile (·.isDigit) = [] := by
        cases suffix with
        | nil => rfl
        | cons c _ => rw [takeWhile_cons_of_neg (by simp [(stops c rfl).1])]
      rw [takeWhile_append_of_pos digit, ends, append_nil]
    have small : Nat.ofDigitChars 10 written 0 < 2 ^ 32 := by
      have : Nat.ofDigitChars 10 written 0 * 1 ≤ nanos := by
        rw [← value]
        exact Nat.mul_le_mul_left _ (Nat.one_le_two_pow.trans (Nat.pow_le_pow_left (by decide) _))
      omega
    have positive : 0 < written.length := length_pos_iff.2 nonempty
    have read : digits (front ++ ('.' :: written ++ suffix)) 20 written.length =
        some (Nat.ofDigitChars 10 written 0) := by
      unfold digits
      rw [if_pos (by simp [length]; omega), rest, take_left]
      exact (foldlM_digitStep digit 0 small).1
    rw [if_neg zero, if_pos point, rest, run, if_neg (by omega), read]
    simp only [orError, ok_bind, value]
    rw [if_pos (by omega)]
    refine ⟨.fractionDigits written.length, ?_⟩
    rw [length_append, length, length_cons, show 19 + (written.length + 1) = 20 + written.length by omega]

variable {n : Int}

theorem exists_pair (low : 0 ≤ n) (high : n < 100) :
    ∃ a b, paddedInt 2 n = [a, b] ∧ [a, b].foldlM digitStep 0 = some n.natAbs ∧
      a.isDigit = true ∧ b.isDigit = true := by
  have length := length_padded 2 n.natAbs (by decide) (by omega)
  have read := foldlM_padded 2 n.natAbs (by omega)
  have digit := fun c => isDigit_of_mem_padded 2 n.natAbs (c := c)
  obtain ⟨a, b, pair⟩ := length_eq_two.1 length
  rw [pair] at read digit
  exact ⟨a, b, by rw [paddedInt, if_neg (by omega), pair], read, digit a (by simp), digit b (by simp)⟩

theorem exists_quadruple (low : 0 ≤ n) (high : n < 10000) :
    ∃ a b c d, paddedInt 4 n = [a, b, c, d] ∧ [a, b, c, d].foldlM digitStep 0 = some n.natAbs ∧
      ∀ x ∈ [a, b, c, d], x.isDigit = true := by
  have length := length_padded 4 n.natAbs (by decide) (by omega)
  have read := foldlM_padded 4 n.natAbs (by omega)
  have digit := fun c => isDigit_of_mem_padded 4 n.natAbs (c := c)
  obtain ⟨a, b, c, d, quadruple⟩ : ∃ a b c d, padded 4 n.natAbs = [a, b, c, d] := by
    match padded 4 n.natAbs, length with
    | [a, b, c, d], _ => exact ⟨a, b, c, d, rfl⟩
  rw [quadruple] at read digit
  exact ⟨a, b, c, d, by rw [paddedInt, if_neg (by omega), quadruple], read, digit⟩

theorem ascii_of_isDigit (h : c.isDigit = true) : c.toNat < 128 := by
  simp only [Char.isDigit, Bool.and_eq_true, decide_eq_true_eq] at h
  have := h.2
  exact this.trans_lt (by decide)

theorem ascii_of_mem_formatFraction (h : c ∈ formatFraction nanos) : c.toNat < 128 := by
  unfold formatFraction at h
  split at h
  · cases h
  · rcases mem_cons.1 h with rfl | mem
    · decide
    · apply ascii_of_isDigit
      apply isDigit_of_mem_padded 9 nanos
      rw [← rdropWhile_append_rtakeWhile (p := (· == '0')) (l := padded 9 nanos)]
      exact mem_append_left _ mem

variable {bytes : List Char}

theorem digits_eq {field : List Char} {start count : Nat} (fits : start + count ≤ bytes.length)
    (h : (bytes.drop start).take count = field) : digits bytes start count = field.foldlM digitStep 0 := by
  rw [digits, if_pos fits, h]

theorem datetime_new (datetime : DateTime) :
    DateTime.new datetime.year datetime.month datetime.day datetime.hour datetime.minute
      datetime.second datetime.subsecNanosecond = some datetime := by
  unfold DateTime.new
  rw [dif_pos datetime.valid]

variable {input : String} {datetime : DateTime} {requireOffset : Bool} {offset : Option Int}

theorem parseDatetime_fields {year month day hour minute second cursor : Nat}
    {precision : SourcePrecision} (text : input.toList = bytes)
    (ascii : ¬ ∃ c ∈ bytes, 128 ≤ c.toNat) (long : 19 ≤ bytes.length)
    (separators : bytes[4]? = some '-' ∧ bytes[7]? = some '-' ∧ bytes[10]? = some 'T' ∧
      bytes[13]? = some ':' ∧ bytes[16]? = some ':')
    (readYear : digits bytes 0 4 = some year) (readMonth : digits bytes 5 2 = some month)
    (readDay : digits bytes 8 2 = some day) (readHour : digits bytes 11 2 = some hour)
    (readMinute : digits bytes 14 2 = some minute) (readSecond : digits bytes 17 2 = some second)
    (supported : year ≠ 0) (ordinary : second ≠ 60)
    (fraction : parseFraction bytes = .ok (cursor, nanos, precision))
    (zone : (if requireOffset then parseOffset (bytes.drop cursor)
      else if cursor = bytes.length then .ok (none, false) else .error .invalid) = .ok (offset, false))
    (made : DateTime.new year month day hour minute second nanos = some datetime) :
    parseDatetime input requireOffset = .ok ⟨datetime, offset, precision⟩ := by
  obtain ⟨one, two, three, four, five⟩ := separators
  have shape : ¬ ((∃ c ∈ bytes, 128 ≤ c.toNat) ∨ bytes.length < 19 ∨ bytes[4]? ≠ some '-' ∨
      bytes[7]? ≠ some '-' ∨ bytes[10]? ≠ some 'T' ∨ bytes[13]? ≠ some ':' ∨ bytes[16]? ≠ some ':') := by
    rw [one, two, three, four, five]
    simp only [ne_eq, not_true_eq_false, or_false, not_or]
    exact ⟨ascii, by omega⟩
  simp only [parseDatetime, text, if_neg shape, readYear, readMonth, readDay, readHour, readMinute,
    readSecond, orError, ok_bind, if_neg supported, fraction, if_neg ordinary, made]
  cases requireOffset with
  | true =>
    rw [if_pos rfl] at zone
    simp [zone]
  | false =>
    rw [if_neg (by decide)] at zone
    split at zone
    · cases zone
      simp [*]
    · cases zone

theorem parseDatetime_formatted (supported : 1 ≤ datetime.year)
    (appended : input.toList = (formatDatetime datetime).toList ++ suffix) (plain : ∀ c ∈ suffix, c.toNat < 128)
    (stops : Stops suffix)
    (zone : (if requireOffset then parseOffset suffix else if suffix = [] then .ok (none, false) else .error .invalid) =
      .ok (offset, false)) :
    ∃ precision, parseDatetime input requireOffset = .ok ⟨datetime, offset, precision⟩ := by
  obtain ⟨⟨_, _⟩, ⟨_, _⟩, ⟨_, monthEnd⟩, ⟨_, _⟩, ⟨_, _⟩, ⟨_, _⟩, ⟨_, _⟩⟩ := datetime.valid
  have longest := daysInMonth_le datetime.year datetime.month
  obtain ⟨y₀, y₁, y₂, y₃, year, readYear, digitYear⟩ := exists_quadruple (n := datetime.year) (by omega) (by omega)
  obtain ⟨o₀, o₁, month, readMonth, digitMonth⟩ := exists_pair (n := datetime.month) (by omega) (by omega)
  obtain ⟨d₀, d₁, day, readDay, digitDay⟩ := exists_pair (n := datetime.day) (by omega) (by omega)
  obtain ⟨h₀, h₁, hour, readHour, digitHour⟩ := exists_pair (n := datetime.hour) (by omega) (by omega)
  obtain ⟨m₀, m₁, minute, readMinute, digitMinute⟩ := exists_pair (n := datetime.minute) (by omega) (by omega)
  obtain ⟨s₀, s₁, second, readSecond, digitSecond⟩ := exists_pair (n := datetime.second) (by omega) (by omega)
  have text : input.toList = [y₀, y₁, y₂, y₃, '-', o₀, o₁, '-', d₀, d₁, 'T', h₀, h₁,
      ':', m₀, m₁, ':', s₀, s₁] ++ (formatFraction datetime.subsecNanosecond.natAbs ++ suffix) := by
    rw [appended, formatDatetime, String.toList_ofList, year, month, day, hour, minute, second, ← append_assoc]
    rfl
  obtain ⟨precision, fraction⟩ := parseFraction_formatFraction [y₀, y₁, y₂, y₃, '-', o₀, o₁, '-',
    d₀, d₁, 'T', h₀, h₁, ':', m₀, m₁, ':', s₀, s₁] rfl
    (by omega : datetime.subsecNanosecond.natAbs < 10 ^ 9) stops
  have ascii : ¬ ∃ c ∈ input.toList, 128 ≤ c.toNat := by
    rintro ⟨c, mem, high⟩
    apply absurd high
    rw [text, mem_append, mem_append] at mem
    rw [Nat.not_le]
    rcases mem with mem | mem | mem
    · simp only [mem_cons, not_mem_nil, or_false] at mem digitYear
      rcases mem with rfl | rfl | rfl | rfl | rfl | rfl | rfl | rfl | rfl | rfl | rfl | rfl | rfl | rfl | rfl |
        rfl | rfl | rfl | rfl <;> first | decide | exact ascii_of_isDigit (by simp_all)
    · exact ascii_of_mem_formatFraction mem
    · exact plain c mem
  refine ⟨precision, ?_⟩
  rw [text] at ascii
  rw [← append_assoc] at text ascii fraction
  have new := datetime_new datetime
  rw [← Int.natAbs_of_nonneg (by omega : 0 ≤ datetime.year), ← Int.natAbs_of_nonneg (by omega : 0 ≤ datetime.month),
    ← Int.natAbs_of_nonneg (by omega : 0 ≤ datetime.day), ← Int.natAbs_of_nonneg (by omega : 0 ≤ datetime.hour),
    ← Int.natAbs_of_nonneg (by omega : 0 ≤ datetime.minute), ← Int.natAbs_of_nonneg (by omega : 0 ≤ datetime.second),
    ← Int.natAbs_of_nonneg (by omega : 0 ≤ datetime.subsecNanosecond)] at new
  apply parseDatetime_fields text ascii (by simp) ⟨rfl, rfl, rfl, rfl, rfl⟩
    ((digits_eq (by simp) rfl).trans readYear) ((digits_eq (by simp) rfl).trans readMonth)
    ((digits_eq (by simp) rfl).trans readDay) ((digits_eq (by simp) rfl).trans readHour)
    ((digits_eq (by simp) rfl).trans readMinute) ((digits_eq (by simp) rfl).trans readSecond)
    (by omega) (by omega) fraction ?_ new
  rw [← zone, drop_left]
  cases suffix <;> simp

theorem parseDatetime_formatDatetime (supported : 1 ≤ datetime.year) :
    ∃ precision, parseDatetime (formatDatetime datetime) false = .ok ⟨datetime, none, precision⟩ :=
  parseDatetime_formatted supported (append_nil _).symm nofun nofun rfl

theorem utf8ByteSize_ofList_le (chars : List Char) : (String.ofList chars).utf8ByteSize ≤ 4 * chars.length := by
  induction chars with
  | nil => simp
  | cons c rest ih =>
    have := c.utf8Size_le_four
    rw [← singleton_append, String.ofList_append, String.utf8ByteSize_append,
      show String.ofList [c] = String.singleton c from rfl, String.utf8ByteSize_singleton, length_append, length_singleton]
    omega

theorem length_paddedInt {width : Nat} (positive : 0 < width) (low : 0 ≤ n)
    (high : n.natAbs < 10 ^ width) : (paddedInt width n).length = width := by
  rw [paddedInt, if_neg (by omega), length_padded _ _ positive high]

theorem length_formatFraction (h : nanos < 10 ^ 9) : (formatFraction nanos).length ≤ 10 := by
  unfold formatFraction
  split
  · simp
  · next positive =>
    have := (fraction_digits h positive).2.2.1
    rw [length_cons]
    omega

theorem utf8ByteSize_formatDatetime (supported : 1 ≤ datetime.year) :
    (formatDatetime datetime).utf8ByteSize ≤ 4095 := by
  obtain ⟨⟨_, _⟩, ⟨_, _⟩, ⟨_, monthEnd⟩, ⟨_, _⟩, ⟨_, _⟩, ⟨_, _⟩, ⟨_, _⟩⟩ := datetime.valid
  have longest := daysInMonth_le datetime.year datetime.month
  have fraction := length_formatFraction (by omega : datetime.subsecNanosecond.natAbs < 10 ^ 9)
  apply (utf8ByteSize_ofList_le _).trans
  simp only [length_append, length_cons]
  rw [length_paddedInt (by decide) (by omega) (by omega), length_paddedInt (by decide) (by omega) (by omega),
    length_paddedInt (by decide) (by omega) (by omega), length_paddedInt (by decide) (by omega) (by omega),
    length_paddedInt (by decide) (by omega) (by omega), length_paddedInt (by decide) (by omega) (by omega)]
  omega

end Uste.Time
