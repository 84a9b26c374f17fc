import Mathlib

/-! Text and its UTF-8 bytes: offsets at which characters begin, and the part between two of them. -/

namespace Uste.Utf8

open List

def encode (chars : List Char) : List UInt8 := chars.flatMap String.utf8EncodeChar

@[simp] theorem encode_nil : encode [] = [] := rfl

@[simp] theorem encode_cons (c : Char) (rest : List Char) : encode (c :: rest) = String.utf8EncodeChar c ++ encode rest := rfl

@[simp] theorem encode_append (a b : List Char) : encode (a ++ b) = encode a ++ encode b := by
  simp [encode]

theorem length_encode_cons (c : Char) (rest : List Char) : (encode (c :: rest)).length = c.utf8Size + (encode rest).length := by
  simp [String.length_utf8EncodeChar]

def bytes (text : String) : List UInt8 := encode text.toList

def len (text : String) : Nat := (bytes text).length

def decode (input : List UInt8) : Option String := String.fromUTF8? input.toByteArray

theorem decode_eq_some {input : List UInt8} {text : String} : decode input = some text ↔ input = bytes text := by
  have encoded : (bytes text).toByteArray = text.toByteArray := by
    conv_rhs => rw [← String.ofList_toList (s := text), String.toByteArray_ofList]
    rfl
  rw [← toByteArray_inj, encoded, decode, String.fromUTF8?]
  by_cases valid : input.toByteArray.IsValidUTF8
  · rw [dif_pos valid, Option.some_inj, ← String.toByteArray_inj]
    rfl
  · rw [dif_neg valid]
    exact ⟨nofun, fun same => absurd (same ▸ text.isValidUTF8) valid⟩

theorem bytes_inj {a b : String} : bytes a = bytes b ↔ a = b := by
  rw [← decode_eq_some, decode_eq_some.mpr rfl, Option.some_inj]

/-! ### Offsets -/

/-- The characters before and after a byte offset, where one begins at it. -/
def split : List Char → Nat → Option (List Char × List Char)
  | rest, 0 => some ([], rest)
  | [], _ + 1 => none
  | c :: rest, n + 1 =>
    if c.utf8Size ≤ n + 1 then (split rest (n + 1 - c.utf8Size)).map fun (before, after) => (c :: before, after) else none

variable {offset : Nat}

theorem split_sound {chars before after : List Char} (h : split chars offset = some (before, after)) :
    chars = before ++ after ∧ (encode before).length = offset := by
  induction chars generalizing before offset with
  | nil =>
    cases offset with
    | zero =>
      cases h
      simp
    | succ n => cases h
  | cons c rest ih =>
    cases offset with
    | zero =>
      cases h
      simp
    | succ n =>
      unfold split at h
      split at h
      · obtain ⟨⟨before', after'⟩, found, same⟩ := Option.map_eq_some_iff.mp h
        cases same
        obtain ⟨rfl, length⟩ := ih found
        refine ⟨rfl, ?_⟩
        rw [length_encode_cons, length]
        omega
      · cases h

theorem split_append (before after : List Char) :
    split (before ++ after) (encode before).length = some (before, after) := by
  induction before with
  | nil =>
    cases after <;> rfl
  | cons c rest ih =>
    have positive := c.utf8Size_pos
    obtain ⟨n, length⟩ : ∃ n, (encode (c :: rest)).length = n + 1 := by
      rw [length_encode_cons]
      exact ⟨c.utf8Size + (encode rest).length - 1, by omega⟩
    have smaller : n + 1 - c.utf8Size = (encode rest).length := by
      rw [← length, length_encode_cons]
      omega
    rw [cons_append, length]
    unfold split
    rw [if_pos (by rw [← length, length_encode_cons]; omega), smaller, ih]
    rfl

def isCharBoundary (text : String) (offset : Nat) : Bool := (split text.toList offset).isSome

def getRange (text : String) (first last : Nat) : Option String :=
  if first ≤ last then do
    let (_, after) ← split text.toList first
    let (part, _) ← split after (last - first)
    pure (String.ofList part)
  else none

variable {text part : String} {first last : Nat}

theorem getRange_iff : getRange text first last = some part ↔ ∃ before after,
      text.toList = before ++ (part.toList ++ after) ∧ (encode before).length = first ∧
        first + (encode part.toList).length = last := by
  unfold getRange
  constructor
  · intro h
    split at h
    · obtain ⟨⟨before, tail⟩, first', h⟩ := Option.bind_eq_some_iff.mp h
      obtain ⟨⟨chars, after⟩, second, h⟩ := Option.bind_eq_some_iff.mp h
      cases h
      obtain ⟨whole, length⟩ := split_sound first'
      obtain ⟨rfl, length'⟩ := split_sound second
      refine ⟨before, after, by simpa using whole, length, ?_⟩
      rw [String.toList_ofList, length']
      omega
    · cases h
  · rintro ⟨before, after, whole, rfl, rfl⟩
    rw [if_pos (by omega), whole, split_append]
    simp [split_append]

theorem isCharBoundary_iff :
    isCharBoundary text offset = true ↔ ∃ before after, text.toList = before ++ after ∧ (encode before).length = offset := by
  unfold isCharBoundary
  rw [Option.isSome_iff_exists]
  constructor
  · rintro ⟨⟨before, after⟩, found⟩
    exact ⟨before, after, split_sound found⟩
  · rintro ⟨before, after, whole, rfl⟩
    exact ⟨(before, after), by rw [whole, split_append]⟩

theorem isSome_getRange : (getRange text first last).isSome = true ↔
      first ≤ last ∧ isCharBoundary text first = true ∧ isCharBoundary text last = true := by
  rw [Option.isSome_iff_exists, isCharBoundary_iff, isCharBoundary_iff]
  constructor
  · rintro ⟨part, found⟩
    obtain ⟨before, after, whole, rfl, rfl⟩ := getRange_iff.mp found
    refine ⟨by omega, ⟨before, _, whole, rfl⟩, before ++ part.toList, after, by simpa using whole, ?_⟩
    rw [encode_append, length_append]
  · rintro ⟨ordered, ⟨before, tail, whole, rfl⟩, before', after, whole', rfl⟩
    -- The shorter prefix is a prefix of the longer one.
    have initial : before <+: before' := by
      rcases prefix_or_prefix_of_prefix (prefix_append before tail)
        (whole ▸ whole' ▸ prefix_append before' after) with shorter | ⟨more, rfl⟩
      · exact shorter
      · cases more with
        | nil => simp
        | cons c rest =>
          have positive := c.utf8Size_pos
          rw [encode_append, length_append, length_encode_cons] at ordered
          omega
    obtain ⟨part, rfl⟩ := initial
    refine ⟨String.ofList part, getRange_iff.mpr ⟨before, after, ?_, rfl, ?_⟩⟩
    · rw [whole', String.toList_ofList, append_assoc]
    · rw [encode_append, length_append, String.toList_ofList]

theorem bytes_getRange (h : getRange text first last = some part) :
    bytes part = ((bytes text).drop first).take (last - first) := by
  obtain ⟨before, after, whole, rfl, rfl⟩ := getRange_iff.mp h
  unfold bytes
  rw [whole, encode_append, encode_append, drop_left, Nat.add_sub_cancel_left, take_left]

/-! ### Search -/

def toAsciiLowercase (text : String) : String := String.ofList (text.toList.map Char.toLower)

def contains (text part : String) : Bool := decide (part.toList <:+: text.toList)

end Uste.Utf8
