import Uste.Foundation.Bytes
import Uste.Foundation.Program
import Uste.Foundation.Utf8

/-!
A cursor over bytes: programs whose state is what is left to read. Each reader fails with an error
of its own where the input is too short. What a reader accepts is said by an equivalence: the value
is a proper one, and the input begins with its bytes.
-/

namespace Uste

open List

abbrev Reader (ε α : Type) := Program (List UInt8) ε α

namespace Reader

variable {ε α β : Type}

def take (short : ε) (count : Nat) : Reader ε (List UInt8) := do
  let input ← Program.read
  Program.ensure (count ≤ input.length) short
  Program.update fun input => input.drop count
  pure (input.take count)

def array (short : ε) (n : Nat) : Reader ε (Octets n) := do
  let bytes ← take short n
  Program.lift id (orError short (Octets.ofList? n bytes))

def byte (short : ε) : Reader ε UInt8 := do
  let bytes ← take short 1
  Program.lift id (orError short bytes.head?)

def word (short : ε) (width : Nat) : Reader ε Nat := do
  let bytes ← take short width
  pure (ofBigEndian bytes)

def string (short long : ε) (maximum : Nat) : Reader ε String := do
  let length ← word short 4
  Program.ensure (length ≤ maximum) long
  let bytes ← take short length
  Program.lift id (orError short (Utf8.decode bytes))

/-- An absent value, or a present one, behind a tag byte. -/
def optional (short : ε) (value : Reader ε α) : Reader ε (Option α) := do
  let tag ← byte short
  if tag = 0 then pure none
  else if tag = 1 then some <$> value
  else Program.fail short

def replicate (count : Nat) (value : Reader ε α) : Reader ε (List α) :=
  match count with
  | 0 => pure []
  | count + 1 => do
    let first ← value
    let rest ← replicate count value
    pure (first :: rest)

/-! ### What is accepted -/

variable {ε' : Type} {reader : Reader ε α} {next : α → Reader ε β} {input rest : List UInt8} {a a' : α} {b : β} {short long : ε}

@[simp] theorem bind_iff : (reader >>= next) input = (.ok b, rest) ↔
    ∃ a middle, reader input = (.ok a, middle) ∧ next a middle = (.ok b, rest) := by
  rcases ran : reader.run input with ⟨_ | _, _⟩
  · rw [Program.run_error ran]
    simp [show reader input = _ from ran]
  · rw [Program.run_ok ran]
    simp [show reader input = _ from ran]

theorem run_iff : (reader.run input).1 = .ok a ↔ ∃ rest, reader input = (.ok a, rest) := by
  simp [Prod.ext_iff, Program.run]

@[simp] theorem pure_iff : (pure a : Reader ε α) input = (.ok a', rest) ↔ a = a' ∧ input = rest := by
  show (Except.ok a, input) = _ ↔ _
  simp

@[simp] theorem map_iff {f : α → β} : (f <$> reader) input = (.ok b, rest) ↔ ∃ a, reader input = (.ok a, rest) ∧ f a = b := by
  show (reader >>= fun a => pure (f a)) input = _ ↔ _
  simp only [bind_iff, pure_iff]
  constructor
  · rintro ⟨a, _, read, rfl, rfl⟩
    exact ⟨a, read, rfl⟩
  · rintro ⟨a, read, rfl⟩
    exact ⟨a, _, read, rfl, rfl⟩

@[simp] theorem fail_iff {e : ε} : (Program.fail e : Reader ε α) input = (.ok a, rest) ↔ False := by
  simp [Program.fail]

@[simp] theorem ensure_iff {c : Prop} [Decidable c] {e : ε} {u : Unit} :
    (Program.ensure c e : Reader ε Unit) input = (.ok u, rest) ↔ c ∧ input = rest := by
  unfold Program.ensure
  split <;> simp [*]

@[simp] theorem lift_iff {f : ε' → ε} {r : Except ε' α} :
    (Program.lift f r : Reader ε α) input = (.ok a, rest) ↔ r = .ok a ∧ input = rest := by
  simp [Program.lift, mapError_ok_iff]

@[simp] theorem read_iff {whole : List UInt8} :
    (Program.read : Reader ε _) input = (.ok whole, rest) ↔ input = whole ∧ input = rest := by
  simp [Program.read]

@[simp] theorem take_iff {count : Nat} {bytes : List UInt8} :
    take short count input = (.ok bytes, rest) ↔ bytes.length = count ∧ input = bytes ++ rest := by
  simp only [take, bind_iff, read_iff, ensure_iff, pure_iff]
  constructor
  · rintro ⟨_, _, ⟨rfl, rfl⟩, _, _, ⟨enough, rfl⟩, _, _, updated, rfl, rfl⟩
    cases updated
    exact ⟨by simpa using enough, (take_append_drop ..).symm⟩
  · rintro ⟨rfl, rfl⟩
    exact ⟨_, _, ⟨rfl, rfl⟩, (), _, ⟨by simp, rfl⟩, (), _, rfl, by simp, by simp⟩

@[simp] theorem array_iff {n : Nat} {octets : Octets n} :
    array short n input = (.ok octets, rest) ↔ input = octets.bytes ++ rest := by
  simp only [array, bind_iff, take_iff, lift_iff, orError_ok, Octets.ofList?_eq_some]
  constructor
  · rintro ⟨_, _, ⟨-, rfl⟩, rfl, rfl⟩
    rfl
  · rintro rfl
    exact ⟨_, _, ⟨octets.length_bytes, rfl⟩, rfl, rfl⟩

@[simp] theorem byte_iff {tag : UInt8} : byte short input = (.ok tag, rest) ↔ input = tag :: rest := by
  simp only [byte, bind_iff, take_iff, lift_iff, orError_ok, length_eq_one_iff]
  constructor
  · rintro ⟨_, _, ⟨⟨_, rfl⟩, rfl⟩, found, rfl⟩
    cases found
    rfl
  · rintro rfl
    exact ⟨[tag], rest, ⟨⟨tag, rfl⟩, rfl⟩, rfl, rfl⟩

@[simp] theorem word_iff {width n : Nat} :
    word short width input = (.ok n, rest) ↔ n < 256 ^ width ∧ input = bigEndian width n ++ rest := by
  simp only [word, bind_iff, take_iff, pure_iff]
  constructor
  · rintro ⟨bytes, _, ⟨rfl, rfl⟩, rfl, rfl⟩
    exact ⟨ofBigEndian_lt bytes, by rw [bigEndian_ofBigEndian]⟩
  · rintro ⟨fits, rfl⟩
    exact ⟨_, _, ⟨length_bigEndian .., rfl⟩, ofBigEndian_bigEndian fits, rfl⟩

def stringBytes (text : String) : List UInt8 := bigEndian 4 (Utf8.len text) ++ Utf8.bytes text

@[simp] theorem string_iff {maximum : Nat} {text : String} : string short long maximum input = (.ok text, rest) ↔
    (Utf8.len text ≤ maximum ∧ Utf8.len text < 2 ^ 32) ∧ input = stringBytes text ++ rest := by
  simp only [string, bind_iff, word_iff, ensure_iff, take_iff, lift_iff, orError_ok, Utf8.decode_eq_some, stringBytes,
    append_assoc]
  constructor
  · rintro ⟨_, _, ⟨fits, rfl⟩, _, _, ⟨short, rfl⟩, _, _, ⟨rfl, rfl⟩, rfl, rfl⟩
    exact ⟨⟨short, fits⟩, rfl⟩
  · rintro ⟨⟨short, fits⟩, rfl⟩
    exact ⟨_, _, ⟨fits, rfl⟩, (), _, ⟨short, rfl⟩, _, _, ⟨rfl, rfl⟩, rfl, rfl⟩

theorem stringBytes_append_inj {a b : String} {rest' : List UInt8} (ha : Utf8.len a < 2 ^ 32) (hb : Utf8.len b < 2 ^ 32) :
    stringBytes a ++ rest = stringBytes b ++ rest' ↔ a = b ∧ rest = rest' := by
  rw [stringBytes, stringBytes, append_assoc, append_assoc, ← Utf8.bytes_inj]
  exact block_append_inj ha hb

def optionBytes (encode : α → List UInt8) : Option α → List UInt8
  | none => [0]
  | some a => 1 :: encode a

section

variable {P : α → Prop} {encode : α → List UInt8}
  (value : ∀ input a rest, reader input = (.ok a, rest) ↔ P a ∧ input = encode a ++ rest)

include value

theorem append_inj_of_iff {a b : α} {rest' : List UInt8} (ha : P a) (hb : P b)
    (same : encode a ++ rest = encode b ++ rest') : a = b ∧ rest = rest' := by
  have first := (value _ a rest).mpr ⟨ha, rfl⟩
  rw [same, (value _ b rest').mpr ⟨hb, rfl⟩] at first
  cases first
  exact ⟨rfl, rfl⟩

theorem replicate_iff {count : Nat} {items : List α} : replicate count reader input = (.ok items, rest) ↔
    items.length = count ∧ (∀ a ∈ items, P a) ∧ input = items.flatMap encode ++ rest := by
  induction count generalizing items input rest with
  | zero =>
    simp only [replicate, pure_iff, length_eq_zero_iff]
    constructor
    · rintro ⟨rfl, rfl⟩
      simp
    · rintro ⟨rfl, -, rfl⟩
      exact ⟨rfl, rfl⟩
  | succ count ih =>
    simp only [replicate, bind_iff, pure_iff, value, ih]
    constructor
    · rintro ⟨first, _, ⟨here, rfl⟩, later, _, ⟨rfl, there, rfl⟩, rfl, rfl⟩
      simpa using ⟨here, there⟩
    · rintro ⟨length, all, rfl⟩
      cases items with
      | nil => cases length
      | cons first later =>
        rw [forall_mem_cons] at all
        exact ⟨first, _, ⟨all.1, by simp⟩, later, rest, ⟨Nat.succ.inj length, all.2, rfl⟩, rfl, rfl⟩

theorem optional_iff {found : Option α} :
    optional short reader input = (.ok found, rest) ↔ (∀ a ∈ found, P a) ∧ input = optionBytes encode found ++ rest := by
  have tags (tag : UInt8) (middle : List UInt8) :
      (if tag = 0 then pure none else if tag = 1 then some <$> reader else Program.fail short : Reader ε (Option α)) middle =
        (.ok found, rest) ↔ (∀ a ∈ found, P a) ∧ tag :: middle = optionBytes encode found ++ rest := by
    cases found <;> split <;> [skip; split; skip; split] <;> simp_all [optionBytes]
  simp only [optional, bind_iff, byte_iff, tags]
  constructor
  · rintro ⟨tag, middle, rfl, read⟩
    exact read
  · rintro ⟨holds, rfl⟩
    cases found
    · exact ⟨0, rest, rfl, holds, rfl⟩
    · exact ⟨1, _, rfl, holds, rfl⟩

end

/-! ### Reading back what was written -/

/-- The reader takes exactly these bytes from the front, and finds this value in them. -/
def Reads (reader : Reader ε α) (bytes : List UInt8) (a : α) : Prop := ∀ rest, reader (bytes ++ rest) = (.ok a, rest)

namespace Reads

variable {bytes bytes' : List UInt8}

theorem whole (h : Reads reader bytes a) : reader bytes = (.ok a, []) := by
  have read := h []
  rwa [append_nil] at read

theorem pure (a : α) : Reads (Pure.pure a : Reader ε α) [] a := fun _ => rfl

theorem bind (first : Reads reader bytes a) (second : Reads (next a) bytes' b) :
    Reads (reader >>= next) (bytes ++ bytes') b := by
  intro rest
  rw [append_assoc]
  exact bind_iff.mpr ⟨a, _, first _, second rest⟩

theorem pass {c : Prop} [Decidable c] {e : ε} {next : Unit → Reader ε β} (h : c) (rest : Reads (next ()) bytes b) :
    Reads (Program.ensure c e >>= next) bytes b :=
  fun input => bind_iff.mpr ⟨(), _, ensure_iff.mpr ⟨h, rfl⟩, rest input⟩

theorem known {f : ε' → ε} {r : Except ε' α} (h : r = .ok a) (rest : Reads (next a) bytes b) :
    Reads (Program.lift f r >>= next) bytes b :=
  fun input => bind_iff.mpr ⟨a, _, lift_iff.mpr ⟨h, rfl⟩, rest input⟩

theorem take {count : Nat} (length : bytes.length = count) : Reads (Reader.take short count) bytes bytes :=
  fun _ => take_iff.mpr ⟨length, rfl⟩

theorem array {n : Nat} (octets : Octets n) : Reads (Reader.array short n) octets.bytes octets :=
  fun _ => array_iff.mpr rfl

theorem word {width n : Nat} (fits : n < 256 ^ width) : Reads (Reader.word short width) (bigEndian width n) n :=
  fun _ => word_iff.mpr ⟨fits, rfl⟩

end Reads

end Reader

end Uste
