import Uste.Foundation.Maps

/-!
Byte strings: fixed-width arrays with the lexicographic order, big-endian integers, fields of a
fixed layout read by offset, and lower-case hexadecimal text.
-/

namespace Uste

open Std List

theorem lawfulEqCmp_compareOn {α β : Type} [Ord β] [LawfulEqOrd β] {key : α → β}
    (injective : ∀ a b, key a = key b → a = b) : LawfulEqCmp (compareOn key) where
  eq_of_compare h := injective _ _ (LawfulEqOrd.eq_of_compare h)

structure Octets (n : Nat) where
  bytes : List UInt8
  length_bytes : bytes.length = n
  deriving DecidableEq

namespace Octets

variable {n : Nat}

attribute [simp] length_bytes

@[ext] theorem ext {a b : Octets n} (h : a.bytes = b.bytes) : a = b := by
  cases a
  cases b
  cases h
  rfl

def zero (n : Nat) : Octets n := ⟨List.replicate n 0, List.length_replicate⟩

def ofList? (n : Nat) (bytes : List UInt8) : Option (Octets n) :=
  if h : bytes.length = n then some ⟨bytes, h⟩ else none

@[simp] theorem ofList?_bytes (a : Octets n) : ofList? n a.bytes = some a := by
  simp [ofList?]

theorem ofList?_eq_some {bytes : List UInt8} {a : Octets n} : ofList? n bytes = some a ↔ bytes = a.bytes := by
  unfold ofList?
  constructor
  · intro h
    split at h
    · cases h
      rfl
    · cases h
  · rintro rfl
    simp

instance : Inhabited (Octets n) := ⟨zero n⟩

instance : Ord (Octets n) := ⟨compareOn bytes⟩

instance : TransOrd (Octets n) := inferInstanceAs (TransCmp (compareOn bytes))

instance : TransOrd (Octets 16) := inferInstance

instance : TransOrd (Octets 32) := inferInstance

instance : LawfulEqOrd (Octets n) := lawfulEqCmp_compareOn fun _ _ => ext

end Octets

def ascii (text : String) : List UInt8 := text.toList.map fun c => UInt8.ofNat c.toNat

/-! ### Big-endian integers -/

/-- The `width` low bytes of `n`, most significant first. -/
def bigEndian : Nat → Nat → List UInt8
  | 0, _ => []
  | width + 1, n => bigEndian width (n / 256) ++ [UInt8.ofNat n]

def ofBigEndian (bytes : List UInt8) : Nat := bytes.foldl (fun n b => n * 256 + b.toNat) 0

@[simp] theorem length_bigEndian (width n : Nat) : (bigEndian width n).length = width := by
  induction width generalizing n with
  | zero => rfl
  | succ width ih => simp [bigEndian, ih]

theorem ofBigEndian_snoc (bytes : List UInt8) (b : UInt8) :
    ofBigEndian (bytes ++ [b]) = ofBigEndian bytes * 256 + b.toNat := by
  simp [ofBigEndian, foldl_append]

variable {n : Nat}

theorem ofBigEndian_bigEndian {width : Nat} (fits : n < 256 ^ width) : ofBigEndian (bigEndian width n) = n := by
  induction width generalizing n with
  | zero =>
    have : n = 0 := by simpa using fits
    subst this
    rfl
  | succ width ih =>
    have high : n / 256 < 256 ^ width := by
      rw [Nat.div_lt_iff_lt_mul (by decide)]
      simpa [pow_succ] using fits
    rw [bigEndian, ofBigEndian_snoc, ih high]
    have low : (UInt8.ofNat n).toNat = n % 256 := by simp
    omega

theorem bigEndian_inj {width m : Nat} (hm : m < 256 ^ width) (hn : n < 256 ^ width) (same : bigEndian width m = bigEndian width n) :
    m = n := by
  rw [← ofBigEndian_bigEndian hm, same, ofBigEndian_bigEndian hn]

theorem ofBigEndian_lt (bytes : List UInt8) : ofBigEndian bytes < 256 ^ bytes.length := by
  induction bytes using List.reverseRecOn with
  | nil => simp [ofBigEndian]
  | append_singleton bytes b ih =>
    have : b.toNat < 256 := b.toNat_lt
    rw [ofBigEndian_snoc, length_append, length_singleton, pow_succ]
    omega

theorem bigEndian_ofBigEndian (bytes : List UInt8) : bigEndian bytes.length (ofBigEndian bytes) = bytes := by
  induction bytes using List.reverseRecOn with
  | nil => rfl
  | append_singleton bytes b ih =>
    have : b.toNat < 256 := b.toNat_lt
    have high : (ofBigEndian bytes * 256 + b.toNat) / 256 = ofBigEndian bytes := by omega
    have low : UInt8.ofNat (ofBigEndian bytes * 256 + b.toNat) = b := by
      apply UInt8.toNat_inj.mp
      simp only [UInt8.toNat_ofNat']
      omega
    rw [length_append, length_singleton, bigEndian, ofBigEndian_snoc, high, ih, low]

theorem ofBigEndian_eq {bytes : List UInt8} {width : Nat} (exact : bytes.length = width) :
    ofBigEndian bytes = n ↔ bytes = bigEndian width n ∧ n < 256 ^ width := by
  subst exact
  constructor
  · rintro rfl
    exact ⟨(bigEndian_ofBigEndian bytes).symm, ofBigEndian_lt bytes⟩
  · rintro ⟨same, fits⟩
    rw [same, ofBigEndian_bigEndian fits]

/-! ### Fields one after the other -/

section

variable {rest rest' : List UInt8} {width : Nat}

theorem Octets.append_inj {a b : Octets n} : a.bytes ++ rest = b.bytes ++ rest' ↔ a = b ∧ rest = rest' := by
  constructor
  · intro same
    obtain ⟨here, there⟩ := List.append_inj same (by simp)
    exact ⟨ext here, there⟩
  · rintro ⟨rfl, rfl⟩
    rfl

theorem bigEndian_append_inj {m : Nat} (hm : m < 256 ^ width) (hn : n < 256 ^ width) :
    bigEndian width m ++ rest = bigEndian width n ++ rest' ↔ m = n ∧ rest = rest' := by
  constructor
  · intro same
    obtain ⟨here, there⟩ := append_inj same (by simp)
    exact ⟨bigEndian_inj hm hn here, there⟩
  · rintro ⟨rfl, rfl⟩
    rfl

theorem block_append_inj {a b : List UInt8} (ha : a.length < 256 ^ width) (hb : b.length < 256 ^ width) :
    bigEndian width a.length ++ (a ++ rest) = bigEndian width b.length ++ (b ++ rest') ↔ a = b ∧ rest = rest' := by
  rw [bigEndian_append_inj ha hb]
  constructor
  · rintro ⟨length, same⟩
    exact append_inj same length
  · rintro ⟨rfl, rfl⟩
    exact ⟨rfl, rfl⟩

end

/-! ### Fields of a fixed layout -/

/-- The `length` bytes from `offset` on, fewer where the string ends before. -/
def slice (bytes : List UInt8) (offset length : Nat) : List UInt8 := (bytes.drop offset).take length

variable {bytes : List UInt8} {offset length : Nat}

theorem length_slice (fits : offset + length ≤ bytes.length) : (slice bytes offset length).length = length := by
  simp only [slice, length_take, length_drop]
  omega

theorem slice_skip {head rest : List UInt8} (skip : head.length ≤ offset) :
    slice (head ++ rest) offset length = slice rest (offset - head.length) length := by
  simp [slice, drop_append, drop_eq_nil_of_le skip]

theorem slice_here {head rest : List UInt8} (exact : head.length = length) : slice (head ++ rest) 0 length = head := by
  subst exact
  simp [slice]

theorem slice_all (exact : bytes.length ≤ length) : slice bytes 0 length = bytes := by
  simp [slice, take_of_length_le exact]

theorem slice_join {next more : Nat} (adjacent : next = offset + length) :
    slice bytes offset length ++ slice bytes next more = slice bytes offset (length + more) := by
  subst adjacent
  simp only [slice]
  rw [take_add, drop_drop]

theorem slice_drop {skip : Nat} : slice (bytes.drop skip) offset length = slice bytes (skip + offset) length := by
  rw [slice, drop_drop, slice]

/-! A string is made of fields exactly where each is found at its place, and the last one at the end. -/

theorem eq_append_iff {head rest : List UInt8} : bytes = head ++ rest ↔
    slice bytes 0 head.length = head ∧ bytes.drop head.length = rest := by
  rw [slice, drop_zero]
  constructor
  · rintro rfl
    simp
  · rintro ⟨here, rfl⟩
    calc bytes = bytes.take head.length ++ bytes.drop head.length := (take_append_drop ..).symm
      _ = head ++ bytes.drop head.length := by rw [here]

theorem eq_iff_slice {f : List UInt8} : bytes = f ↔ slice bytes 0 f.length = f ∧ bytes.length = f.length := by
  rw [slice, drop_zero]
  constructor
  · rintro rfl
    exact ⟨take_length, rfl⟩
  · rintro ⟨here, same⟩
    rwa [← same, take_length] at here

theorem drop_eq_iff {last : List UInt8} (some : 0 < last.length) : bytes.drop offset = last ↔
    slice bytes offset last.length = last ∧ bytes.length = offset + last.length := by
  rw [slice]
  constructor
  · rintro rfl
    rw [length_drop] at some ⊢
    exact ⟨take_of_length_le (by simp), by omega⟩
  · rintro ⟨here, whole⟩
    rwa [take_of_length_le (by rw [length_drop]; omega)] at here

theorem slice_within {start count : Nat} (fits : start + count ≤ length) :
    slice (slice bytes offset length) start count = slice bytes (offset + start) count := by
  refine ext_getElem? fun i => ?_
  simp only [slice, List.getElem?_take, List.getElem?_drop]
  split
  · rw [if_pos (by omega), Nat.add_assoc]
  · rfl

theorem slice_eq_of_initial {data : List UInt8} (h : data <+: bytes.drop offset) :
    slice bytes offset data.length = data := by
  rw [prefix_iff_eq_take] at h
  exact h.symm

/-! ### Hexadecimal text -/

def hexDigit (n : Nat) : UInt8 := UInt8.ofNat (if n < 10 then 48 + n else 87 + n)

def hex (bytes : List UInt8) : List UInt8 :=
  bytes.flatMap fun b => [hexDigit (b.toNat / 16), hexDigit (b.toNat % 16)]

theorem toNat_hexDigit (digit : n < 16) : (hexDigit n).toNat = if n < 10 then 48 + n else 87 + n := by
  unfold hexDigit
  split <;> simp only [UInt8.toNat_ofNat'] <;> omega

theorem hexDigit_inj {m : Nat} (hm : m < 16) (hn : n < 16) (same : hexDigit m = hexDigit n) : m = n := by
  have values : (hexDigit m).toNat = (hexDigit n).toNat := by rw [same]
  rw [toNat_hexDigit hm, toNat_hexDigit hn] at values
  split at values <;> split at values <;> omega

theorem hex_injective : Function.Injective hex := by
  intro a
  induction a with
  | nil =>
    intro b same
    cases b with
    | nil => rfl
    | cons y ys => simp [hex] at same
  | cons x xs ih =>
    intro b same
    cases b with
    | nil => simp [hex] at same
    | cons y ys =>
      simp only [hex, flatMap_cons, cons_append, nil_append, List.cons.injEq] at same
      obtain ⟨high, low, rest⟩ := same
      have hx : x.toNat < 256 := x.toNat_lt
      have hy : y.toNat < 256 := y.toNat_lt
      have high := hexDigit_inj (by omega) (by omega) high
      have low := hexDigit_inj (by omega) (by omega) low
      have digits : x = y := UInt8.toNat_inj.mp (by omega)
      rw [digits, ih rest]

@[simp] theorem length_hex (bytes : List UInt8) : (hex bytes).length = 2 * bytes.length := by
  induction bytes with
  | nil => rfl
  | cons b bytes ih =>
    simp only [hex, flatMap_cons, length_append, length_cons, length_nil] at ih ⊢
    omega

theorem hex_alphanumeric {c : UInt8} (h : c ∈ hex bytes) : 48 ≤ c.toNat ∧ c.toNat ≤ 102 := by
  simp only [hex, mem_flatMap, mem_cons, not_mem_nil, or_false] at h
  obtain ⟨b, -, h⟩ := h
  have bound : b.toNat < 256 := b.toNat_lt
  rcases h with rfl | rfl
  · rw [toNat_hexDigit (by omega)]
    split <;> omega
  · rw [toNat_hexDigit (by omega)]
    split <;> omega

end Uste
