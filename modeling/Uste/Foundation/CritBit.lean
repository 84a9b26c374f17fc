import Mathlib

/-!
Crit-bit trees over keys that are read as bit strings. The tree of a finite map is unique, and a
change at one key changes only what hangs at the end of the key's search path.
-/

namespace Uste.CritBit

/-- Keys as bit strings, with the first bit at which two of them differ. -/
structure KeyBits (κ : Type) where
  bit : κ → Nat → Bool
  diff : κ → κ → Option Nat
  diff_none : ∀ {a b}, diff a b = none ↔ a = b
  diff_some : ∀ {a b d}, diff a b = some d → (∀ i < d, bit a i = bit b i) ∧ bit a d ≠ bit b d

inductive Tree (κ α : Type) where
  | leaf (key : κ) (value : α)
  | branch (bit : Nat) (left right : Tree κ α)

/-- A branch on a search path: its bit, and what is on the side that is not taken. -/
structure Step (β : Type) where
  bit : Nat
  sibling : β
  deriving DecidableEq

def Step.map {β γ : Type} (f : β → γ) (s : Step β) : Step γ := ⟨s.bit, f s.sibling⟩

theorem Step.cut_map {β γ : Type} (f : β → γ) (steps : List (Step β)) (n : Nat) :
    (steps.map (Step.map f)).takeWhile (·.bit < n) = (steps.takeWhile (·.bit < n)).map (Step.map f) ∧
    (steps.map (Step.map f)).dropWhile (·.bit < n) = (steps.dropWhile (·.bit < n)).map (Step.map f) :=
  ⟨List.takeWhile_map, List.dropWhile_map⟩

namespace Tree

variable {κ α : Type}

def entries : Tree κ α → List (κ × α)
  | leaf key value => [(key, value)]
  | branch _ left right => left.entries ++ right.entries

theorem exists_entry (t : Tree κ α) : ∃ e, e ∈ t.entries := by
  induction t with
  | leaf key value => exact ⟨_, List.mem_singleton_self _⟩
  | branch bit left right ih _ =>
    obtain ⟨e, mem⟩ := ih
    exact ⟨e, List.mem_append_left _ mem⟩

variable (bits : KeyBits κ)

/-- Two keys agree up to a bit that is clear in the first and set in the second. -/
def Splits (n : Nat) (a b : κ) : Prop :=
  (∀ i < n, bits.bit a i = bits.bit b i) ∧ bits.bit a n = false ∧ bits.bit b n = true

/-- Each branch splits its keys at the first bit in which any two of them differ. -/
def Canonical : Tree κ α → Prop
  | leaf _ _ => True
  | branch n left right => left.Canonical ∧ right.Canonical ∧ ∀ e ∈ left.entries, ∀ e' ∈ right.entries, Splits bits n e.1 e'.1

def leafFor (key : κ) : Tree κ α → κ × α
  | leaf k v => (k, v)
  | branch n left right => if bits.bit key n then right.leafFor key else left.leafFor key

def stepsTo (key : κ) : Tree κ α → List (Step (Tree κ α))
  | leaf _ _ => []
  | branch n left right => if bits.bit key n then ⟨n, left⟩ :: right.stepsTo key else ⟨n, right⟩ :: left.stepsTo key

def join (key : κ) (s : Step (Tree κ α)) (child : Tree κ α) : Tree κ α :=
  if bits.bit key s.bit then branch s.bit s.sibling child else branch s.bit child s.sibling

/-- What hangs at the end of a search path, put under its branches. -/
def plug (key : κ) (steps : List (Step (Tree κ α))) (t : Tree κ α) : Tree κ α := steps.foldr (join bits key) t

variable {bits} {key k : κ} {t child : Tree κ α} {s : Step (Tree κ α)} {steps : List (Step (Tree κ α))} {e : κ × α}

variable (key t) in
theorem plug_stepsTo : plug bits key (t.stepsTo bits key) (leaf (t.leafFor bits key).1 (t.leafFor bits key).2) = t := by
  induction t with
  | leaf k v => rfl
  | branch n left right ihl ihr =>
    cases h : bits.bit key n with
    | true =>
      simp only [stepsTo, leafFor, h, if_true, plug, List.foldr_cons, join] at ihr ⊢
      rw [ihr]
    | false =>
      simp only [stepsTo, leafFor, h, Bool.false_eq_true, if_false, plug, List.foldr_cons, join] at ihl ⊢
      rw [ihl]

theorem mem_join : e ∈ (join bits key s child).entries ↔ e ∈ child.entries ∨ e ∈ s.sibling.entries := by
  unfold join
  split
  · rw [entries, List.mem_append, or_comm]
  · rw [entries, List.mem_append]

theorem mem_plug : e ∈ (plug bits key steps t).entries ↔ e ∈ t.entries ∨ ∃ s ∈ steps, e ∈ s.sibling.entries := by
  induction steps with
  | nil => simp [plug]
  | cons s steps ih =>
    change e ∈ (join bits key s (plug bits key steps t)).entries ↔ _
    rw [mem_join, ih]
    grind

theorem canonical_join : (join bits key s child).Canonical bits ↔ child.Canonical bits ∧ s.sibling.Canonical bits ∧
    ∀ e ∈ child.entries, ∀ e' ∈ s.sibling.entries, (∀ i < s.bit, bits.bit e.1 i = bits.bit e'.1 i) ∧
      bits.bit e.1 s.bit = bits.bit key s.bit ∧ bits.bit e'.1 s.bit = !bits.bit key s.bit := by
  unfold join
  cases h : bits.bit key s.bit with
  | true =>
    constructor
    · rintro ⟨sibling, child, splits⟩
      refine ⟨child, sibling, fun e mem e' mem' => ?_⟩
      obtain ⟨below, clear, set⟩ := splits e' mem' e mem
      exact ⟨fun i less => (below i less).symm, set, clear⟩
    · rintro ⟨child, sibling, splits⟩
      refine ⟨sibling, child, fun e mem e' mem' => ?_⟩
      obtain ⟨below, set, clear⟩ := splits e' mem' e mem
      exact ⟨fun i less => (below i less).symm, clear, set⟩
  | false => simp only [Bool.false_eq_true, if_false, Canonical, Bool.not_false, Splits]

section

variable (h : (plug bits key steps t).Canonical bits)

include h

/-- What hangs at the end of a path may be replaced by keys that agree with one of its own up to the path's bits. -/
theorem Canonical.replace {new : Tree κ α} (canonical : new.Canonical bits)
    (agree : ∀ e ∈ new.entries, ∃ x ∈ t.entries, ∀ s ∈ steps, ∀ i ≤ s.bit, bits.bit e.1 i = bits.bit x.1 i) :
    (plug bits key steps new).Canonical bits := by
  induction steps with
  | nil => exact canonical
  | cons s steps ih =>
    obtain ⟨below, sibling, splits⟩ := canonical_join.mp h
    refine canonical_join.mpr ⟨ih below fun e mem => ?_, sibling, fun e mem e' mem' => ?_⟩
    · obtain ⟨x, there, same⟩ := agree e mem
      exact ⟨x, there, fun s listed => same s (List.mem_cons_of_mem _ listed)⟩
    · rcases mem_plug.mp mem with mem | there
      · obtain ⟨x, listed, same⟩ := agree e mem
        have same := same s List.mem_cons_self
        obtain ⟨lower, here, other⟩ := splits x (mem_plug.mpr (.inl listed)) e' mem'
        exact ⟨fun i less => (same i (Nat.le_of_lt less)).trans (lower i less), (same _ (Nat.le_refl _)).trans here, other⟩
      · exact splits e (mem_plug.mpr (.inr there)) e' mem'

theorem Canonical.beside {e' : κ × α} (mem : e ∈ t.entries) (listed : s ∈ steps)
    (mem' : e' ∈ s.sibling.entries) : (∀ i < s.bit, bits.bit e.1 i = bits.bit e'.1 i) ∧
      bits.bit e.1 s.bit = bits.bit key s.bit ∧ bits.bit e'.1 s.bit = !bits.bit key s.bit := by
  induction steps with
  | nil => cases listed
  | cons s' steps ih =>
    obtain ⟨below, -, splits⟩ := canonical_join.mp h
    rcases List.mem_cons.mp listed with rfl | listed
    · exact splits e (mem_plug.mpr (.inl mem)) e' mem'
    · exact ih below listed

theorem Canonical.apart {e' : κ × α} (mem : e ∈ t.entries) (listed : s ∈ steps)
    (mem' : e' ∈ s.sibling.entries) : e.1 ≠ e'.1 := by
  obtain ⟨-, here, other⟩ := h.beside mem listed mem'
  intro same
  rw [← same, here] at other
  exact absurd other (by simp)

theorem Canonical.plugged : t.Canonical bits := by
  induction steps with
  | nil => exact h
  | cons s steps ih => exact ih (canonical_join.mp h).1

end

theorem Canonical.append {more : List (Step (Tree κ α))} (h : (plug bits key (steps ++ more) t).Canonical bits) :
    (plug bits key steps (plug bits key more t)).Canonical bits := by
  rwa [plug, List.foldr_append] at h

theorem Canonical.agree {n : Nat} {v : α} (h : (plug bits key steps (leaf k v)).Canonical bits) (above : ∀ s ∈ steps, n < s.bit)
    (mem : e ∈ (plug bits key steps (leaf k v)).entries) : ∀ i ≤ n, bits.bit e.1 i = bits.bit k i := by
  induction steps with
  | nil =>
    obtain rfl := List.mem_singleton.mp mem
    exact fun _ _ => rfl
  | cons s steps ih =>
    obtain ⟨below, -, splits⟩ := canonical_join.mp h
    have lower := ih below fun s' listed => above s' (List.mem_cons_of_mem _ listed)
    rcases mem_join.mp mem with mem | mem
    · exact lower mem
    · intro i le
      have here := (splits (k, v) (mem_plug.mpr (.inl (List.mem_singleton_self _))) e mem).1
      exact (here i (Nat.lt_of_le_of_lt le (above s List.mem_cons_self))).symm

theorem Canonical.route {v : α} (h : (plug bits key steps (leaf k v)).Canonical bits) (listed : s ∈ steps) :
    bits.bit k s.bit = bits.bit key s.bit := by
  obtain ⟨e', mem'⟩ := s.sibling.exists_entry
  exact (h.beside (List.mem_singleton_self _) listed mem').2.1

theorem Canonical.ascending {v : α} (h : (plug bits key steps (leaf k v)).Canonical bits) :
    steps.Pairwise fun a b => a.bit < b.bit := by
  induction steps with
  | nil => exact List.Pairwise.nil
  | cons s steps ih =>
    obtain ⟨below, -, splits⟩ := canonical_join.mp h
    refine List.pairwise_cons.mpr ⟨fun s' listed => ?_, ih below⟩
    -- two keys under the lower branch differ at its bit, but agree up to the upper one
    by_contra less
    obtain ⟨e', mem'⟩ := s.sibling.exists_entry
    obtain ⟨x, there⟩ := s'.sibling.exists_entry
    obtain ⟨upper, here, -⟩ := splits (k, v) (mem_plug.mpr (.inl (List.mem_singleton_self _))) e' mem'
    obtain ⟨upper', here', -⟩ := splits x (mem_plug.mpr (.inr ⟨s', listed, there⟩)) e' mem'
    have differ : bits.bit x.1 s'.bit ≠ bits.bit k s'.bit := by
      obtain ⟨-, ours, theirs⟩ := below.beside (List.mem_singleton_self _) listed there
      rw [ours, theirs]
      simp
    rcases Nat.lt_or_eq_of_le (Nat.le_of_not_lt less) with lt | eq
    · exact differ ((upper' _ lt).trans (upper _ lt).symm)
    · rw [eq] at differ
      exact differ (here'.trans here.symm)

theorem Canonical.leafFor_of_mem {v : α} (h : t.Canonical bits) (mem : (k, v) ∈ t.entries) : t.leafFor bits k = (k, v) := by
  induction t with
  | leaf k' v' => exact (List.mem_singleton.mp mem).symm
  | branch n left right ihl ihr =>
    obtain ⟨onLeft, onRight, splits⟩ := h
    rcases List.mem_append.mp mem with mem | mem
    · obtain ⟨e', mem'⟩ := right.exists_entry
      rw [leafFor, (splits _ mem e' mem').2.1]
      exact ihl onLeft mem
    · obtain ⟨e', mem'⟩ := left.exists_entry
      rw [leafFor, (splits e' mem' _ mem).2.2]
      exact ihr onRight mem

theorem leafFor_mem : t.leafFor bits key ∈ t.entries := by
  induction t with
  | leaf k v => exact List.mem_singleton_self _
  | branch n left right ihl ihr =>
    rw [leafFor]
    split
    · exact List.mem_append_right _ ihr
    · exact List.mem_append_left _ ihl

theorem Canonical.nodup (h : t.Canonical bits) : (t.entries.map Prod.fst).Nodup := by
  induction t with
  | leaf k v => exact List.nodup_singleton k
  | branch n left right ihl ihr =>
    obtain ⟨onLeft, onRight, splits⟩ := h
    rw [entries, List.map_append]
    refine (ihl onLeft).append (ihr onRight) fun k onL onR => ?_
    obtain ⟨e, mem, rfl⟩ := List.mem_map.mp onL
    obtain ⟨e', mem', same⟩ := List.mem_map.mp onR
    obtain ⟨-, clear, set⟩ := splits e mem e' mem'
    rw [same, clear] at set
    cases set

theorem Canonical.bit_eq {n n' : Nat} {left right left' right' : Tree κ α} (h : (branch n left right).Canonical bits)
    (h' : (branch n' left' right').Canonical bits)
    (same : ∀ e, e ∈ (branch n left right).entries → e ∈ (branch n' left' right').entries) : n' ≤ n := by
  by_contra less
  obtain ⟨a, onLeft⟩ := left.exists_entry
  obtain ⟨b, onRight⟩ := right.exists_entry
  obtain ⟨-, clear, set⟩ := h.2.2 a onLeft b onRight
  -- all keys of the second tree agree below its bit
  have agree : ∀ e ∈ (branch n' left' right').entries, ∀ e' ∈ (branch n' left' right').entries,
      bits.bit e.1 n = bits.bit e'.1 n := by
    obtain ⟨x, onLeft'⟩ := left'.exists_entry
    obtain ⟨y, onRight'⟩ := right'.exists_entry
    have one : ∀ e ∈ (branch n' left' right').entries, bits.bit e.1 n = bits.bit x.1 n := by
      intro e mem
      have lt := Nat.lt_of_not_le less
      rcases List.mem_append.mp mem with mem | mem
      · exact ((h'.2.2 e mem y onRight').1 n lt).trans ((h'.2.2 x onLeft' y onRight').1 n lt).symm
      · exact ((h'.2.2 x onLeft' e mem).1 n lt).symm
    intro e mem e' mem'
    rw [one e mem, one e' mem']
  have := agree a (same a (List.mem_append_left _ onLeft)) b (same b (List.mem_append_right _ onRight))
  rw [clear, set] at this
  cases this

theorem Canonical.unique {t' : Tree κ α} (h : t.Canonical bits) (h' : t'.Canonical bits)
    (same : ∀ e, e ∈ t.entries ↔ e ∈ t'.entries) : t = t' := by
  induction t generalizing t' with
  | leaf k v =>
    cases t' with
    | leaf k' v' =>
      cases List.mem_singleton.mp ((same (k, v)).mp (List.mem_singleton_self _))
      rfl
    | branch n left right =>
      obtain ⟨a, onLeft⟩ := left.exists_entry
      obtain ⟨b, onRight⟩ := right.exists_entry
      obtain ⟨-, clear, set⟩ := h'.2.2 a onLeft b onRight
      rw [List.mem_singleton.mp ((same a).mpr (List.mem_append_left _ onLeft))] at clear
      rw [List.mem_singleton.mp ((same b).mpr (List.mem_append_right _ onRight)), clear] at set
      cases set
  | branch n left right ihl ihr =>
    cases t' with
    | leaf k v =>
      obtain ⟨a, onLeft⟩ := left.exists_entry
      obtain ⟨b, onRight⟩ := right.exists_entry
      obtain ⟨-, clear, set⟩ := h.2.2 a onLeft b onRight
      rw [List.mem_singleton.mp ((same a).mp (List.mem_append_left _ onLeft))] at clear
      rw [List.mem_singleton.mp ((same b).mp (List.mem_append_right _ onRight)), clear] at set
      cases set
    | branch n' left' right' =>
      obtain rfl : n = n' := Nat.le_antisymm (h'.bit_eq h fun e => (same e).mpr) (h.bit_eq h' fun e => (same e).mp)
      have side : ∀ {l r : Tree κ α}, (branch n l r).Canonical bits → ∀ e,
          (e ∈ l.entries ↔ e ∈ (branch n l r).entries ∧ bits.bit e.1 n = false) ∧
          (e ∈ r.entries ↔ e ∈ (branch n l r).entries ∧ bits.bit e.1 n = true) := by
        intro l r canonical e
        obtain ⟨x, onLeft⟩ := l.exists_entry
        obtain ⟨y, onRight⟩ := r.exists_entry
        have clear : e ∈ l.entries → bits.bit e.1 n = false := fun mem => (canonical.2.2 e mem y onRight).2.1
        have set : e ∈ r.entries → bits.bit e.1 n = true := fun mem => (canonical.2.2 x onLeft e mem).2.2
        rw [entries, List.mem_append]
        grind
      rw [ihl h.1 h'.1 fun e => by rw [(side h e).1, (side h' e).1, same],
        ihr h.2.1 h'.2.1 fun e => by rw [(side h e).2, (side h' e).2, same]]

variable (bits) in
/-- A new key hangs from a branch at the first bit in which it differs from the leaf of its path. -/
def insertAt (key : κ) (value : α) (n : Nat) (t : Tree κ α) : Tree κ α :=
  let steps := t.stepsTo bits key
  let old := plug bits key (steps.dropWhile (·.bit < n)) (leaf (t.leafFor bits key).1 (t.leafFor bits key).2)
  plug bits key (steps.takeWhile (·.bit < n)) (join bits key ⟨n, old⟩ (leaf key value))

section Insert

variable {n : Nat} (h : t.Canonical bits)
  (first : (∀ i < n, bits.bit key i = bits.bit (t.leafFor bits key).1 i) ∧ bits.bit key n ≠ bits.bit (t.leafFor bits key).1 n)
include h first

theorem Canonical.bit_ne_first : ∀ s ∈ t.stepsTo bits key, s.bit ≠ n := by
  intro s listed same
  rw [← plug_stepsTo key t] at h
  exact first.2 (same ▸ (h.route listed).symm)

theorem Canonical.above_first : ∀ s ∈ (t.stepsTo bits key).dropWhile (·.bit < n), n < s.bit := by
  intro s listed
  have ascending := h
  rw [← plug_stepsTo key t] at ascending
  have ascending := ascending.ascending.sublist (List.dropWhile_sublist (fun s : Step (Tree κ α) => decide (s.bit < n)))
  have other := h.bit_ne_first first s ((List.dropWhile_sublist _).subset listed)
  cases lower : (t.stepsTo bits key).dropWhile (·.bit < n) with
  | nil =>
    rw [lower] at listed
    cases listed
  | cons s' rest =>
    have start : ¬ s'.bit < n := by
      have := List.dropWhile_get_zero_not (fun s : Step (Tree κ α) => decide (s.bit < n)) (t.stepsTo bits key)
        (by rw [lower]; exact Nat.zero_lt_succ _)
      simpa [lower] using this
    rw [lower] at listed ascending
    rcases List.mem_cons.mp listed with rfl | listed
    · omega
    · have := List.rel_of_pairwise_cons ascending listed
      omega

theorem Canonical.insertAt (value : α) : (t.insertAt bits key value n).Canonical bits ∧
    ∀ e, e ∈ (t.insertAt bits key value n).entries ↔ e = (key, value) ∨ e ∈ t.entries := by
  have above := h.above_first first
  have whole : plug bits key _ _ = t := plug_stepsTo key t
  rw [← List.takeWhile_append_dropWhile (p := (·.bit < n)) (l := t.stepsTo bits key)] at whole
  have split := h
  rw [← whole] at split
  have split := split.append
  have agree := fun e => split.plugged.agree (e := e) above
  constructor
  · refine split.replace (canonical_join.mpr ⟨trivial, split.plugged, fun e mem e' mem' => ?_⟩) fun e mem => ?_
    · obtain rfl := List.mem_singleton.mp mem
      have same := agree e' mem'
      refine ⟨fun i less => (first.1 i less).trans (same i (Nat.le_of_lt less)).symm, rfl, ?_⟩
      rw [same n (Nat.le_refl n), Bool.eq_not]
      exact first.2.symm
    · rcases mem_join.mp mem with mem | mem
      · obtain rfl := List.mem_singleton.mp mem
        refine ⟨_, mem_plug.mpr (.inl (List.mem_singleton_self _)), fun s listed i le => first.1 i ?_⟩
        have below := List.mem_takeWhile_imp listed
        rw [decide_eq_true_eq] at below
        omega
      · exact ⟨e, mem, fun _ _ _ _ => rfl⟩
  · intro e
    rw [Tree.insertAt, mem_plug, mem_join, or_assoc, ← mem_plug (t := plug bits key _ _)]
    rw [show plug bits key _ (plug bits key _ _) = t from ?_]
    · simp [entries]
    · rwa [plug, List.foldr_append] at whole

end Insert

end Tree

open Tree List

variable {κ α : Type} (bits : KeyBits κ)

/-- The tree of a finite map; the empty map has none. -/
structure Denotes (t : Option (Tree κ α)) (m : κ → Option α) : Prop where
  canonical : ∀ t' ∈ t, t'.Canonical bits
  entries : ∀ k v, m k = some v ↔ ∃ t' ∈ t, (k, v) ∈ t'.entries

def update (key : κ) (after : Option α) : Option (Tree κ α) → Option (Tree κ α)
  | none => after.map (leaf key)
  | some t =>
    match bits.diff key (t.leafFor bits key).1, after with
    | none, some v => some (plug bits key (t.stepsTo bits key) (leaf key v))
    | none, none => (t.stepsTo bits key).getLast?.map fun last => plug bits key (t.stepsTo bits key).dropLast last.sibling
    | some n, some v => some (t.insertAt bits key v n)
    | some _, none => some t

variable {bits} {t t' : Option (Tree κ α)} {m : κ → Option α}

theorem Denotes.unique (h : Denotes bits t m) (h' : Denotes bits t' m) : t = t' := by
  have same : ∀ e, (∃ x ∈ t, e ∈ x.entries) ↔ ∃ x ∈ t', e ∈ x.entries := by
    intro e
    rw [← h.entries, ← h'.entries]
  cases t with
  | none =>
    cases t' with
    | none => rfl
    | some t' =>
      obtain ⟨e, mem⟩ := t'.exists_entry
      obtain ⟨x, none, -⟩ := (same e).mpr ⟨t', rfl, mem⟩
      cases none
  | some t =>
    cases t' with
    | none =>
      obtain ⟨e, mem⟩ := t.exists_entry
      obtain ⟨x, none, -⟩ := (same e).mp ⟨t, rfl, mem⟩
      cases none
    | some t' =>
      refine congrArg some ((h.canonical t rfl).unique (h'.canonical t' rfl) fun e => ?_)
      simpa using same e

theorem Denotes.find {t : Tree κ α} (h : Denotes bits (some t) m) (key : κ) :
    m key = if bits.diff key (t.leafFor bits key).1 = none then some (t.leafFor bits key).2 else none := by
  have mem : ((t.leafFor bits key).1, (t.leafFor bits key).2) ∈ t.entries := leafFor_mem
  split
  · rename_i same
    rw [bits.diff_none] at same
    refine (h.entries key _).mpr ⟨t, rfl, ?_⟩
    rwa [← same] at mem
  · rename_i other
    cases found : m key with
    | none => rfl
    | some v =>
      obtain ⟨x, there, listed⟩ := (h.entries key v).mp found
      cases there
      rw [(h.canonical t rfl).leafFor_of_mem listed] at other
      exact absurd (bits.diff_none.mpr rfl) other

theorem mem_entries {t : Tree κ α} (key : κ) (e : κ × α) :
    e ∈ t.entries ↔ e = t.leafFor bits key ∨ ∃ s ∈ t.stepsTo bits key, e ∈ s.sibling.entries := by
  conv_lhs => rw [← @plug_stepsTo _ _ bits key t, mem_plug]
  simp [Tree.entries]

section Change

variable [DecidableEq κ] {t : Tree κ α} {key : κ}

section

variable (h : Denotes bits (some t) m)

include h

omit [DecidableEq κ] in
theorem Denotes.listed (k : κ) (v : α) : m k = some v ↔ (k, v) ∈ t.entries := by
  rw [h.entries]
  simp

omit [DecidableEq κ] in
theorem Denotes.others (found : key = (t.leafFor bits key).1) (k : κ) (v : α) :
    (∃ s ∈ t.stepsTo bits key, (k, v) ∈ s.sibling.entries) ↔ k ≠ key ∧ m k = some v := by
  have plugged := h.canonical t rfl
  rw [← plug_stepsTo key t] at plugged
  rw [h.listed, @mem_entries _ _ bits _ key]
  constructor
  · rintro ⟨s, there, mem⟩
    refine ⟨?_, .inr ⟨s, there, mem⟩⟩
    rw [found]
    exact (plugged.apart (mem_singleton_self _) there mem).symm
  · rintro ⟨ne, leaf | other⟩
    · exact absurd ((congrArg Prod.fst leaf).trans found.symm) ne
    · exact other

theorem Denotes.replaced (found : key = (t.leafFor bits key).1) (v : α) :
    Denotes bits (some (plug bits key (t.stepsTo bits key) (leaf key v))) (Function.update m key (some v)) := by
  have plugged := h.canonical t rfl
  rw [← plug_stepsTo key t] at plugged
  refine ⟨fun t' there => ?_, fun k w => ?_⟩
  · cases there
    refine plugged.replace trivial fun e mem => ⟨_, mem_singleton_self _, fun _ _ _ _ => ?_⟩
    obtain rfl := mem_singleton.mp mem
    exact congrArg (bits.bit · _) found
  · simp only [Option.mem_def, Option.some.injEq, exists_eq_left', mem_plug, h.others found, Tree.entries, mem_singleton,
      Prod.mk.injEq, Function.update_apply]
    split <;> grind

theorem Denotes.erased (found : key = (t.leafFor bits key).1) :
    Denotes bits ((t.stepsTo bits key).getLast?.map fun last => plug bits key (t.stepsTo bits key).dropLast last.sibling)
      (Function.update m key none) := by
  have kept : ∀ k w, Function.update m key none k = some w ↔ ∃ s ∈ t.stepsTo bits key, (k, w) ∈ s.sibling.entries := by
    intro k w
    rw [h.others found, Function.update_apply]
    split <;> grind
  have plugged := h.canonical t rfl
  rw [← plug_stepsTo key t] at plugged
  cases last : (t.stepsTo bits key).getLast? with
  | none =>
    rw [List.getLast?_eq_none_iff] at last
    exact ⟨by simp, by simp [kept, last]⟩
  | some last' =>
    have whole := dropLast_append_getLast? last' last
    rw [← whole] at plugged
    have split := plugged.append
    refine ⟨fun t' there => ?_, fun k w => ?_⟩
    · cases there
      exact split.replace (canonical_join.mp split.plugged).2.1 fun e mem => ⟨e, mem_join.mpr (.inr mem), fun _ _ _ _ => rfl⟩
    · rw [kept]
      conv_lhs => rw [← whole]
      simp [mem_plug, or_and_right, exists_or, or_comm]

theorem Denotes.inserted {n : Nat} (first : bits.diff key (t.leafFor bits key).1 = some n) (v : α) :
    Denotes bits (some (t.insertAt bits key v n)) (Function.update m key (some v)) := by
  obtain ⟨inserted, entries⟩ := (h.canonical t rfl).insertAt (bits.diff_some first) v
  have absent := h.find key
  refine ⟨fun t' there => ?_, fun k w => ?_⟩
  · cases there
    exact inserted
  · simp only [Option.mem_def, Option.some.injEq, exists_eq_left', entries, ← h.listed, Prod.mk.injEq, Function.update_apply]
    split <;> grind

end

end Change

theorem Denotes.update [DecidableEq κ] (h : Denotes bits t m) (key : κ) (after : Option α) :
    Denotes bits (update bits key after t) (Function.update m key after) := by
  cases t with
  | none =>
    have empty : ∀ k, m k = none := by
      intro k
      cases found : m k with
      | none => rfl
      | some v =>
        obtain ⟨_, there, -⟩ := (h.entries k v).mp found
        cases there
    refine ⟨fun t there => ?_, fun k v => ?_⟩
    · obtain ⟨v, -, rfl⟩ := Option.map_eq_some_iff.mp there
      trivial
    · rw [Function.update_apply]
      cases after <;> split <;> simp_all [CritBit.update, Tree.entries, eq_comm]
  | some t =>
    simp only [CritBit.update]
    cases first : bits.diff key (t.leafFor bits key).1 with
    | none =>
      have found := bits.diff_none.mp first
      cases after with
      | some v => exact h.replaced found v
      | none => exact h.erased found
    | some n =>
      cases after with
      | some v => exact h.inserted first v
      | none =>
        have absent := h.find key
        rw [first, if_neg nofun] at absent
        rwa [Function.update_eq_self_iff.mpr absent.symm]

end Uste.CritBit
