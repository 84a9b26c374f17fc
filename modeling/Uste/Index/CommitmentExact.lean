import Uste.Index.Commitment
import Uste.Storage.Session

/-!
What the commitment of a map is worth. A change computed from one search path leads to the
commitment of the changed map, and no proof is accepted for an answer other than the map's own.
-/

namespace Uste.Index

open Types Crypto CritBit Tree List

structure Fits (t : ContentTree) : Prop where
  canonical : t.Canonical keyBits
  keys : ∀ e ∈ t.entries, e.1 ≠ [] ∧ e.1.length ≤ maxKeyBytes
  values : ∀ e ∈ t.entries, e.2.length ≤ maxValueBytes
  count : t.entries.length ≤ maxEntries

structure Limited (m : Contents) : Prop where
  keys : ∀ k ∈ m, k ≠ [] ∧ k.length ≤ maxKeyBytes
  values : ∀ (k v : List UInt8), m[k]? = some v → v.length ≤ maxValueBytes
  count : m.size ≤ maxEntries

variable {m : Contents}

theorem Limited.fits (h : Limited m) {t : ContentTree} (tree : treeOf m = some t) : Fits t := by
  have denotes := denotes_treeOf m
  rw [tree] at denotes
  have listed := denotes.listed
  have canonical := denotes.canonical t rfl
  refine ⟨canonical, fun e mem => h.keys e.1 ?_, fun e mem => h.values e.1 e.2 ((listed _ _).mpr mem), ?_⟩
  · exact mem_of_some ((listed e.1 e.2).mpr mem)
  · have inside : t.entries ⊆ m.toList := fun e mem => Std.ExtTreeMap.mem_toList_iff_getElem?_eq_some.mpr ((listed _ _).mpr mem)
    have le := (List.Nodup.of_map _ canonical.nodup).length_le_of_subset inside
    rw [Std.ExtTreeMap.length_toList] at le
    exact le.trans h.count

theorem limited_empty : Limited ∅ := ⟨by simp, by simp, by simp [maxEntries]⟩

theorem Limited.change {key : List UInt8} {after : Option (List UInt8)} (h : Limited m)
    (valid : key ≠ [] ∧ key.length ≤ maxKeyBytes) (short : ∀ value ∈ after, value.length ≤ maxValueBytes)
    (room : m.size < maxEntries) : Limited (change m key after) := by
  cases after with
  | none =>
    refine ⟨fun k mem => h.keys k (Std.ExtTreeMap.mem_of_mem_erase mem), fun k v found => h.values k v ?_, ?_⟩
    · rw [Index.change, Std.ExtTreeMap.getElem?_erase] at found
      split at found
      · cases found
      · exact found
    · exact Nat.le_trans Std.ExtTreeMap.size_erase_le (Nat.le_of_lt room)
  | some value =>
    refine ⟨fun k mem => ?_, fun k v found => ?_, Nat.le_trans Std.ExtTreeMap.size_insert_le room⟩
    · rw [Index.change, Std.ExtTreeMap.mem_insert, Std.compare_eq_iff_eq] at mem
      rcases mem with rfl | mem
      · exact valid
      · exact h.keys k mem
    · rw [Index.change, Std.ExtTreeMap.getElem?_insert] at found
      split at found
      · cases found
        exact short value rfl
      · exact h.values k v found

section Sizes

variable {t l r : ContentTree} {n : Nat}

theorem Fits.left (h : Fits (.branch n l r)) : Fits l where
  canonical := h.canonical.1
  keys e mem := h.keys e (mem_append_left _ mem)
  values e mem := h.values e (mem_append_left _ mem)
  count := Nat.le_trans (by simp [entries]) h.count

theorem Fits.right (h : Fits (.branch n l r)) : Fits r where
  canonical := h.canonical.2.1
  keys e mem := h.keys e (mem_append_right _ mem)
  values e mem := h.values e (mem_append_right _ mem)
  count := Nat.le_trans (by simp [entries]) h.count

theorem Fits.inside (h : Fits (.branch n l r)) : n < maxBranchBits := by
  obtain ⟨e, onLeft⟩ := l.exists_entry
  obtain ⟨e', onRight⟩ := r.exists_entry
  have set := bit_lt (h.canonical.2.2 e onLeft e' onRight).2.2
  have short := (h.right.keys e' onRight).2
  unfold maxBranchBits
  omega

theorem length_pos (t : ContentTree) : 0 < t.entries.length := by
  obtain ⟨e, mem⟩ := t.exists_entry
  exact length_pos_of_mem mem

def treeBytes (t : ContentTree) : Nat := (t.entries.map fun e => e.1.length + e.2.length).sum

theorem treeBytes_branch : treeBytes (.branch n l r) = treeBytes l + treeBytes r := by
  simp [treeBytes, entries]

theorem Fits.bytes_lt (h : Fits t) : treeBytes t < 2 ^ 64 := by
  have bounded := sum_le_card_nsmul (t.entries.map fun e => e.1.length + e.2.length) (maxKeyBytes + maxValueBytes) (by
    intro n mem
    obtain ⟨e, listed, rfl⟩ := mem_map.mp mem
    exact Nat.add_le_add (h.keys e listed).2 (h.values e listed))
  have few := h.count
  rw [length_map, Nat.nsmul_eq_mul] at bounded
  simp only [maxKeyBytes, maxValueBytes, maxEntries] at bounded few
  unfold treeBytes
  omega

variable [Primitives] {context : CommitmentContext}

variable (context) in
theorem treeCommitment_entries (h : Fits t) : (treeCommitment context t).entries.toNat = t.entries.length := by
  induction t with
  | leaf k v => rfl
  | branch n l r ihl ihr =>
    have few := h.count
    rw [treeCommitment, branchSummary, UInt64.toNat_add, ihl h.left, ihr h.right, entries, length_append]
    rw [entries, length_append] at few
    simp only [maxEntries] at few
    omega

theorem treeCommitment_bytes (h : Fits t) : (treeCommitment context t).logicalBytes.toNat = treeBytes t := by
  induction t with
  | leaf k v =>
    have key := (h.keys _ (mem_singleton_self _)).2
    have value := h.values _ (mem_singleton_self _)
    simp only [maxKeyBytes, maxValueBytes] at key value
    simp only [treeCommitment, leafSummary, committed, treeBytes, entries, map_cons, map_nil, sum_cons, sum_nil,
      UInt64.toNat_add, UInt64.toNat_ofNat']
    omega
  | branch n l r ihl ihr =>
    have small := h.bytes_lt
    rw [treeBytes_branch] at small
    rw [treeCommitment, branchSummary, UInt64.toNat_add, ihl h.left, ihr h.right, treeBytes_branch]
    omega

end Sizes

section Paths

variable [Primitives] {context : CommitmentContext} {key : List UInt8} {t l r child : ContentTree} {n : Nat}
  {s : Step ContentTree} {steps : List (Step ContentTree)}

theorem branchCommitment_ok (h : Fits (.branch n l r)) :
    branchCommitment context n (treeCommitment context l) (treeCommitment context r) =
      .ok (treeCommitment context (.branch n l r)) := by
  have few := h.count
  have small := h.bytes_lt
  have some : ∀ {t : ContentTree}, Fits t → (treeCommitment context t).entries ≠ 0 := by
    intro t fits zero
    have count := treeCommitment_entries context fits
    rw [zero] at count
    exact absurd count (Nat.ne_of_lt (length_pos t))
  rw [entries, length_append] at few
  rw [treeBytes_branch] at small
  unfold branchCommitment
  rw [require_pos _ ⟨h.inside, some h.left, some h.right⟩, ok_bind, treeCommitment_entries context h.left, treeCommitment_entries context h.right,
    require_pos _ ⟨by unfold maxEntries at few; omega, few⟩, ok_bind, treeCommitment_bytes h.left, treeCommitment_bytes h.right,
    require_pos _ small]
  rfl

theorem joinCommitment_ok (h : Fits (join keyBits key s child)) :
    joinCommitment context key (s.map (treeCommitment context)) (treeCommitment context child) =
      .ok (treeCommitment context (join keyBits key s child)) := by
  unfold joinCommitment join at *
  cases side : bit key s.bit with
  | true =>
    rw [show keyBits.bit key s.bit = true from side, if_pos rfl] at h
    rw [show keyBits.bit key s.bit = true from side]
    simp only [Step.map, side, if_true]
    exact branchCommitment_ok h
  | false =>
    rw [show keyBits.bit key s.bit = false from side, if_neg nofun] at h
    rw [show keyBits.bit key s.bit = false from side]
    simp only [Step.map, side, Bool.false_eq_true, if_false]
    exact branchCommitment_ok h

omit [Primitives] in
theorem Fits.joined (h : Fits (join keyBits key s child)) : Fits child ∧ Fits s.sibling := by
  unfold join at h
  split at h
  · exact ⟨h.right, h.left⟩
  · exact ⟨h.left, h.right⟩

omit [Primitives] in
theorem Fits.plugged (h : Fits (plug keyBits key steps t)) : Fits t := by
  induction steps with
  | nil => exact h
  | cons s steps ih => exact ih h.joined.1

theorem fold_cons {c : OrderedCommitment} {step : BranchProof} {rest : List BranchProof} :
    fold context key c (step :: rest) = fold context key c rest >>= joinCommitment context key step :=
  foldrM_cons

variable (context) in
theorem fold_plug (h : Fits (plug keyBits key steps t)) :
    fold context key (treeCommitment context t) (steps.map (Step.map (treeCommitment context))) =
      .ok (treeCommitment context (plug keyBits key steps t)) := by
  induction steps with
  | nil => rfl
  | cons s steps ih =>
    rw [map_cons, fold_cons, ih h.joined.1, ok_bind]
    exact joinCommitment_ok h

end Paths

/-! ### Lookups with the map's own search path -/

variable {a b : List UInt8}

theorem firstDifference_le {d : Nat} (h : firstDifference a b = some d) : d ≤ 9 * a.length := by
  induction a generalizing b d with
  | nil =>
    cases b <;> cases h
    exact Nat.zero_le _
  | cons x xs ih =>
    cases b with
    | nil =>
      cases h
      exact Nat.zero_le _
    | cons y ys =>
      rw [firstDifference] at h
      rw [length_cons]
      split at h
      · obtain ⟨d, first, rfl⟩ := Option.map_eq_some_iff.mp h
        have := ih first
        omega
      · rename_i other
        cases h
        have := (byte_difference other).1
        omega

theorem differing_bit_le {n : Nat} (below : ∀ i < n, bit a i = bit b i) (here : bit a n ≠ bit b n) :
    n ≤ 9 * a.length := by
  cases first : firstDifference a b with
  | none =>
    rw [keyBits.diff_none.mp first] at here
    exact absurd rfl here
  | some d =>
    obtain ⟨agree, differ⟩ := keyBits.diff_some first
    have le : n ≤ d := by
      by_contra less
      exact differ (below d (by omega))
    exact le.trans (firstDifference_le first)

section Lookups

variable [Primitives] {context : CommitmentContext} {key : List UInt8} {t : ContentTree} {leaf : LeafProof}

omit [Primitives] in
theorem validateRoute_ok {previous : Option Nat} {branches : List BranchProof}
    (after : ∀ prior ∈ previous, ∀ step ∈ branches, prior < step.bit) (ascending : branches.Pairwise fun a b => a.bit < b.bit)
    (inside : ∀ step ∈ branches, step.bit ≤ leaf.key.length * 9 ∧ bit key step.bit = bit leaf.key step.bit) :
    validateRoute key leaf previous branches = .ok () := by
  induction branches generalizing previous with
  | nil => rfl
  | cons step rest ih =>
    rw [pairwise_cons] at ascending
    obtain ⟨le, same⟩ := inside step mem_cons_self
    rw [validateRoute, require_pos _ ⟨fun prior there => after prior there step mem_cons_self, le, same⟩, ok_bind]
    refine ih ?_ ascending.2 fun step' listed => inside step' (mem_cons_of_mem _ listed)
    intro prior there step' listed
    cases there
    exact ascending.1 step' listed

variable (context) in
theorem validateRoute_tree (canonical : t.Canonical keyBits) (same : leaf.key = (t.leafFor keyBits key).1) :
    validateRoute key leaf none ((t.stepsTo keyBits key).map (Step.map (treeCommitment context))) = .ok () := by
  rw [← plug_stepsTo key t] at canonical
  refine validateRoute_ok nofun ?_ ?_
  · rw [pairwise_map]
    exact canonical.ascending
  · intro step listed
    obtain ⟨s, there, rfl⟩ := mem_map.mp listed
    obtain ⟨e, mem⟩ := s.sibling.exists_entry
    obtain ⟨below, here, other⟩ := canonical.beside (mem_singleton_self _) there mem
    rw [same, Nat.mul_comm]
    refine ⟨differing_bit_le below fun agree => ?_, here.symm⟩
    exact absurd (here.symm.trans (agree.trans other)) (by simp)

variable {k : List UInt8}

omit [Primitives] in
theorem keyValid_ok (h : k ≠ [] ∧ k.length ≤ maxKeyBytes) : keyValid k = .ok () := by
  rw [keyValid, require_pos _ h.1, ok_bind, require_pos _ h.2]

omit [Primitives] in
theorem toNat_length {value : List UInt8} (h : value.length ≤ maxValueBytes) :
    (UInt64.ofNat value.length).toNat = value.length := by
  unfold maxValueBytes at h
  rw [UInt64.toNat_ofNat']
  omega

variable {v : List UInt8}

theorem leafCommitment_ok (valid : k ≠ [] ∧ k.length ≤ maxKeyBytes) (short : v.length ≤ maxValueBytes) :
    leafCommitment context ⟨k, committed v⟩ = .ok (treeCommitment context (.leaf k v)) := by
  unfold leafCommitment
  rw [keyValid_ok valid, ok_bind, require_pos _ (by rw [committed, toNat_length short]; exact short)]
  rfl

theorem Fits.leaf_ok (h : Fits (.leaf k v)) :
    leafCommitment context ⟨k, committed v⟩ = .ok (treeCommitment context (.leaf k v)) :=
  leafCommitment_ok (h.keys _ (mem_singleton_self _)) (h.values _ (mem_singleton_self _))

omit [Primitives] in
theorem Fits.path (h : Fits t) (key : List UInt8) :
    Fits (plug keyBits key (t.stepsTo keyBits key) (.leaf (t.leafFor keyBits key).1 (t.leafFor keyBits key).2)) := by
  rwa [plug_stepsTo]

variable {m : Contents}

omit [Primitives] in
theorem getElem?_of_none (empty : treeOf m = none) (key : List UInt8) : m[key]? = none := by
  have denotes := denotes_treeOf m
  rw [empty] at denotes
  cases found : m[key]? with
  | none => rfl
  | some v =>
    obtain ⟨_, there, -⟩ := (denotes.entries key v).mp found
    cases there

omit [Primitives] in
theorem getElem?_of_some (tree : treeOf m = some t) (key : List UInt8) :
    m[key]? = if firstDifference key (t.leafFor keyBits key).1 = none then some (t.leafFor keyBits key).2 else none := by
  have denotes := denotes_treeOf m
  rw [tree] at denotes
  exact denotes.find key

theorem committed_of_some (tree : treeOf m = some t) (key : List UInt8) : m[key]?.map committed =
    if (t.leafFor keyBits key).1 = key then some (committed (t.leafFor keyBits key).2) else none := by
  rw [getElem?_of_some tree key]
  simp only [keyBits.diff_none, show firstDifference = keyBits.diff from rfl, eq_comm]
  split <;> rfl

theorem verify_map (h : Limited m) :
    verify context key (commitment context m) (searchProof context m key) = .ok (m[key]?.map committed) := by
  unfold commitment searchProof
  cases tree : treeOf m with
  | none =>
    rw [getElem?_of_none tree]
    exact congrArg (· >>= _) (require_pos _ ⟨rfl, rfl⟩)
  | some t =>
    have fits := (h.fits tree).path key
    have folded := fold_plug context fits
    rw [plug_stepsTo] at folded
    simp only [Option.map_some, Option.getD_some, verify, treeProof]
    rw [validateRoute_tree context (h.fits tree).canonical rfl, ok_bind, fits.plugged.leaf_ok, ok_bind, folded,
      ok_bind, require_pos _ rfl, ok_bind, committed_of_some tree]
    rfl

omit [Primitives] in
variable (key) in
theorem Fits.few_steps (h : Fits t) : (t.stepsTo keyBits key).length ≤ maxBranchBits := by
  have plugged := h.canonical
  rw [← plug_stepsTo key t] at plugged
  have below : ∀ s ∈ t.stepsTo keyBits key, s.bit < maxBranchBits := by
    intro s there
    obtain ⟨e, mem⟩ := s.sibling.exists_entry
    obtain ⟨-, here, other⟩ := plugged.beside (mem_singleton_self _) there mem
    have ours : (t.leafFor keyBits key).1.length ≤ maxKeyBytes := (h.keys _ leafFor_mem).2
    have theirs := (h.keys e ((mem_entries key e).mpr (.inr ⟨s, there, mem⟩))).2
    unfold maxBranchBits
    cases side : keyBits.bit key s.bit with
    | true =>
      have set : s.bit < 9 * (t.leafFor keyBits key).1.length := bit_lt (here.trans side)
      omega
    | false =>
      rw [side] at other
      have set := bit_lt other
      omega
  have distinct : ((t.stepsTo keyBits key).map Step.bit).Nodup :=
    (pairwise_map.mpr plugged.ascending).imp Nat.ne_of_lt
  have within : (t.stepsTo keyBits key).map Step.bit ⊆ List.range maxBranchBits := by
    intro n mem
    obtain ⟨s, there, rfl⟩ := mem_map.mp mem
    exact mem_range.mpr (below s there)
  simpa using distinct.length_le_of_subset within

theorem admit_searchProof {extra : Nat} (h : Limited m) (valid : key ≠ [] ∧ key.length ≤ maxKeyBytes)
    (small : extra ≤ 2 * maxValueBytes) :
    admitProof key (searchProof context m key) ⟨maxBranchBits, maxProofInputBytes⟩ extra = .ok () := by
  unfold admitProof searchProof
  rw [keyValid_ok valid, ok_bind]
  cases tree : treeOf m with
  | none =>
    simp only [Option.map_none, Option.getD_none, length_nil]
    rw [require_pos _ ⟨Nat.le_refl _, Nat.zero_le _, Nat.le_refl _⟩, ok_bind, require_pos]
    unfold maxProofInputBytes maxKeyBytes maxValueBytes at *
    omega
  | some t =>
    have fits := h.fits tree
    have few := fits.few_steps key
    have leafKey := fits.keys (t.leafFor keyBits key) leafFor_mem
    have leafValue := fits.values (t.leafFor keyBits key) leafFor_mem
    simp only [Option.map_some, Option.getD_some, treeProof, length_map]
    rw [require_pos _ ⟨Nat.le_refl _, few, Nat.le_refl _⟩, ok_bind, keyValid_ok leafKey, ok_bind,
      require_pos _ (by rw [committed, toNat_length leafValue]; exact leafValue), ok_bind, require_pos]
    unfold maxProofInputBytes maxBranchBits maxKeyBytes maxValueBytes at *
    omega

end Lookups

/-! ### Changes -/

section Changes

variable [Primitives] {context : CommitmentContext} {key : List UInt8} {t : ContentTree} {n : Nat} {v : List UInt8}

theorem applyInsertion_tree (h : t.Canonical keyBits) (first : firstDifference key (t.leafFor keyBits key).1 = some n)
    (fits : Fits (t.insertAt keyBits key v n)) :
    applyInsertion context key (treeCommitment context (.leaf key v)) ⟨(t.leafFor keyBits key).1, committed (t.leafFor keyBits key).2⟩
      ((t.stepsTo keyBits key).map (Step.map (treeCommitment context))) = .ok (treeCommitment context (t.insertAt keyBits key v n)) := by
  have lower := fits.plugged.joined.2
  have above : ∀ step ∈ (((t.stepsTo keyBits key).dropWhile (·.bit < n)).map (Step.map (treeCommitment context))).head?,
      step.bit ≠ n := by
    intro step there
    obtain ⟨s, listed, rfl⟩ := mem_map.mp (mem_of_mem_head? there)
    exact h.bit_ne_first (keyBits.diff_some first) s ((dropWhile_sublist _).subset listed)
  unfold applyInsertion
  rw [first, show orError CommitmentError.invalidProof (some n) = .ok n from rfl, ok_bind]
  simp only [Step.cut_map]
  rw [require_pos _ above, ok_bind, lower.plugged.leaf_ok, ok_bind, fold_plug context lower, ok_bind,
    show joinCommitment context key ⟨n, _⟩ _ = _ from joinCommitment_ok fits.plugged, ok_bind]
  exact fold_plug context fits

theorem commitment_change (m : Contents) (key : List UInt8) (after : Option (List UInt8)) :
    commitment context (change m key after) =
      ((update keyBits key after (treeOf m)).map (treeCommitment context)).getD (emptyCommitment context) := by
  rw [commitment, treeOf_change]

theorem applyChange_map {m : Contents} {after : Option (List UInt8)} (h : Limited m) (h' : Limited (change m key after))
    (valid : key ≠ [] ∧ key.length ≤ maxKeyBytes) (short : ∀ value ∈ after, value.length ≤ maxValueBytes) :
    applyChange context key (commitment context m) (m[key]?.map committed) after (searchProof context m key) =
      .ok (commitment context (change m key after)) := by
  have fits : ∀ t ∈ update keyBits key after (treeOf m), Fits t := by
    intro t there
    rw [← treeOf_change] at there
    exact h'.fits there
  rw [commitment_change]
  unfold commitment searchProof
  cases tree : treeOf m with
  | none =>
    rw [getElem?_of_none tree]
    cases after with
    | none => rfl
    | some value =>
      simp only [applyChange, leafCommitment_ok valid (short value rfl)]
      rfl
  | some t =>
    have canonical := (h.fits tree).canonical
    rw [tree] at fits
    rw [getElem?_of_some tree]
    simp only [Option.map_some, Option.getD_some, treeProof, update, show keyBits.diff = firstDifference from rfl] at fits ⊢
    cases first : firstDifference key (t.leafFor keyBits key).1 with
    | none =>
      simp only [first, if_true, Option.map_some] at fits ⊢
      cases after with
      | none =>
        simp only [applyChange, reduceCtorEq, if_false, List.getLast?_map]
        cases last : (t.stepsTo keyBits key).getLast? with
        | none => rfl
        | some last' =>
          simp only [last, Option.map_some, Option.getD_some, Option.mem_def, Option.some.injEq, forall_eq'] at fits ⊢
          rw [← map_dropLast]
          exact fold_plug context fits
      | some value =>
        simp only [applyChange, leafCommitment_ok valid (short value rfl), reduceCtorEq, if_false, ok_bind, Option.map_some,
          Option.getD_some]
        exact fold_plug context (fits _ rfl)
    | some n =>
      simp only [first, reduceCtorEq, if_false, Option.map_none] at fits ⊢
      cases after with
      | none => rfl
      | some value =>
        simp only [applyChange, leafCommitment_ok valid (short value rfl), if_true, ok_bind, Option.map_some, Option.getD_some]
        exact applyInsertion_tree canonical first (fits _ rfl)

end Changes

/-! ### Deltas -/

structure Delta where
  key : List UInt8
  before : Option (List UInt8)
  after : Option (List UInt8)

def Delta.valueBytes (d : Delta) : Nat := (d.before.map List.length).getD 0 + (d.after.map List.length).getD 0

def finalContents (m : Contents) (deltas : List Delta) : Contents := deltas.foldl (fun m d => change m d.key d.after) m

section Deltas

variable [Primitives] (context : CommitmentContext) (limits : CommitmentLimits)

def runDeltas : Contents → OrderedCommitment → List Delta → Except CommitmentError OrderedCommitment
  | _, c, [] => pure c
  | m, c, d :: rest => do
    let next ← applyDelta context d.key c d.before d.after (searchProof context m d.key) limits
    runDeltas (change m d.key d.after) next rest

/-- A delta whose key and values are admissible, for limits that admit the map's search path of the key. -/
structure Delta.Admissible (m : Contents) (d : Delta) : Prop where
  key : d.key ≠ [] ∧ d.key.length ≤ maxKeyBytes
  values : (∀ value ∈ d.before, value.length ≤ maxValueBytes) ∧ ∀ value ∈ d.after, value.length ≤ maxValueBytes
  admitted : admitProof d.key (searchProof context m d.key) limits d.valueBytes = .ok ()

/-- Deltas that are admissible where they stand and say what was there. -/
def Proper : Contents → List Delta → Prop
  | _, [] => True
  | m, d :: rest => d.Admissible context limits m ∧ d.before = m[d.key]? ∧ Limited (change m d.key d.after) ∧
      Proper (change m d.key d.after) rest

variable {context limits} {m : Contents} {d : Delta} {deltas : List Delta}

theorem applyDelta_map (h : Limited m) (ok : d.Admissible context limits m) :
    applyDelta context d.key (commitment context m) d.before d.after (searchProof context m d.key) limits =
      (do
        require (m[d.key]?.map committed = d.before.map committed) .conflict
        applyChange context d.key (commitment context m) (m[d.key]?.map committed) d.after (searchProof context m d.key)) := by
  unfold applyDelta
  rw [require_pos _ ok.values, ok_bind, ← Delta.valueBytes, ok.admitted, ok_bind, verify_map h, ok_bind]

theorem applyDelta_ok (h : Limited m) (h' : Limited (change m d.key d.after)) (ok : d.Admissible context limits m)
    (same : d.before = m[d.key]?) :
    applyDelta context d.key (commitment context m) d.before d.after (searchProof context m d.key) limits =
      .ok (commitment context (change m d.key d.after)) := by
  rw [applyDelta_map h ok, same, require_pos _ rfl, ok_bind, applyChange_map h h' ok.key ok.values.2]

theorem applyDelta_conflict (h : Limited m) (ok : d.Admissible context limits m) (other : d.before ≠ m[d.key]?)
    (distinct : ∀ a ∈ d.before, ∀ b ∈ m[d.key]?, committed a = committed b → a = b) :
    applyDelta context d.key (commitment context m) d.before d.after (searchProof context m d.key) limits = .error .conflict := by
  have differ : m[d.key]?.map committed ≠ d.before.map committed := by
    intro same
    cases before : d.before <;> cases found : m[d.key]? <;> simp_all
  rw [applyDelta_map h ok, require, if_neg differ]
  rfl

theorem runDeltas_ok (h : Limited m) (proper : Proper context limits m deltas) :
    runDeltas context limits m (commitment context m) deltas = .ok (commitment context (finalContents m deltas)) := by
  induction deltas generalizing m with
  | nil => rfl
  | cons d deltas ih =>
    obtain ⟨ok, same, limited, rest⟩ := proper
    rw [runDeltas, applyDelta_ok h limited ok same, ok_bind]
    exact ih limited rest

end Deltas

section Sample

attribute [local instance] Storage.plainPrimitives

def sampleContext : CommitmentContext := ⟨⟨default, default⟩, Octets.zero 32, 1, by decide⟩

def sampleLimits : CommitmentLimits := ⟨maxBranchBits, maxProofInputBytes⟩

def sampleInsert (n : UInt8) : Delta := ⟨[n], none, some [n]⟩

theorem limited_insert {m : Contents} (n : UInt8) (h : Limited m) (room : m.size < maxEntries) :
    Limited (change m [n] (some [n])) :=
  h.change ⟨nofun, (by decide : 1 ≤ maxKeyBytes)⟩ (by simp [maxValueBytes]) room

theorem proper_sample {a b : UInt8} (other : a ≠ b) : Proper sampleContext sampleLimits ∅ [sampleInsert a, sampleInsert b] := by
  have admissible : ∀ {m : Contents} (n : UInt8), Limited m → (sampleInsert n).Admissible sampleContext sampleLimits m := by
    intro m n h
    have valid : [n] ≠ [] ∧ [n].length ≤ maxKeyBytes := ⟨nofun, (by decide : 1 ≤ maxKeyBytes)⟩
    exact ⟨valid, ⟨nofun, by simp [sampleInsert, maxValueBytes]⟩, admit_searchProof h valid (by decide : 1 ≤ 2 * maxValueBytes)⟩
  have one := limited_insert a limited_empty (by decide)
  refine ⟨admissible a limited_empty, by simp [sampleInsert], one, admissible b one, ?_, limited_insert b one ?_, trivial⟩
  · simp [sampleInsert, change, other]
  · exact Nat.lt_of_le_of_lt Std.ExtTreeMap.size_insert_le (by decide)

end Sample

/-! ### Arbitrary proofs -/

section Soundness

variable [Primitives] (context : CommitmentContext)

def treeHashes : ContentTree → List (List UInt8)
  | .leaf key value => [leafBytes context ⟨key, committed value⟩]
  | .branch n left right =>
    branchBytes context n (treeCommitment context left) (treeCommitment context right) :: (treeHashes left ++ treeHashes right)

variable (key : List UInt8)

def joinBytes (step : BranchProof) (child : OrderedCommitment) : List UInt8 :=
  if bit key step.bit then branchBytes context step.bit step.sibling child else branchBytes context step.bit child step.sibling

/-- What is hashed to fold a path; where the fold fails nothing is compared. -/
def pathHashes (child : OrderedCommitment) : List BranchProof → List (List UInt8)
  | [] => []
  | step :: rest => ((fold context key child rest).toOption.map (joinBytes context key step)).toList ++ pathHashes child rest

def proofHashes (proof : LookupProof) : List (List UInt8) :=
  (proof.leaf.map fun leaf => leafBytes context leaf :: pathHashes context key (leafSummary context leaf) proof.branches).getD []

def mapHashes (m : Contents) : List (List UInt8) := ((treeOf m).map (treeHashes context)).getD []

/-- The hash tells two lists of encodings apart. -/
def Distinct (known offered : List (List UInt8)) : Prop := ∀ x ∈ known, ∀ y ∈ offered, sha256 x = sha256 y → x = y

variable {context key} {t l r : ContentTree} {n : Nat} {leaf leaf' : LeafProof} {path : List BranchProof}

section

omit [Primitives]

theorem leafBytes_inj (same : leafBytes context leaf = leafBytes context leaf') : leaf = leaf' := by
  obtain ⟨same, digest⟩ := append_inj' same (by simp)
  obtain ⟨same, length⟩ := append_inj' same (by simp)
  obtain ⟨-, keys⟩ := append_inj same (by simp)
  obtain ⟨k', ⟨length'', digest''⟩⟩ := leaf'
  cases keys
  cases Octets.ext digest
  cases UInt64.toNat_inj.mp (bigEndian_inj (UInt64.toNat_lt _) (UInt64.toNat_lt _) length)
  rfl

variable {a b : OrderedCommitment}

theorem feed_inj (same : a.feed = b.feed) : a = b := by
  obtain ⟨same, digest⟩ := append_inj' same (by simp)
  obtain ⟨entries, bytes⟩ := append_inj' same (by simp)
  obtain ⟨entries'', bytes'', digest''⟩ := b
  cases Octets.ext digest
  cases UInt64.toNat_inj.mp (bigEndian_inj (UInt64.toNat_lt _) (UInt64.toNat_lt _) entries)
  cases UInt64.toNat_inj.mp (bigEndian_inj (UInt64.toNat_lt _) (UInt64.toNat_lt _) bytes)
  rfl

theorem branchBytes_inj {n' : Nat} {a' b' : OrderedCommitment} (less : n < maxBranchBits) (less' : n' < maxBranchBits)
    (same : branchBytes context n a b = branchBytes context n' a' b') : n = n' ∧ a = a' ∧ b = b' := by
  obtain ⟨same, right⟩ := append_inj' same (by simp [OrderedCommitment.feed])
  obtain ⟨same, left⟩ := append_inj' same (by simp [OrderedCommitment.feed])
  obtain ⟨-, bits⟩ := append_inj' same (by simp)
  unfold maxBranchBits maxKeyBytes at less less'
  exact ⟨bigEndian_inj (by omega) (by omega) bits, feed_inj left, feed_inj right⟩

theorem leafBytes_ne_branchBytes : leafBytes context leaf ≠ branchBytes context n a b := by
  simp [leafBytes, branchBytes, CommitmentContext.header, append_assoc]

end

variable {c : OrderedCommitment}

theorem branchCommitment_eq {a b : OrderedCommitment} (h : branchCommitment context n a b = .ok c) :
    n < maxBranchBits ∧ c = branchSummary context n a b ∧ c.entries ≠ 0 := by
  obtain ⟨_, inside, _, few, _, -, h⟩ := bind_ok₃ h
  cases h
  rw [require_ok] at inside few
  refine ⟨inside.1, rfl, fun zero => inside.2.1 (UInt64.toNat_inj.mp ?_)⟩
  have sum := congrArg UInt64.toNat zero
  rw [branchSummary, UInt64.toNat_add, Nat.mod_eq_of_lt few.1] at sum
  exact Nat.eq_zero_of_add_eq_zero_right sum

theorem joinCommitment_eq {step : BranchProof} {child : OrderedCommitment} (h : joinCommitment context key step child = .ok c) :
    step.bit < maxBranchBits ∧ c.digest = sha256 (joinBytes context key step child) ∧ c.entries ≠ 0 := by
  unfold joinCommitment at h
  unfold joinBytes
  split at h
  · obtain ⟨inside, rfl, some⟩ := branchCommitment_eq h
    rw [if_pos ‹_›]
    exact ⟨inside, rfl, some⟩
  · obtain ⟨inside, rfl, some⟩ := branchCommitment_eq h
    rw [if_neg ‹_›]
    exact ⟨inside, rfl, some⟩

theorem leafCommitment_eq (h : leafCommitment context leaf = .ok c) : c = leafSummary context leaf := by
  obtain ⟨_, -, _, -, h⟩ := bind_ok₂ h
  exact (Except.ok.inj h).symm

theorem fold_entries (h : fold context key (leafSummary context leaf) path = .ok c) : c.entries ≠ 0 := by
  cases path with
  | nil =>
    cases h
    exact (by decide : (1 : UInt64) ≠ 0)
  | cons step rest =>
    obtain ⟨child, -, h⟩ := bind_ok (fold_cons ▸ h)
    exact (joinCommitment_eq h).2.2

theorem path_of_commitment (fits : Fits t)
    (folded : fold context key (leafSummary context leaf) path = .ok (treeCommitment context t))
    (distinct : Distinct (treeHashes context t) (leafBytes context leaf :: pathHashes context key (leafSummary context leaf) path)) :
    leaf = ⟨(t.leafFor keyBits key).1, committed (t.leafFor keyBits key).2⟩ := by
  induction path generalizing t with
  | nil =>
    have digest : sha256 (leafBytes context leaf) = (treeCommitment context t).digest :=
      congrArg OrderedCommitment.digest (Except.ok.inj folded)
    cases t with
    | leaf k v => exact (leafBytes_inj (distinct _ mem_cons_self _ mem_cons_self digest.symm)).symm
    | branch n l r => exact absurd (distinct _ mem_cons_self _ mem_cons_self digest.symm).symm leafBytes_ne_branchBytes
  | cons step rest ih =>
    obtain ⟨child, below, joined⟩ := bind_ok (fold_cons ▸ folded)
    obtain ⟨less, digest, -⟩ := joinCommitment_eq joined
    have hashed : joinBytes context key step child ∈ pathHashes context key (leafSummary context leaf) (step :: rest) := by
      rw [pathHashes, below]
      exact mem_cons_self
    have lower : ∀ y ∈ leafBytes context leaf :: pathHashes context key (leafSummary context leaf) rest,
        y ∈ leafBytes context leaf :: pathHashes context key (leafSummary context leaf) (step :: rest) := by
      intro y mem
      rcases mem_cons.mp mem with rfl | mem
      · exact mem_cons_self
      · exact mem_cons_of_mem _ (mem_append_right _ mem)
    cases t with
    | leaf k v =>
      have same := distinct (leafBytes context ⟨k, committed v⟩) mem_cons_self _ (mem_cons_of_mem _ hashed) digest
      unfold joinBytes at same
      split at same
      · exact absurd same leafBytes_ne_branchBytes
      · exact absurd same leafBytes_ne_branchBytes
    | branch n l r =>
      have same := distinct (branchBytes context n (treeCommitment context l) (treeCommitment context r)) mem_cons_self _
        (mem_cons_of_mem _ hashed) digest
      unfold joinBytes at same
      rw [leafFor, show keyBits.bit = bit from rfl]
      split at same
      · rename_i side
        obtain ⟨rfl, -, rfl⟩ := branchBytes_inj fits.inside less same
        rw [if_pos side]
        refine ih fits.right below fun x mem y offered => distinct x (mem_cons_of_mem _ ?_) y (lower y offered)
        exact mem_append_right _ mem
      · rename_i side
        obtain ⟨rfl, rfl, -⟩ := branchBytes_inj fits.inside less same
        rw [if_neg side]
        refine ih fits.left below fun x mem y offered => distinct x (mem_cons_of_mem _ ?_) y (lower y offered)
        exact mem_append_left _ mem

theorem verify_sound {m : Contents} {proof : LookupProof} {answer : Option ValueCommitment} (h : Limited m)
    (accepted : verify context key (commitment context m) proof = .ok answer)
    (distinct : Distinct (mapHashes context m) (proofHashes context key proof)) : answer = m[key]?.map committed := by
  obtain ⟨leaf, branches⟩ := proof
  unfold commitment at accepted
  unfold mapHashes at distinct
  cases leaf with
  | none =>
    obtain ⟨_, same, accepted⟩ := bind_ok accepted
    cases accepted
    cases tree : treeOf m with
    | none => rw [getElem?_of_none tree]; rfl
    | some t =>
      have count := treeCommitment_entries context (h.fits tree)
      rw [tree] at same
      rw [show treeCommitment context t = _ from (require_ok.mp same).2] at count
      exact absurd count (Nat.ne_of_lt (length_pos t))
  | some leaf =>
    obtain ⟨_, -, summary, valid, folded, folds, _, same, accepted⟩ := bind_ok₄ accepted
    rw [leafCommitment_eq valid] at folds
    obtain rfl := Except.ok.inj accepted
    cases tree : treeOf m with
    | none =>
      rw [tree] at same
      exact absurd (congrArg OrderedCommitment.entries (require_ok.mp same)) (fold_entries folds)
    | some t =>
      rw [tree] at same distinct
      obtain rfl := require_ok.mp same
      rw [committed_of_some tree]
      cases path_of_commitment (h.fits tree) folds distinct
      rfl

/-- Whatever proof is accepted against the commitment of a map, the answer is the map's; and the map's own search path is
accepted. The hash must only tell the encodings hashed for the map from those hashed for the proof. -/
theorem lookups_exact (context : CommitmentContext) (m : Contents) (key : List UInt8) (h : Limited m) :
    (∀ (proof : LookupProof) (limits : CommitmentLimits) (answer : Option ValueCommitment),
      Distinct (mapHashes context m) (proofHashes context key proof) →
      verifyLookup context key (commitment context m) proof limits = .ok answer → answer = m[key]?.map committed) ∧
    (∀ limits : CommitmentLimits, admitProof key (searchProof context m key) limits 0 = .ok () →
      verifyLookup context key (commitment context m) (searchProof context m key) limits = .ok (m[key]?.map committed)) ∧
    (key ≠ [] ∧ key.length ≤ maxKeyBytes →
      admitProof key (searchProof context m key) ⟨maxBranchBits, maxProofInputBytes⟩ 0 = .ok ()) := by
  refine ⟨fun proof limits answer distinct accepted => ?_, fun limits admitted => ?_, fun valid => ?_⟩
  · obtain ⟨_, -, accepted⟩ := bind_ok accepted
    exact verify_sound h accepted distinct
  · unfold verifyLookup
    rw [admitted, ok_bind, verify_map h]
  · exact admit_searchProof h valid (Nat.zero_le _)

end Soundness

section Sample

attribute [local instance] Storage.plainPrimitives

def sampleMap : Contents := change ∅ [1] (some [1])

/-- A map of one entry answers for its key with its own search path, whose encodings are the map's. -/
theorem lookups_exact_sample :
    Distinct (mapHashes sampleContext sampleMap) (proofHashes sampleContext [1] (searchProof sampleContext sampleMap [1])) ∧
    verifyLookup sampleContext [1] (commitment sampleContext sampleMap) (searchProof sampleContext sampleMap [1]) sampleLimits =
      .ok (sampleMap[[(1 : UInt8)]]?.map committed) := by
  constructor
  · have tree : treeOf sampleMap = some (.leaf [1] [1]) := by
      rfl
    unfold mapHashes searchProof
    intro x mem y mem' _
    rw [mem_singleton.mp mem, mem_singleton.mp mem']
    rfl
  · obtain ⟨-, accepted, admitted⟩ := lookups_exact sampleContext sampleMap [1] (limited_insert 1 limited_empty (by decide))
    exact accepted _ (admitted ⟨nofun, by decide⟩)

end Sample

end Uste.Index
