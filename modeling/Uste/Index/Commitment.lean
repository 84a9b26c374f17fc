import Uste.Crypto.Envelope
import Uste.Foundation.CritBit

/-!
Ordered content commitments (`ordered_commitment.rs`). A map is committed to by the hash of its
crit-bit tree; a lookup or a change is checked against the commitment with the hashes on one
search path. Keys are read with nine bits a byte, the first of which says that the byte is there.
-/

namespace Uste.Index

open Types Crypto CritBit

def maxKeyBytes : Nat := 4096
def maxValueBytes : Nat := 16 * 1024 * 1024
def maxEntries : Nat := 1000000000
def maxBranchBits : Nat := 9 * maxKeyBytes
def maxProofInputBytes : Nat := 64 * 1024 * 1024
def nodeDomain : List UInt8 := ascii "USTE-ORDERED-COMMITMENT-V1" ++ [0]
def valueDomain : List UInt8 := ascii "USTE-ORDERED-COMMITMENT-VALUE-V1" ++ [0]

inductive CommitmentError where
  | invalidProof
  | conflict
  | resourceLimit
  deriving DecidableEq

structure CommitmentContext where
  scope : NamespaceRef
  profile : Octets 32
  family : UInt8
  nonzero : family ≠ 0

def CommitmentContext.header (context : CommitmentContext) (kind : UInt8) : List UInt8 :=
  nodeDomain ++ context.scope.key ++ context.profile.bytes ++ [context.family, kind]

structure OrderedCommitment where
  entries : UInt64
  logicalBytes : UInt64
  digest : Octets 32
  deriving DecidableEq

def OrderedCommitment.feed (c : OrderedCommitment) : List UInt8 :=
  bigEndian 8 c.entries.toNat ++ bigEndian 8 c.logicalBytes.toNat ++ c.digest.bytes

structure ValueCommitment where
  length : UInt64
  digest : Octets 32
  deriving DecidableEq

structure LeafProof where
  key : List UInt8
  value : ValueCommitment

abbrev BranchProof := Step OrderedCommitment

structure LookupProof where
  leaf : Option LeafProof
  branches : List BranchProof

structure CommitmentLimits where
  maximumBranches : Nat
  maximumInputBytes : Nat

def keyValid (key : List UInt8) : Except CommitmentError Unit := do
  require (key ≠ []) .invalidProof
  require (key.length ≤ maxKeyBytes) .resourceLimit

section Hashes

variable [Primitives] (context : CommitmentContext)

def committed (value : List UInt8) : ValueCommitment :=
  ⟨UInt64.ofNat value.length, sha256 (valueDomain ++ bigEndian 8 value.length ++ value)⟩

def valueCommitment (value : List UInt8) : Except CommitmentError ValueCommitment := do
  require (value.length ≤ maxValueBytes) .resourceLimit
  pure (committed value)

def emptyCommitment : OrderedCommitment := ⟨0, 0, sha256 (context.header 0)⟩

def leafBytes (leaf : LeafProof) : List UInt8 :=
  context.header 1 ++ bigEndian 4 leaf.key.length ++ leaf.key ++ bigEndian 8 leaf.value.length.toNat ++ leaf.value.digest.bytes

def leafSummary (leaf : LeafProof) : OrderedCommitment :=
  ⟨1, UInt64.ofNat leaf.key.length + leaf.value.length, sha256 (leafBytes context leaf)⟩

def leafCommitment (leaf : LeafProof) : Except CommitmentError OrderedCommitment := do
  keyValid leaf.key
  require (leaf.value.length.toNat ≤ maxValueBytes) .resourceLimit
  pure (leafSummary context leaf)

def branchBytes (n : Nat) (left right : OrderedCommitment) : List UInt8 :=
  context.header 2 ++ bigEndian 4 n ++ left.feed ++ right.feed

def branchSummary (n : Nat) (left right : OrderedCommitment) : OrderedCommitment :=
  ⟨left.entries + right.entries, left.logicalBytes + right.logicalBytes, sha256 (branchBytes context n left right)⟩

def branchCommitment (n : Nat) (left right : OrderedCommitment) : Except CommitmentError OrderedCommitment := do
  require (n < maxBranchBits ∧ left.entries ≠ 0 ∧ right.entries ≠ 0) .invalidProof
  require (left.entries.toNat + right.entries.toNat < 2 ^ 64 ∧ left.entries.toNat + right.entries.toNat ≤ maxEntries)
    .resourceLimit
  require (left.logicalBytes.toNat + right.logicalBytes.toNat < 2 ^ 64) .resourceLimit
  pure (branchSummary context n left right)

end Hashes

/-! ### Keys as bit strings -/

def bit (key : List UInt8) (position : Nat) : Bool :=
  match key[position / 9]? with
  | none => false
  | some value => position % 9 = 0 || value.toNat.testBit (8 - position % 9)

def leadingZeros (b : UInt8) : Nat := if b = 0 then 8 else 7 - b.toNat.log2

def firstDifference : List UInt8 → List UInt8 → Option Nat
  | [], [] => none
  | x :: xs, y :: ys => if x = y then (firstDifference xs ys).map (· + 9) else some (1 + leadingZeros (x ^^^ y))
  | _, _ => some 0

variable {x : UInt8} {key : List UInt8} {n : Nat}

theorem bit_cons_low (low : n < 9) : bit (x :: key) n = (n = 0 || x.toNat.testBit (8 - n)) := by
  simp [bit, Nat.div_eq_of_lt low, Nat.mod_eq_of_lt low]

theorem bit_cons_high : bit (x :: key) (n + 9) = bit key n := by
  simp [bit, Nat.add_div_right]

theorem leadingZeros_spec : ∀ b : Fin 256, b ≠ 0 → 7 - b.val.log2 < 8 ∧ b.val.testBit (7 - (7 - b.val.log2)) = true ∧
    ∀ i < 7 - b.val.log2, b.val.testBit (7 - i) = false := by
  decide +kernel

theorem byte_difference {y : UInt8} (other : x ≠ y) : leadingZeros (x ^^^ y) < 8 ∧
    x.toNat.testBit (7 - leadingZeros (x ^^^ y)) ≠ y.toNat.testBit (7 - leadingZeros (x ^^^ y)) ∧
    ∀ i < leadingZeros (x ^^^ y), x.toNat.testBit (7 - i) = y.toNat.testBit (7 - i) := by
  have nonzero : x ^^^ y ≠ 0 := by
    intro same
    exact other (UInt8.xor_eq_zero_iff.mp same)
  have value : (x ^^^ y).toNat ≠ 0 := fun zero => nonzero (UInt8.toNat_inj.mp zero)
  obtain ⟨small, set, clear⟩ := leadingZeros_spec ⟨(x ^^^ y).toNat, UInt8.toNat_lt _⟩ (by simpa [Fin.ext_iff] using value)
  unfold leadingZeros
  rw [if_neg nonzero]
  refine ⟨small, ?_, fun i less => ?_⟩
  · simpa using set
  · simpa using clear i less

def keyBits : KeyBits (List UInt8) where
  bit := bit
  diff := firstDifference
  diff_none {a b} := by
    induction a generalizing b with
    | nil => cases b <;> simp [firstDifference]
    | cons x xs ih =>
      cases b with
      | nil => simp [firstDifference]
      | cons y ys =>
        by_cases same : x = y <;> simp [firstDifference, same, ih]
  diff_some {a b d} h := by
    induction a generalizing b d with
    | nil =>
      cases b with
      | nil => cases h
      | cons y ys =>
        cases h
        exact ⟨nofun, by simp [bit]⟩
    | cons x xs ih =>
      cases b with
      | nil =>
        cases h
        exact ⟨nofun, by simp [bit]⟩
      | cons y ys =>
        by_cases same : x = y
        · subst same
          rw [firstDifference, if_pos rfl] at h
          obtain ⟨d, first, rfl⟩ := Option.map_eq_some_iff.mp h
          obtain ⟨below, here⟩ := ih first
          refine ⟨fun i less => ?_, by rwa [bit_cons_high, bit_cons_high]⟩
          by_cases low : i < 9
          · rw [bit_cons_low low, bit_cons_low low]
          · obtain ⟨j, rfl⟩ := Nat.exists_eq_add_of_le' (Nat.le_of_not_lt low)
            rw [bit_cons_high, bit_cons_high]
            exact below j (by omega)
        · rw [firstDifference, if_neg same] at h
          cases h
          obtain ⟨small, here, below⟩ := byte_difference same
          refine ⟨fun i less => ?_, ?_⟩
          · rw [bit_cons_low (by omega), bit_cons_low (by omega)]
            cases i with
            | zero => rfl
            | succ i => simpa [show 8 - (i + 1) = 7 - i by omega] using below i (by omega)
          · rw [bit_cons_low (by omega), bit_cons_low (by omega)]
            simpa [show 8 - (1 + leadingZeros (x ^^^ y)) = 7 - leadingZeros (x ^^^ y) by omega] using here

theorem bit_lt (set : bit key n = true) : n < 9 * key.length := by
  unfold bit at set
  split at set
  · cases set
  · rename_i value found
    obtain ⟨less, -⟩ := List.getElem?_eq_some_iff.mp found
    omega

/-! ### Proofs along a search path -/

section Proofs

variable [Primitives] (context : CommitmentContext) (key : List UInt8)

def joinCommitment (step : BranchProof) (child : OrderedCommitment) : Except CommitmentError OrderedCommitment :=
  if bit key step.bit then branchCommitment context step.bit step.sibling child
  else branchCommitment context step.bit child step.sibling

def fold (child : OrderedCommitment) (path : List BranchProof) : Except CommitmentError OrderedCommitment :=
  path.foldrM (joinCommitment context key) child

/-- The sum of the sizes cannot overflow: the number of branches and all lengths are bounded by then. -/
def admitProof (proof : LookupProof) (limits : CommitmentLimits) (extraBytes : Nat) : Except CommitmentError Unit := do
  keyValid key
  require (limits.maximumBranches ≤ maxBranchBits ∧ proof.branches.length ≤ limits.maximumBranches ∧
    limits.maximumInputBytes ≤ maxProofInputBytes) .resourceLimit
  let bytes := proof.branches.length * 52 + key.length + extraBytes
  match proof.leaf with
  | none => require (bytes ≤ limits.maximumInputBytes) .resourceLimit
  | some leaf =>
    keyValid leaf.key
    require (leaf.value.length.toNat ≤ maxValueBytes) .resourceLimit
    require (bytes + leaf.key.length + 40 ≤ limits.maximumInputBytes) .resourceLimit

def validateRoute (leaf : LeafProof) : Option Nat → List BranchProof → Except CommitmentError Unit
  | _, [] => pure ()
  | previous, step :: rest => do
    require ((∀ prior ∈ previous, prior < step.bit) ∧ step.bit ≤ leaf.key.length * 9 ∧ bit key step.bit = bit leaf.key step.bit)
      .invalidProof
    validateRoute leaf (some step.bit) rest

def verify (expected : OrderedCommitment) (proof : LookupProof) : Except CommitmentError (Option ValueCommitment) :=
  match proof.leaf with
  | none => do
    require (proof.branches = [] ∧ expected = emptyCommitment context) .invalidProof
    pure none
  | some leaf => do
    validateRoute key leaf none proof.branches
    let folded ← fold context key (← leafCommitment context leaf) proof.branches
    require (folded = expected) .invalidProof
    pure (if leaf.key = key then some leaf.value else none)

def verifyLookup (expected : OrderedCommitment) (proof : LookupProof) (limits : CommitmentLimits) :
    Except CommitmentError (Option ValueCommitment) := do
  admitProof key proof limits 0
  verify context key expected proof

/-- The path of an absent key is cut where the key leaves it; the bits of a validated path ascend. -/
def applyInsertion (new : OrderedCommitment) (oldLeaf : LeafProof) (branches : List BranchProof) :
    Except CommitmentError OrderedCommitment := do
  let split ← orError .invalidProof (firstDifference key oldLeaf.key)
  let lower := branches.dropWhile (·.bit < split)
  require (∀ step ∈ lower.head?, step.bit ≠ split) .invalidProof
  let old ← fold context key (← leafCommitment context oldLeaf) lower
  let splitRoot ← joinCommitment context key ⟨split, old⟩ new
  fold context key splitRoot (branches.takeWhile (·.bit < split))

def applyChange (expected : OrderedCommitment) (found : Option ValueCommitment) (after : Option (List UInt8))
    (proof : LookupProof) : Except CommitmentError OrderedCommitment :=
  match after with
  | none =>
    if found = none then pure expected
    else match proof.branches.getLast? with
      | none => pure (emptyCommitment context)
      | some last => fold context key last.sibling proof.branches.dropLast
  | some value => do
    let new ← leafCommitment context ⟨key, committed value⟩
    match proof.leaf with
    | none => pure new
    | some oldLeaf =>
      if found = none then applyInsertion context key new oldLeaf proof.branches else fold context key new proof.branches

def applyDelta (expected : OrderedCommitment) (before after : Option (List UInt8)) (proof : LookupProof)
    (limits : CommitmentLimits) : Except CommitmentError OrderedCommitment := do
  require ((∀ value ∈ before, value.length ≤ maxValueBytes) ∧ ∀ value ∈ after, value.length ≤ maxValueBytes) .resourceLimit
  admitProof key proof limits ((before.map List.length).getD 0 + (after.map List.length).getD 0)
  let found ← verify context key expected proof
  require (found = before.map committed) .conflict
  applyChange context key expected found after proof

end Proofs

/-! ### The commitment of a map -/

abbrev Contents := Std.ExtTreeMap (List UInt8) (List UInt8)

abbrev ContentTree := Tree (List UInt8) (List UInt8)

def treeOf (m : Contents) : Option ContentTree := m.toList.foldl (fun t e => update keyBits e.1 (some e.2) t) none

def change (m : Contents) (key : List UInt8) : Option (List UInt8) → Contents
  | none => m.erase key
  | some value => m.insert key value

section Trees

variable [Primitives] (context : CommitmentContext)

def treeCommitment : ContentTree → OrderedCommitment
  | .leaf key value => leafSummary context ⟨key, committed value⟩
  | .branch n left right => branchSummary context n (treeCommitment left) (treeCommitment right)

def commitment (m : Contents) : OrderedCommitment := ((treeOf m).map (treeCommitment context)).getD (emptyCommitment context)

def treeProof (key : List UInt8) (t : ContentTree) : LookupProof :=
  ⟨some ⟨(t.leafFor keyBits key).1, committed (t.leafFor keyBits key).2⟩,
    (t.stepsTo keyBits key).map (Step.map (treeCommitment context))⟩

def searchProof (m : Contents) (key : List UInt8) : LookupProof := ((treeOf m).map (treeProof context key)).getD ⟨none, []⟩

end Trees

def assign (f : List UInt8 → Option (List UInt8)) (e : List UInt8 × List UInt8) : List UInt8 → Option (List UInt8) :=
  Function.update f e.1 (some e.2)

variable {entries : List (List UInt8 × List UInt8)}

theorem denotes_foldl {t : Option ContentTree} {f : List UInt8 → Option (List UInt8)} (h : Denotes keyBits t f) :
    Denotes keyBits (entries.foldl (fun t e => update keyBits e.1 (some e.2) t) t) (entries.foldl assign f) := by
  induction entries generalizing t f with
  | nil => exact h
  | cons e entries ih => exact ih (h.update e.1 (some e.2))

theorem foldl_update (nodup : (entries.map Prod.fst).Nodup) (f : List UInt8 → Option (List UInt8)) (k v : List UInt8) :
    entries.foldl assign f k = some v ↔
      (k, v) ∈ entries ∨ f k = some v ∧ k ∉ entries.map Prod.fst := by
  induction entries generalizing f with
  | nil => simp
  | cons e entries ih =>
    rw [List.map_cons, List.nodup_cons] at nodup
    rw [List.foldl_cons, ih nodup.2, assign, Function.update_apply]
    split <;> grind

theorem denotes_treeOf (m : Contents) : Denotes keyBits (treeOf m) fun k => m[k]? := by
  have empty : Denotes keyBits (none : Option ContentTree) fun _ => none := ⟨nofun, by simp⟩
  have nodup : (m.toList.map Prod.fst).Nodup := by
    rw [Std.ExtTreeMap.map_fst_toList_eq_keys]
    exact Std.ExtTreeMap.nodup_keys
  have same : m.toList.foldl assign (fun _ => none) = fun k => m[k]? := by
    funext k
    refine Option.ext fun v => ?_
    rw [foldl_update nodup]
    simp
  exact same ▸ denotes_foldl empty

theorem treeOf_change (m : Contents) (key : List UInt8) (after : Option (List UInt8)) :
    treeOf (change m key after) = update keyBits key after (treeOf m) := by
  refine (denotes_treeOf _).unique ?_
  have same : (fun k => (change m key after)[k]?) = Function.update (fun k => m[k]?) key after := by
    funext k
    rw [Function.update_apply]
    split
    · rename_i same
      cases after <;> simp [change, same]
    · rename_i other
      cases after <;> simp [change, Std.ExtTreeMap.getElem?_erase, Std.ExtTreeMap.getElem?_insert, Ne.symm other]
  rw [same]
  exact (denotes_treeOf m).update key after

end Uste.Index
