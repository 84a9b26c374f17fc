import Uste.Metadata.Base

/-!
Lookups at a base. An admitted base answers from its families what the prefix of the journal says
about a retry, a transaction or a blob.
-/

namespace Uste.Metadata

open Types Crypto Policy Storage Txn Std

/-! ### What a prefix says -/

def ownerIn (ts : List RecoveredTransaction) (id : BlobId) : Option (BlobReference × PrincipalDigest) :=
  ((firstReferences ts).find? fun f => f.reference.id = id).map fun f => (f.reference, f.transaction.principal)

/-! ### What a base answers -/

namespace CoordinatorDiskBase

variable (base : CoordinatorDiskBase) (anchors : CertificateAnchors)

def ownerCount : Nat := (base.metadata.runs[familyBlobOwner]?.map (·.size)).getD 0

/-- A base without an owner family has no owners. -/
def owner (id : BlobId) : Except TransactionError (Option (BlobReference × PrincipalDigest)) :=
  if familyBlobOwner ∈ base.metadata.runs then do
    match ← (anchors.indexGet base.metadata familyBlobOwner id.bytes).mapError .storage with
    | none => pure none
    | some value =>
      let owner ← (decodeOwner base.metadata.anchor.scope id.bytes value).mapError .storage
      pure (some owner)
  else pure none

end CoordinatorDiskBase

def recordNewOwner (existing : Option (BlobReference × PrincipalDigest)) (ownerCount maximumOwners : Nat)
    (found : List BlobReference) (reference : BlobReference) : Except TransactionError (List BlobReference) :=
  match existing with
  | some (previous, _) => do
    require (previous = reference) .integrityFailure
    pure found
  | none => do
    require (ownerCount + found.length + 1 ≤ maximumOwners) .resourceLimit
    pure (found ++ [reference])

/-- The roots of a base list the prefix up to its revision. -/
structure BaseOf (recovery : AuthenticatedIndexRecovery) (ts : List RecoveredTransaction) (base : CoordinatorDiskBase) : Prop where
  metadata : MetadataRoot recovery ts base.metadata
  transactions : TransactionRoot recovery ts base.transactions.root
  paired : base.transactions.root.anchor = base.metadata.anchor
  evidence : ∀ root ∈ base.firstReferences, FirstReferenceRoot ts base.metadata.anchor root

section Find

variable {δ : Type} {key value : δ → List UInt8} {items : List δ}

theorem tabulate_find? (nodup : (items.map key).Nodup) (k : List UInt8) :
    (tabulate key value items)[k]? = (items.find? fun item => key item = k).map value := by
  cases found : items.find? (fun item => key item = k) with
  | none =>
    refine tabulate_none fun item mem same => ?_
    have absent := List.find?_eq_none.mp found item mem
    simp [same] at absent
  | some item =>
    have same : key item = k := by simpa using List.find?_some found
    rw [← same]
    exact tabulate_found nodup (List.mem_of_find?_eq_some found)

end Find

section Answers

variable [Primitives] {recovery : AuthenticatedIndexRecovery} {ts : List RecoveredTransaction} {base : CoordinatorDiskBase}

omit [Primitives] in
theorem BaseOf.certified (h : BaseOf recovery ts base) : recovery.anchors.Certified base.metadata :=
  ⟨congrArg _ h.metadata.inScope, h.metadata.certified⟩

omit [Primitives] in
theorem BaseOf.transactionsCertified (h : BaseOf recovery ts base) : recovery.anchors.Certified base.transactions.root :=
  ⟨congrArg _ h.transactions.inScope, h.transactions.certified⟩

theorem BaseOf.owner (reads : Reads recovery ts) (h : BaseOf recovery ts base) (id : BlobId) :
    base.owner recovery.anchors id = .ok (ownerIn (upTo base.metadata.anchor.revision ts) id) := by
  have coherent := reads.coherent.restrict base.metadata.anchor.revision
  unfold CoordinatorDiskBase.owner
  by_cases empty : firstReferences (upTo base.metadata.anchor.revision ts) = []
  · have absent : familyBlobOwner ∉ base.metadata.runs := by
      rw [ExtTreeMap.mem_iff_isSome_getElem?, h.metadata.runs, metadataRuns_getElem?, if_neg (by decide), if_neg (by decide),
        if_neg fun both => both.2 empty]
      simp
    rw [if_neg absent, ownerIn, empty]
    rfl
  · have run : base.metadata.runs[familyBlobOwner]? = some (ownerFamily (upTo base.metadata.anchor.revision ts)) :=
      metadataRoot_ownerRun h.metadata (mt List.length_eq_zero_iff.mp empty)
    have present : familyBlobOwner ∈ base.metadata.runs := mem_of_some run
    have same : ∀ f : FirstReference, (f.reference.id.bytes = id.bytes) = (f.reference.id = id) :=
      fun f => propext ⟨fun equal => Octets.ext equal, fun equal => by rw [equal]⟩
    rw [if_pos present]
    simp only [indexGet_eq h.certified run, mapError_ok, ok_bind, ownerFamily, tabulate_find? (firstReferenceKeys_nodup _), same,
      ownerIn]
    cases found : (firstReferences (upTo base.metadata.anchor.revision ts)).find? (fun f => f.reference.id = id) with
    | none => rfl
    | some f =>
      have own : f.reference.id = id := by simpa using List.find?_some found
      obtain ⟨transaction, reference⟩ := firstReferences_mem (List.mem_of_find?_eq_some found)
      have shape := coherent.shapes _ transaction _ reference
      rw [← h.metadata.inScope] at shape
      have decoded : decodeOwner base.metadata.anchor.scope id.bytes (ownerValue f.reference f.transaction.principal) =
          .ok (f.reference, f.transaction.principal) := decodeOwner_ok.mpr ⟨by rw [← own]; rfl, shape⟩
      simp only [Option.map_some, decoded, mapError_ok, ok_bind]
      rfl

omit [Primitives] in
theorem BaseOf.ownerCount (h : BaseOf recovery ts base) :
    base.ownerCount = (firstReferences (upTo base.metadata.anchor.revision ts)).length := by
  unfold CoordinatorDiskBase.ownerCount
  by_cases empty : firstReferences (upTo base.metadata.anchor.revision ts) = []
  · rw [h.metadata.runs, metadataRuns_getElem?, if_neg (by decide), if_neg (by decide), if_neg fun both => both.2 empty, empty]
    rfl
  · rw [metadataRoot_ownerRun h.metadata (mt List.length_eq_zero_iff.mp empty)]
    exact tabulate_size (firstReferenceKeys_nodup _)

end Answers

end Uste.Metadata
