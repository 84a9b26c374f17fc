import Uste.Txn.Authorized
import Uste.Txn.Commit

/-!
The ledger in its own terms: what its checked sums add up to, and what a commit makes of its maps.
-/

namespace Uste.Txn.QuotaLedger

open Types Crypto Policy Storage Std List

def committedBytes (ledger : QuotaLedger) (principal : PrincipalDigest) : Nat :=
  total (fun charge => if charge.principal = principal then charge.reference.byteLen else 0) ledger.committed

def namespaceCommittedBytes (ledger : QuotaLedger) : Nat := total (fun charge => charge.reference.byteLen) ledger.committed

def stagedBytes (ledger : QuotaLedger) (principal : PrincipalDigest) : Nat :=
  total (fun charge => if charge.principal = principal then charge.acceptedBytes else 0) ledger.staged

def namespaceStagedBytes (ledger : QuotaLedger) : Nat := total (fun charge => charge.acceptedBytes) ledger.staged

def liveHandles (ledger : QuotaLedger) (principal : PrincipalDigest) : Nat :=
  total (fun charge => if charge.principal = principal then charge.liveHandles else 0) ledger.staged

theorem checkedSum_ok {limit a b n : Nat} (h : checkedSum limit a b = .ok n) : n = a + b ∧ a + b < limit := by
  obtain ⟨_, below, h⟩ := bind_ok h
  cases h
  exact ⟨rfl, require_ok.mp below⟩

variable {principal : PrincipalDigest} {usage usage' : QuotaUsage}

theorem addCommitted_ok {charge : CommittedCharge}
    (h : addCommitted (some principal) usage charge = .ok usage') : usage' = { usage with
      namespaceCommittedBytes := usage.namespaceCommittedBytes + charge.reference.byteLen
      principalCommittedBytes := usage.principalCommittedBytes +
        if charge.principal = principal then charge.reference.byteLen else 0 } := by
  unfold addCommitted at h
  obtain ⟨_, namespaceBytes, h⟩ := bind_ok h
  obtain ⟨rfl, -⟩ := checkedSum_ok namespaceBytes
  split at h
  · rename_i own
    obtain ⟨_, principalBytes, h⟩ := bind_ok h
    obtain ⟨rfl, -⟩ := checkedSum_ok principalBytes
    cases h
    rw [if_pos (Option.some.inj own).symm]
  · rename_i other
    cases h
    rw [if_neg fun own => other (congrArg some own.symm)]
    rfl

theorem addStaged_ok {charge : StagedCharge}
    (h : addStaged (some principal) usage charge = .ok usage') : usage' = { usage with
      namespaceStagedBytes := usage.namespaceStagedBytes + charge.acceptedBytes
      principalStagedBytes := usage.principalStagedBytes + if charge.principal = principal then charge.acceptedBytes else 0
      principalLiveUploads := usage.principalLiveUploads + if charge.principal = principal then charge.liveHandles else 0 } := by
  unfold addStaged at h
  obtain ⟨_, namespaceBytes, h⟩ := bind_ok h
  obtain ⟨rfl, -⟩ := checkedSum_ok namespaceBytes
  split at h
  · rename_i own
    obtain ⟨_, principalBytes, h⟩ := bind_ok h
    obtain ⟨rfl, -⟩ := checkedSum_ok principalBytes
    obtain ⟨_, live, h⟩ := bind_ok h
    obtain ⟨rfl, -⟩ := checkedSum_ok live
    cases h
    rw [if_pos (Option.some.inj own).symm, if_pos (Option.some.inj own).symm]
  · rename_i other
    cases h
    have apart : charge.principal ≠ principal := fun own => other (congrArg some own.symm)
    rw [if_neg apart, if_neg apart]
    rfl

theorem foldlM_addCommitted {charges : List CommittedCharge}
    (h : charges.foldlM (addCommitted (some principal)) usage = .ok usage') : usage' = { usage with
      namespaceCommittedBytes := usage.namespaceCommittedBytes + (charges.map fun charge => charge.reference.byteLen).sum
      principalCommittedBytes := usage.principalCommittedBytes +
        (charges.map fun charge => if charge.principal = principal then charge.reference.byteLen else 0).sum } := by
  induction charges generalizing usage with
  | nil =>
    cases h
    rfl
  | cons charge charges ih =>
    obtain ⟨next, added, h⟩ := foldlM_step h
    rw [ih h, addCommitted_ok added]
    simp only [map_cons, sum_cons, Nat.add_assoc]

theorem foldlM_addStaged {charges : List StagedCharge}
    (h : charges.foldlM (addStaged (some principal)) usage = .ok usage') : usage' = { usage with
      namespaceStagedBytes := usage.namespaceStagedBytes + (charges.map fun charge => charge.acceptedBytes).sum
      principalStagedBytes := usage.principalStagedBytes +
        (charges.map fun charge => if charge.principal = principal then charge.acceptedBytes else 0).sum
      principalLiveUploads := usage.principalLiveUploads +
        (charges.map fun charge => if charge.principal = principal then charge.liveHandles else 0).sum } := by
  induction charges generalizing usage with
  | nil =>
    cases h
    rfl
  | cons charge charges ih =>
    obtain ⟨next, added, h⟩ := foldlM_step h
    rw [ih h, addStaged_ok added]
    simp only [map_cons, sum_cons, Nat.add_assoc]

theorem usage_ok {ledger : QuotaLedger} (h : ledger.usage (some principal) = .ok usage) :
    usage = ⟨ledger.namespaceCommittedBytes, ledger.namespaceStagedBytes, ledger.committedBytes principal,
      ledger.stagedBytes principal, ledger.liveHandles principal⟩ := by
  obtain ⟨committed, first, second⟩ := bind_ok h
  rw [foldlM_addStaged second, foldlM_addCommitted first]
  unfold namespaceCommittedBytes namespaceStagedBytes committedBytes stagedBytes liveHandles total
  simp only [map_map, Nat.zero_add]
  rfl

/-! ### What a commit makes of the reservations -/

section

variable {principal : PrincipalDigest} {ledger : QuotaLedger} {reference : BlobReference} {references : List BlobReference}
  {upload : Octets 16}

theorem commitReference_staged (principal : PrincipalDigest) (ledger : QuotaLedger) (reference : BlobReference) (upload : Octets 16) :
    (commitReference principal ledger reference).staged[upload]? = ledger.staged[upload]? ∨
      ledger.stagedByBlob[reference.id]? = some upload ∧ (commitReference principal ledger reference).staged[upload]? = none := by
  unfold commitReference
  split
  · rename_i other found
    by_cases same : upload = other
    · subst same
      exact .inr ⟨found, by simp⟩
    · exact .inl (getElem?_erase_ne (Ne.symm same))
  · exact .inl rfl

theorem commitReference_stagedByBlob {blob : BlobId}
    (h : (commitReference principal ledger reference).stagedByBlob[blob]? = some upload) :
    ledger.stagedByBlob[blob]? = some upload := by
  unfold commitReference at h
  split at h
  · exact (some_erase.mp h).2
  · exact h

theorem foldl_commitReference_staged (principal : PrincipalDigest) (references : List BlobReference) (ledger : QuotaLedger) (upload : Octets 16) :
    (references.foldl (commitReference principal) ledger).staged[upload]? = ledger.staged[upload]? ∨
      (∃ reference ∈ references, ledger.stagedByBlob[reference.id]? = some upload) ∧
        (references.foldl (commitReference principal) ledger).staged[upload]? = none := by
  induction references generalizing ledger with
  | nil => exact .inl rfl
  | cons reference references ih =>
    rcases ih (commitReference principal ledger reference) with kept | ⟨⟨other, mem, found⟩, gone⟩
    · rcases commitReference_staged principal ledger reference upload with same | ⟨found, gone⟩
      · exact .inl (kept.trans same)
      · exact .inr ⟨⟨reference, mem_cons_self, found⟩, kept.trans gone⟩
    · exact .inr ⟨⟨other, mem_cons_of_mem _ mem, commitReference_stagedByBlob found⟩, gone⟩

end

/-! ### Reservations by upload and by blob -/

section Tidy

variable [Primitives] {scope : NamespaceRef} {ledger : QuotaLedger} {upload : Octets 16} {charge : StagedCharge}

/-- A reservation is known by its blob, which is derived from its upload, and is of a blob that is not committed. -/
structure Tidy (scope : NamespaceRef) (ledger : QuotaLedger) : Prop where
  blob : ∀ (upload : Octets 16) charge, ledger.staged[upload]? = some charge →
    charge.blob = deriveBlobId scope upload ∧ ledger.stagedByBlob[charge.blob]? = some upload
  upload : ∀ (blob : BlobId) upload, ledger.stagedByBlob[blob]? = some upload →
    ∃ charge, ledger.staged[upload]? = some charge ∧ charge.blob = blob
  apart : ∀ (upload : Octets 16) charge, ledger.staged[upload]? = some charge → ledger.committed[charge.blob]? = none

theorem Tidy.insertStaged (tidy : Tidy scope ledger) (absent : ledger.staged[upload]? = none)
    (blob : charge.blob = deriveBlobId scope upload) (free : ledger.stagedByBlob[charge.blob]? = none)
    (uncommitted : ledger.committed[charge.blob]? = none) : Tidy scope (ledger.insertStaged upload charge) where
  blob other charge' found := by
    obtain ⟨rfl, rfl⟩ | ⟨-, found⟩ := some_insert.mp found
    · exact ⟨blob, ExtTreeMap.getElem?_insert_self⟩
    · obtain ⟨derived, known⟩ := tidy.blob other charge' found
      exact ⟨derived, some_insert_new (not_mem_of_none free) known⟩
  upload blob' other found := by
    obtain ⟨rfl, rfl⟩ | ⟨-, found⟩ := some_insert.mp found
    · exact ⟨charge, ExtTreeMap.getElem?_insert_self, rfl⟩
    · obtain ⟨charge', there, named⟩ := tidy.upload blob' other found
      exact ⟨charge', some_insert_new (not_mem_of_none absent) there, named⟩
  apart other charge' found := by
    obtain ⟨-, rfl⟩ | ⟨-, found⟩ := some_insert.mp found
    · exact uncommitted
    · exact tidy.apart other charge' found

theorem Tidy.setStaged (tidy : Tidy scope ledger) {before : StagedCharge} (found : ledger.staged[upload]? = some before)
    (same : charge.blob = before.blob) : Tidy scope (ledger.setStaged upload charge) := by
  have shown (other : Octets 16) (charge' : StagedCharge)
      (there : (ledger.setStaged upload charge).staged[other]? = some charge') :
      ∃ before', ledger.staged[other]? = some before' ∧ charge'.blob = before'.blob := by
    obtain ⟨rfl, rfl⟩ | ⟨-, there⟩ := some_insert.mp there
    · exact ⟨before, found, same⟩
    · exact ⟨charge', there, rfl⟩
  refine ⟨fun other charge' there => ?_, fun blob other known => ?_, fun other charge' there => ?_⟩
  · obtain ⟨before', was, equal⟩ := shown other charge' there
    rw [equal]
    exact tidy.blob other before' was
  · obtain ⟨charge', there, named⟩ := tidy.upload blob other known
    by_cases equal : upload = other
    · subst equal
      cases Option.some.inj (found.symm.trans there)
      exact ⟨charge, ExtTreeMap.getElem?_insert_self, same.trans named⟩
    · exact ⟨charge', (getElem?_insert_ne equal).trans there, named⟩
  · obtain ⟨before', was, equal⟩ := shown other charge' there
    rw [equal]
    exact tidy.apart other before' was

omit [Primitives] in
@[simp] theorem dropHandle_committed (live : Bool) : (ledger.dropHandle upload live).committed = ledger.committed := by
  unfold QuotaLedger.dropHandle
  split
  · split <;> rfl
  · rfl

omit [Primitives] in
theorem dropHandle_staged (ledger : QuotaLedger) (upload : Octets 16) (live : Bool) (other : Octets 16) :
    (ledger.dropHandle upload live).staged[other]? = ledger.staged[other]?.map fun charge => { charge with
      liveHandles := charge.liveHandles - if (live && decide (upload = other)) = true then 1 else 0 } := by
  by_cases same : upload = other
  · subst same
    cases found : ledger.staged[upload]? <;> cases live <;> simp [QuotaLedger.dropHandle, QuotaLedger.setStaged, found]
  · have kept : (ledger.dropHandle upload live).staged[other]? = ledger.staged[other]? := by
      unfold QuotaLedger.dropHandle
      split
      · split
        · exact getElem?_insert_ne same
        · rfl
      · rfl
    simp [kept, same]

section

variable (tidy : Tidy scope ledger)

include tidy

theorem Tidy.dropHandle (upload : Octets 16) (activeHandle : Bool) :
    Tidy scope (ledger.dropHandle upload activeHandle) := by
  unfold QuotaLedger.dropHandle
  split
  · rename_i charge found
    split
    · exact tidy.setStaged found rfl
    · exact tidy
  · exact tidy

theorem Tidy.erase (found : ledger.staged[upload]? = some charge) {committed : ExtTreeMap BlobId CommittedCharge}
    (kept : ∀ id, id ≠ charge.blob → committed[id]? = ledger.committed[id]?) :
    Tidy scope ⟨committed, ledger.staged.erase upload, ledger.stagedByBlob.erase charge.blob⟩ := by
  have known := (tidy.blob upload charge found).2
  have elsewhere (other : Octets 16) (charge' : StagedCharge) (there : (ledger.staged.erase upload)[other]? = some charge') :
      ledger.staged[other]? = some charge' ∧ charge'.blob ≠ charge.blob := by
    obtain ⟨different, there⟩ := some_erase.mp there
    refine ⟨there, fun same => different ?_⟩
    have also := (tidy.blob other charge' there).2
    rw [same, known] at also
    exact Option.some.inj also
  refine ⟨fun other charge' there => ?_, fun blob other named => ?_, fun other charge' there => ?_⟩
  · obtain ⟨was, different⟩ := elsewhere other charge' there
    obtain ⟨derived, also⟩ := tidy.blob other charge' was
    exact ⟨derived, (getElem?_erase_ne different.symm).trans also⟩
  · obtain ⟨different, named⟩ := some_erase.mp named
    obtain ⟨charge', there, equal⟩ := tidy.upload blob other named
    refine ⟨charge', some_erase.mpr ⟨?_, there⟩, equal⟩
    rintro rfl
    cases Option.some.inj (found.symm.trans there)
    exact different equal
  · obtain ⟨was, different⟩ := elsewhere other charge' there
    rw [kept _ different]
    exact tidy.apart other charge' was

theorem Tidy.removeStaged (upload : Octets 16) : Tidy scope (ledger.removeStaged upload) := by
  unfold QuotaLedger.removeStaged
  split
  · rename_i charge found
    exact tidy.erase found fun _ _ => rfl
  · exact tidy

theorem Tidy.commitReference (principal : PrincipalDigest) (reference : BlobReference) :
    Tidy scope (QuotaLedger.commitReference principal ledger reference) := by
  have kept (id : BlobId) (different : id ≠ reference.id) :
      (ledger.committed.insertIfNew reference.id ⟨reference, principal⟩)[id]? = ledger.committed[id]? := by
    ext charge
    simp [some_insertIfNew, Ne.symm different]
  unfold QuotaLedger.commitReference
  split
  · rename_i upload named
    obtain ⟨charge, found, same⟩ := tidy.upload reference.id upload named
    rw [← same] at kept ⊢
    exact tidy.erase found kept
  · rename_i unnamed
    refine ⟨tidy.blob, tidy.upload, fun other charge found => ?_⟩
    rw [kept]
    · exact tidy.apart other charge found
    · intro same
      have known := (tidy.blob other charge found).2
      rw [same, unnamed] at known
      cases known

theorem Tidy.commitInventory (principal : PrincipalDigest) (inventory : BlobInventory) :
    Tidy scope (ledger.commitInventory principal inventory) := by
  unfold QuotaLedger.commitInventory
  induction inventory.references generalizing ledger with
  | nil => exact tidy
  | cons reference references ih => exact ih (tidy.commitReference principal reference)

end

end Tidy

/-! ### Committed charges and the owners of blobs -/

section Owners

variable {scope : NamespaceRef} {owners : BlobOwners} {ledger : QuotaLedger} {principal : PrincipalDigest}

def OwnersKeyed (scope : NamespaceRef) (owners : BlobOwners) : Prop :=
  ∀ (key : BlobKey) owner, owners[key]? = some owner → owner.1.blobKey = key ∧ key.scope = scope

/-- The committed charges are the owners, blob by blob. -/
def ChargesOwners (scope : NamespaceRef) (owners : BlobOwners) (committed : ExtTreeMap BlobId CommittedCharge) : Prop :=
  ∀ id, committed[id]? = (owners[(⟨scope, id⟩ : BlobKey)]?).map fun owner => ⟨owner.1, owner.2⟩

def chargeAll (principal : PrincipalDigest) (committed : ExtTreeMap BlobId CommittedCharge) (references : List BlobReference) :
    ExtTreeMap BlobId CommittedCharge :=
  references.foldl (fun committed reference => committed.insertIfNew reference.id ⟨reference, principal⟩) committed

theorem commitInventory_committed (ledger : QuotaLedger) (principal : PrincipalDigest) (inventory : BlobInventory) :
    (ledger.commitInventory principal inventory).committed = chargeAll principal ledger.committed inventory.references := by
  unfold QuotaLedger.commitInventory chargeAll
  induction inventory.references generalizing ledger with
  | nil => rfl
  | cons reference references ih =>
    rw [foldl_cons, ih, foldl_cons]
    have once : (commitReference principal ledger reference).committed =
        ledger.committed.insertIfNew reference.id ⟨reference, principal⟩ := by
      unfold commitReference
      split <;> rfl
    rw [once]

theorem blobKey_of_scope {reference : BlobReference} (h : reference.scope = scope) :
    reference.blobKey = ⟨scope, reference.id⟩ := by
  cases h
  rfl

variable {references : List BlobReference}

theorem OwnersKeyed.record (keyed : OwnersKeyed scope owners)
    (scopes : ∀ reference ∈ references, reference.scope = scope) :
    OwnersKeyed scope (recordOwners principal owners references) := by
  unfold recordOwners
  induction references generalizing owners with
  | nil => exact keyed
  | cons reference references ih =>
    refine ih ?_ fun other mem => scopes other (mem_cons_of_mem _ mem)
    intro key owner found
    obtain found | ⟨-, rfl, rfl⟩ := some_insertIfNew.mp found
    · exact keyed key owner found
    · exact ⟨rfl, by rw [blobKey_of_scope (scopes reference mem_cons_self)]⟩

variable {committed : ExtTreeMap BlobId CommittedCharge}

theorem ChargesOwners.record (charges : ChargesOwners scope owners committed)
    (scopes : ∀ reference ∈ references, reference.scope = scope) :
    ChargesOwners scope (recordOwners principal owners references) (chargeAll principal committed references) := by
  unfold recordOwners chargeAll
  induction references generalizing owners committed with
  | nil => exact charges
  | cons reference references ih =>
    refine ih ?_ fun other mem => scopes other (mem_cons_of_mem _ mem)
    intro id
    have key := blobKey_of_scope (scopes reference mem_cons_self)
    dsimp only
    have charged : reference.id ∈ committed ↔ reference.blobKey ∈ owners := by
      rw [← ExtTreeMap.isSome_getElem?_iff_mem, charges, Option.isSome_map, ExtTreeMap.isSome_getElem?_iff_mem, ← key]
    by_cases present : reference.blobKey ∈ owners
    · rw [insertIfNew_old present, insertIfNew_old (charged.mpr present)]
      exact charges id
    rw [insertIfNew_new present, insertIfNew_new (mt charged.mp present)]
    by_cases same : reference.id = id
    · subst same
      rw [← key, ExtTreeMap.getElem?_insert_self, ExtTreeMap.getElem?_insert_self]
      rfl
    · rw [getElem?_insert_ne same, getElem?_insert_ne fun equal => same (congrArg BlobKey.id equal)]
      exact charges id

theorem chargeAll_known
    (known : ∀ reference ∈ references, reference.id ∈ committed) : chargeAll principal committed references = committed := by
  unfold chargeAll
  induction references with
  | nil => rfl
  | cons reference references ih =>
    rw [foldl_cons, insertIfNew_old (known reference mem_cons_self)]
    exact ih fun other mem => known other (mem_cons_of_mem _ mem)

/-! ### Bytes of a commit -/

def newBytes (committed : ExtTreeMap BlobId CommittedCharge) (references : List BlobReference) : Nat :=
  (references.map fun reference => if reference.id ∈ committed then 0 else reference.byteLen).sum

theorem foldlM_admitReference {added added' : Nat}
    (h : references.foldlM (ledger.admitReference principal) added = .ok added') :
    added' = added + newBytes ledger.committed references := by
  unfold newBytes
  induction references generalizing added with
  | nil =>
    cases h
    rfl
  | cons reference references ih =>
    obtain ⟨next, admitted, h⟩ := foldlM_step h
    rw [ih h, map_cons, sum_cons]
    unfold admitReference at admitted
    split at admitted
    · rename_i charge found
      have mem : reference.id ∈ ledger.committed := mem_of_some found
      obtain ⟨_, -, admitted⟩ := bind_ok admitted
      cases admitted
      rw [if_pos mem, Nat.zero_add]
    · rename_i absent
      obtain ⟨_, -, admitted⟩ := bind_ok admitted
      rw [(checkedSum_ok admitted).1, if_neg ((getElem?_eq_none_iff _ _).mp absent), Nat.add_assoc]

theorem total_chargeAll {f : CommittedCharge → Nat} (weight : ∀ reference, f ⟨reference, principal⟩ = reference.byteLen)
    (sorted : references.Pairwise fun a b => compare a.id b.id = .lt) :
    total f (chargeAll principal committed references) = total f committed + newBytes committed references := by
  unfold chargeAll newBytes
  induction references generalizing committed with
  | nil => rfl
  | cons reference references ih =>
    obtain ⟨below, sorted⟩ := pairwise_cons.mp sorted
    rw [foldl_cons, ih sorted, map_cons, sum_cons]
    -- The blobs that follow are not touched by this one.
    have rest : (references.map fun other =>
        if other.id ∈ committed.insertIfNew reference.id ⟨reference, principal⟩ then 0 else other.byteLen) =
        references.map fun other => if other.id ∈ committed then 0 else other.byteLen := by
      refine map_congr_left fun other mem => ?_
      have apart : ¬ compare reference.id other.id = .eq := by
        rw [below other mem]
        nofun
      simp only [ExtTreeMap.mem_insertIfNew, apart, false_or]
    rw [rest]
    by_cases present : reference.id ∈ committed
    · rw [insertIfNew_old present, if_pos present, Nat.zero_add]
    · rw [insertIfNew_new present, total_insert_new f (ExtTreeMap.getElem?_eq_none present), weight, if_neg present]
      omega

/-! ### The ledger of an opening -/

theorem foldlM_addCommitted_none (charges : List CommittedCharge) (usage : QuotaUsage)
    (below : usage.namespaceCommittedBytes + (charges.map fun charge => charge.reference.byteLen).sum < wordLimit) :
    ∃ usage', charges.foldlM (addCommitted none) usage = .ok usage' := by
  induction charges generalizing usage with
  | nil => exact ⟨usage, rfl⟩
  | cons charge charges ih =>
    rw [map_cons, sum_cons] at below
    have added : addCommitted none usage charge = .ok { usage with
        namespaceCommittedBytes := usage.namespaceCommittedBytes + charge.reference.byteLen } := by
      unfold addCommitted checkedSum
      rw [require_pos _ (by omega)]
      rfl
    rw [foldlM_cons, added, ok_bind]
    rw [← Nat.add_assoc] at below
    exact ih _ below

theorem foldlM_addCommitted_none_ok {charges : List CommittedCharge} {usage usage' : QuotaUsage}
    (start : usage.namespaceCommittedBytes < wordLimit) (h : charges.foldlM (addCommitted none) usage = .ok usage') :
    usage.namespaceCommittedBytes + (charges.map fun charge => charge.reference.byteLen).sum < wordLimit := by
  induction charges generalizing usage with
  | nil => exact start
  | cons charge charges ih =>
    obtain ⟨next, added, h⟩ := foldlM_step h
    obtain ⟨_, sum, added⟩ := bind_ok added
    obtain ⟨rfl, below⟩ := checkedSum_ok sum
    cases added
    have rest := ih below h
    rw [map_cons, sum_cons, ← Nat.add_assoc]
    exact rest

theorem foldlM_chargeOwner (scope : NamespaceRef) {entries : List (BlobKey × BlobReference × PrincipalDigest)}
    (ledger : QuotaLedger) (keyed : ∀ entry ∈ entries, entry.2.1.blobKey = entry.1 ∧ entry.1.scope = scope)
    (distinct : (entries.map (·.1)).Nodup) (fresh : ∀ entry ∈ entries, entry.2.1.id ∉ ledger.committed) :
    ∃ committed, (entries.map (·.2)).foldlM chargeOwner ledger = .ok { ledger with committed := committed } ∧
      ∀ id charge, committed[id]? = some charge ↔ ledger.committed[id]? = some charge ∨
        ∃ owner, (⟨scope, id⟩, owner) ∈ entries ∧ charge = ⟨owner.1, owner.2⟩ := by
  induction entries generalizing ledger with
  | nil => exact ⟨ledger.committed, rfl, by simp⟩
  | cons entry entries ih =>
    obtain ⟨key, reference, principal⟩ := entry
    have first := keyed (key, reference, principal) mem_cons_self
    simp only at first
    obtain ⟨rfl, inScope⟩ := first
    simp only [map_cons, nodup_cons, mem_map, not_exists, not_and] at distinct
    have new := fresh _ mem_cons_self
    have later (entry : BlobKey × BlobReference × PrincipalDigest) (mem : entry ∈ entries) : entry.2.1.id ≠ reference.id := by
      intro same
      obtain ⟨keyed', inScope'⟩ := keyed entry (mem_cons_of_mem _ mem)
      refine distinct.1 entry mem ?_
      rw [← keyed', blobKey_of_scope (keyed' ▸ inScope' : entry.2.1.blobKey.scope = scope), blobKey_of_scope inScope, same]
    obtain ⟨committed, folds, charges⟩ := ih { ledger with committed := ledger.committed.insert reference.id ⟨reference, principal⟩ }
      (fun entry mem => keyed entry (mem_cons_of_mem _ mem)) distinct.2 (by
        intro entry mem
        rw [mem_insert_iff]
        rintro (same | old)
        · exact later entry mem same.symm
        · exact fresh entry (mem_cons_of_mem _ mem) old)
    refine ⟨committed, ?_, fun id charge => ?_⟩
    · rw [map_cons, foldlM_cons]
      unfold chargeOwner
      rw [require_pos _ new]
      exact folds
    · rw [charges]
      constructor
      · rintro (here | ⟨owner, mem, rfl⟩)
        · obtain ⟨rfl, rfl⟩ | ⟨-, here⟩ := some_insert.mp here
          · refine .inr ⟨(reference, principal), ?_, rfl⟩
            rw [blobKey_of_scope inScope]
            exact mem_cons_self
          · exact .inl here
        · exact .inr ⟨owner, mem_cons_of_mem _ mem, rfl⟩
      · rintro (here | ⟨owner, mem, rfl⟩)
        · exact .inl (some_insert_new new here)
        · rcases mem_cons.mp mem with first | mem
          · cases (Prod.mk.inj first).2
            exact .inl (some_insert.mpr (.inl ⟨congrArg (fun entry => entry.1.id) first.symm, rfl⟩))
          · exact .inr ⟨owner, mem, rfl⟩

/-- The charges that opening makes are the owners; it fails only where their bytes do not fit a machine word. -/
theorem fromOwners_iff (keyed : OwnersKeyed scope owners) :
    ∃ committed, ChargesOwners scope owners committed ∧ ∀ ledger, fromOwners owners = .ok ledger ↔
      ledger = { committed := committed } ∧ total (fun charge => charge.reference.byteLen) committed < wordLimit := by
  obtain ⟨committed, folds, charges⟩ := foldlM_chargeOwner scope {}
    (fun entry (mem : entry ∈ owners.toList) =>
      keyed entry.1 entry.2 (ExtTreeMap.mem_toList_iff_getElem?_eq_some.mp mem))
    (by
      refine pairwise_map.mpr ((ExtTreeMap.distinct_keys_toList (t := owners)).imp ?_)
      intro a b different same
      exact different (same ▸ ReflOrd.compare_self))
    (by simp)
  refine ⟨committed, fun id => ?_, fun ledger => ?_⟩
  · ext charge
    rw [charges]
    simp only [ExtTreeMap.getElem?_empty, ExtTreeMap.mem_toList_iff_getElem?_eq_some, Option.map_eq_some_iff, reduceCtorEq, false_or]
    exact ⟨fun ⟨owner, found, same⟩ => ⟨owner, found, same.symm⟩, fun ⟨owner, found, same⟩ => ⟨owner, found, same.symm⟩⟩
  · have sum : total (fun charge => charge.reference.byteLen) committed =
        ((committed.toList.map (·.2)).map fun charge : CommittedCharge => charge.reference.byteLen).sum := by
      rw [map_map]
      rfl
    unfold fromOwners
    rw [folds, ok_bind]
    constructor
    · intro h
      obtain ⟨usage, used, h⟩ := bind_ok h
      cases h
      obtain ⟨_, used, -⟩ := bind_ok used
      have below := foldlM_addCommitted_none_ok (by decide) used
      rw [sum]
      simpa using below
    · rintro ⟨rfl, below⟩
      rw [sum] at below
      obtain ⟨usage, used⟩ := foldlM_addCommitted_none (committed.toList.map (·.2)) {}
        (by rw [Nat.zero_add]; exact below)
      unfold QuotaLedger.usage
      rw [used, ok_bind]
      rfl

end Owners

end Uste.Txn.QuotaLedger
