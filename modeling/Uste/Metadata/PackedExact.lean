import Uste.Metadata.Packed

/-!
Packed admission accepts exactly the trees the journal determines, and staging builds them.
-/

namespace Uste.Metadata

open Types Crypto Policy Storage Txn Std

section Lookups

variable {self : PackedCoordinatorPrefix} {principal : PrincipalDigest} {key : IdempotencyKey} {outcome : TransactionOutcome}
  {r : BlobReference} {id : BlobId} {first : CommitRevision}

theorem PackedCoordinatorPrefix.retry_some : self.retry principal key = .ok (some outcome) ↔
    self.retries[(RetryKey.mk principal key).bytes]? = some (outcomeValue outcome) ∧
    outcome.revision.value ≤ self.revision.value := by
  unfold PackedCoordinatorPrefix.retry
  cases found : self.retries[(RetryKey.mk principal key).bytes]? with
  | none => simp [found, pure, Except.pure]
  | some value =>
    simp only [found, Option.some.injEq]
    constructor
    · intro h
      obtain ⟨⟨principal', key', outcome'⟩, decoded, h⟩ := bind_ok h
      cases h
      obtain ⟨entry, below⟩ := decodeOutcome_ok.mp (mapError_ok_iff.mp decoded)
      exact ⟨congrArg IndexEntry.value entry, below⟩
    · rintro ⟨rfl, below⟩
      have decoded : decodeOutcome (RetryKey.mk principal key).bytes (outcomeValue outcome) self.revision =
          .ok (principal, key, outcome) := decodeOutcome_ok.mpr ⟨rfl, below⟩
      rw [decoded]
      rfl

theorem PackedCoordinatorPrefix.transaction_some :
    self.transaction outcome.transactionId = .ok (some (principal, outcome)) ↔
      self.transactions[outcome.transactionId.bytes.bytes]? = some (transactionValue principal outcome) ∧
      outcome.revision.value ≤ self.revision.value := by
  unfold PackedCoordinatorPrefix.transaction
  cases found : self.transactions[outcome.transactionId.bytes.bytes]? with
  | none => simp [pure, Except.pure]
  | some value =>
    simp only [Option.some.injEq, mapError_ok_iff]
    constructor
    · intro h
      obtain ⟨⟨principal', outcome'⟩, decoded, _, -, h⟩ := bind_ok₂ h
      cases h
      exact decodeTransaction_ok.mp decoded
    · rintro ⟨rfl, below⟩
      rw [decodeTransaction_ok.mpr ⟨rfl, below⟩, ok_bind]
      simp only [require_pos]
      rfl

theorem PackedCoordinatorPrefix.owner_some (shape : r.scope = self.scope ∧ r.validReferenceShape = true) :
    self.owner r.id = .ok (some (r, principal)) ↔ self.owners[r.id.bytes]? = some (ownerValue r principal) := by
  unfold PackedCoordinatorPrefix.owner
  cases found : self.owners[r.id.bytes]? with
  | none => simp [pure, Except.pure]
  | some value =>
    simp only [Option.some.injEq]
    constructor
    · intro h
      obtain ⟨owner, decoded, h⟩ := bind_ok h
      cases h
      exact congrArg IndexEntry.value (decodeOwner_ok.mp (mapError_ok_iff.mp decoded)).1
    · rintro rfl
      rw [decodeOwner_ok.mpr ⟨rfl, shape⟩]
      rfl

theorem PackedCoordinatorPrefix.owner_none : self.owner id = .ok none ↔ self.owners[id.bytes]? = none := by
  unfold PackedCoordinatorPrefix.owner
  cases found : self.owners[id.bytes]? with
  | none => simp [pure, Except.pure]
  | some value =>
    simp only [reduceCtorEq, iff_false]
    intro h
    obtain ⟨owner, -, h⟩ := bind_ok h
    cases h

theorem PackedCoordinatorPrefix.firstRevision_some : self.firstRevision id = .ok (some first) ↔
    self.firstRevisions[id.bytes]? = some (bigEndian 8 first.value) ∧ first.value ≤ self.revision.value := by
  unfold PackedCoordinatorPrefix.firstRevision
  cases found : self.firstRevisions[id.bytes]? with
  | none => simp [pure, Except.pure]
  | some value =>
    simp only [Option.some.injEq]
    constructor
    · intro h
      obtain ⟨revision, decoded, h⟩ := bind_ok h
      cases h
      exact (decodeFirstReference_ok.mp (mapError_ok_iff.mp decoded)).2
    · rintro ⟨rfl, below⟩
      rw [decodeFirstReference_ok.mpr ⟨Octets.length_bytes _, rfl, below⟩]
      rfl

end Lookups

section Pass

variable {self : PackedCoordinatorPrefix} {limits : PackedCoordinatorAdmissionLimits} {t : RecoveredTransaction}
  {r : BlobReference} {n m : Nat}

theorem matchPackedReference_ok (shape : r.scope = self.scope ∧ r.validReferenceShape = true)
    (within : t.revision.value ≤ self.revision.value) : matchPackedReference self t n r = .ok m ↔
      (∃ principal first, Witnessed self.owners self.firstRevisions t r principal first) ∧
      m = n + if claims self.firstRevisions t r then 1 else 0 := by
  unfold matchPackedReference
  constructor
  · intro h
    obtain ⟨owner, looked, witness, known, ⟨actual, principal⟩, present, first, seen, h⟩ := bind_ok₄ h
    obtain ⟨_, checked, rest⟩ := bind_ok h
    obtain ⟨rfl, le⟩ := require_ok.mp checked
    rw [orError_ok.mp present] at looked
    rw [orError_ok.mp seen] at known
    have ownerAt := (PackedCoordinatorPrefix.owner_some shape).mp looked
    obtain ⟨firstAt, -⟩ := PackedCoordinatorPrefix.firstRevision_some.mp known
    split at rest
    · rename_i own
      obtain ⟨_, principals, rest⟩ := bind_ok rest
      cases rest
      rw [if_pos ((claims_iff firstAt).mpr own)]
      exact ⟨⟨principal, first, ownerAt, firstAt, le, fun _ => require_ok.mp principals⟩, rfl⟩
    · rename_i other
      cases rest
      rw [if_neg (mt (claims_iff firstAt).mp other)]
      exact ⟨⟨principal, first, ownerAt, firstAt, le, fun own => absurd own other⟩, rfl⟩
  · rintro ⟨⟨principal, first, witnessed⟩, rfl⟩
    have looked := (PackedCoordinatorPrefix.owner_some shape).mpr witnessed.owner
    have known := PackedCoordinatorPrefix.firstRevision_some.mpr ⟨witnessed.revision, witnessed.le.trans within⟩
    simp only [looked, known, ok_bind, orError, require_pos _ (⟨trivial, witnessed.le⟩ : True ∧ _)]
    by_cases own : first = t.revision
    · rw [if_pos own, if_pos ((claims_iff witnessed.revision).mpr own), require_pos _ (witnessed.own own)]
      rfl
    · rw [if_neg own, if_neg (mt (claims_iff witnessed.revision).mp own)]
      rfl

theorem matchPackedTransaction_ok (shapes : ∀ r ∈ t.references, r.scope = self.scope ∧ r.validReferenceShape = true)
    (within : t.revision.value ≤ self.revision.value) (outcome : t.outcome.revision = t.revision) :
    matchPackedTransaction self limits n t = .ok m ↔
      (t.references.length ≤ limits.maximumReferences ∧
        self.retries[t.retryKey.bytes]? = some (outcomeValue t.outcome) ∧
        self.transactions[t.outcome.transactionId.bytes.bytes]? = some (transactionValue t.principal t.outcome) ∧
        ∀ r ∈ t.references, ∃ principal first, Witnessed self.owners self.firstRevisions t r principal first) ∧
      m = n + (t.references.map fun r => if claims self.firstRevisions t r then 1 else 0).sum := by
  have below : t.outcome.revision.value ≤ self.revision.value := by rwa [outcome]
  have each : ∀ r ∈ t.references, ∀ n m, matchPackedReference self t n r = .ok m ↔
      (∃ principal first, Witnessed self.owners self.firstRevisions t r principal first) ∧
      m = n + if claims self.firstRevisions t r then 1 else 0 :=
    fun r mem n m => matchPackedReference_ok (shapes r mem) within
  unfold matchPackedTransaction
  constructor
  · intro h
    obtain ⟨_, few, retry, looked, _, same, actual, found, h⟩ := bind_ok₄ h
    obtain ⟨_, own, h⟩ := bind_ok h
    rw [require_ok.mp same] at looked
    rw [require_ok.mp own] at found
    obtain ⟨witnessed, count⟩ := (foldlM_count_iff each).mp h
    exact ⟨⟨require_ok.mp few, (PackedCoordinatorPrefix.retry_some.mp looked).1,
      (PackedCoordinatorPrefix.transaction_some.mp found).1, witnessed⟩, count⟩
  · rintro ⟨⟨few, retry, transaction, witnessed⟩, count⟩
    have looked := PackedCoordinatorPrefix.retry_some.mpr ⟨retry, below⟩
    have found := PackedCoordinatorPrefix.transaction_some.mpr ⟨transaction, below⟩
    rw [require_pos _ few, ok_bind, looked, ok_bind, require_pos _ rfl, ok_bind, found, ok_bind, require_pos _ rfl]
    exact (foldlM_count_iff each).mpr ⟨witnessed, count⟩

end Pass

/-! ### Admission -/

def packedOf (scope : NamespaceRef) (revision : CommitRevision) (certificateDigest : Octets 32)
    (ts : List RecoveredTransaction) : PackedCoordinatorPrefix :=
  ⟨scope, revision, certificateDigest, outcomeFamily ts, transactionFamily ts, ownerFamily ts, firstReferenceFamily ts⟩

/-- The root lists what the journal determines up to its revision. -/
structure PackedRoot (recovery : AuthenticatedIndexRecovery) (ts : List RecoveredTransaction) (root : CertifiedPackedRoot) :
    Prop where
  inScope : root.scope = recovery.scope
  profile : root.profile = coordinatorPackedProfile
  certified : recovery.certificateAnchor root.revision = some root.certificateDigest
  families : root.families =
    (packedOf recovery.scope root.revision root.certificateDigest (upTo root.revision ts)).families

structure SufficientPacked (limits : PackedCoordinatorAdmissionLimits) (revision : CommitRevision)
    (ts : List RecoveredTransaction) : Prop where
  groups : revision.value ≤ limits.maximumGroups
  batch : limits.maximumReferences ≤ maxBatchDeltas
  references : ∀ t ∈ ts, t.references.length ≤ limits.maximumReferences
  journal : limits.maximumOwners ≤ maxCommittedBlobsPerJournal
  owners : (firstReferences ts).length ≤ limits.maximumOwners

section Admission

variable [Primitives] {recovery : AuthenticatedIndexRecovery} {ts : List RecoveredTransaction} {root : CertifiedPackedRoot}
  {limits : PackedCoordinatorAdmissionLimits}

theorem Reads.each {β : Type} {visitor : β → RecoveredTransaction → Except TransactionError β} {init : β}
    (reads : Reads recovery ts) {revision : CommitRevision} (within : revision.value ≤ ts.length) {maximum : Nat}
    (enough : revision.value ≤ maximum) :
    recovery.eachTransaction .first revision maximum visitor init = (upTo revision ts).foldlM visitor init := by
  obtain ⟨groups, ranged, captured⟩ := reads.range within enough
  rw [AuthenticatedIndexRecovery.eachTransaction, ranged, mapError_ok, ok_bind, foldlM_mapM (mapM_mapError captured)]

theorem packedPass_ok (self : PackedCoordinatorPrefix) (reads : Reads recovery ts) (inScope : self.scope = recovery.scope)
    (within : self.revision.value ≤ ts.length) (enough : self.revision.value ≤ limits.maximumGroups) {count : Nat} :
    recovery.eachTransaction .first self.revision limits.maximumGroups (matchPackedTransaction self limits) 0 = .ok count ↔
      (∀ t ∈ upTo self.revision ts, t.references.length ≤ limits.maximumReferences ∧
        self.retries[t.retryKey.bytes]? = some (outcomeValue t.outcome) ∧
        self.transactions[t.outcome.transactionId.bytes.bytes]? = some (transactionValue t.principal t.outcome) ∧
        ∀ r ∈ t.references, ∃ principal first, Witnessed self.owners self.firstRevisions t r principal first) ∧
      count = (claimed self.firstRevisions (upTo self.revision ts)).length := by
  have coherent := reads.coherent.restrict self.revision
  have step : ∀ t ∈ upTo self.revision ts, ∀ n m, matchPackedTransaction self limits n t = .ok m ↔
      (t.references.length ≤ limits.maximumReferences ∧
        self.retries[t.retryKey.bytes]? = some (outcomeValue t.outcome) ∧
        self.transactions[t.outcome.transactionId.bytes.bytes]? = some (transactionValue t.principal t.outcome) ∧
        ∀ r ∈ t.references, ∃ principal first, Witnessed self.owners self.firstRevisions t r principal first) ∧
      m = n + (t.references.map fun r => if claims self.firstRevisions t r then 1 else 0).sum := by
    intro t mem n m
    refine matchPackedTransaction_ok ?_ (of_decide_eq_true (List.mem_filter.mp mem).2) (coherent.outcomes t mem)
    rw [inScope]
    exact coherent.shapes t mem
  rw [reads.each within enough, foldlM_count_iff step, length_claimed, Nat.zero_add]

omit [Primitives] in
theorem families_eq (numbers : root.families.map (·.1) = [1, 2, 3, 4]) :
    root.families = [(1, root.tree 0), (2, root.tree 1), (3, root.tree 2), (4, root.tree 3)] := by
  match same : root.families with
  | [] | [_] | [_, _] | [_, _, _] | _ :: _ :: _ :: _ :: _ :: _ => simp [same] at numbers
  | [a, b, c, d] =>
    rw [same] at numbers
    simp only [List.map_cons, List.map_nil, List.cons.injEq, and_true] at numbers
    obtain ⟨one, two, three, four⟩ := numbers
    simp [CertifiedPackedRoot.tree, same, ← one, ← two, ← three, ← four]

theorem admitPacked_ok (reads : Reads recovery ts) {self : PackedCoordinatorPrefix} : admitPackedCoordinatorPrefix recovery root limits = .ok self ↔
    self = packedOf recovery.scope root.revision root.certificateDigest (upTo root.revision ts) ∧
    PackedRoot recovery ts root ∧ SufficientPacked limits root.revision (upTo root.revision ts) := by
  have coherent := reads.coherent.restrict root.revision
  have keys := firstReferenceKeys_nodup (upTo root.revision ts)
  unfold admitPackedCoordinatorPrefix
  constructor
  · intro h
    obtain ⟨_, shape, h⟩ := bind_ok h
    obtain ⟨inScope, profile, numbers, retries, transactions, sizes⟩ := require_ok.mp shape
    obtain ⟨_, limited, h⟩ := bind_ok h
    obtain ⟨groups, -, batch, journal, few⟩ := require_ok.mp limited
    obtain ⟨_, anchored, h⟩ := bind_ok h
    have certified := require_ok.mp anchored
    obtain ⟨within, -⟩ := reads.of_certificate certified
    have length := reads.coherent.length_upTo within
    obtain ⟨count, passed, _, counted, h⟩ := bind_ok₂ h
    cases h
    obtain ⟨each, number⟩ := (packedPass_ok (root.open recovery.scope) reads rfl within groups).mp passed
    obtain ⟨owners, firsts, size⟩ := families_of_witnessed coherent (fun t mem => (each t mem).2.2.2) sizes.symm
      (number.symm.trans (require_ok.mp counted))
    have retryTree : root.tree 0 = outcomeFamily (upTo root.revision ts) :=
      (eq_tabulate_iff coherent.outcomeKeys).mpr ⟨retries.trans length.symm, fun t mem => (each t mem).2.1⟩
    have transactionTree : root.tree 1 = transactionFamily (upTo root.revision ts) :=
      (eq_tabulate_iff coherent.transactionKeys).mpr ⟨transactions.trans length.symm, fun t mem => (each t mem).2.2.1⟩
    have same : root.open recovery.scope = packedOf recovery.scope root.revision root.certificateDigest (upTo root.revision ts) := by
      rw [packedOf, ← retryTree, ← transactionTree, ← owners, ← firsts]
      rfl
    refine ⟨same, ⟨inScope, profile, certified, ?_⟩, groups, batch, fun t mem => (each t mem).1, journal, size ▸ few⟩
    rw [families_eq numbers, ← same]
    rfl
  · rintro ⟨rfl, exact, enough⟩
    obtain ⟨within, -⟩ := reads.of_certificate exact.certified
    have length := reads.coherent.length_upTo within
    have same : root.open recovery.scope = packedOf recovery.scope root.revision root.certificateDigest (upTo root.revision ts) := by
      simp only [CertifiedPackedRoot.open, CertifiedPackedRoot.tree, exact.families]
      rfl
    have numbers : root.families.map (·.1) = [1, 2, 3, 4] := by
      rw [exact.families]
      rfl
    have retrySize : (root.tree 0).size = root.revision.value :=
      (congrArg (·.retries.size) same).trans ((tabulate_size coherent.outcomeKeys).trans length)
    have transactionSize : (root.tree 1).size = root.revision.value :=
      (congrArg (·.transactions.size) same).trans ((tabulate_size coherent.transactionKeys).trans length)
    have ownerSize : (root.tree 2).size = (firstReferences (upTo root.revision ts)).length :=
      (congrArg (·.owners.size) same).trans (tabulate_size keys)
    have firstSize : (root.tree 3).size = (firstReferences (upTo root.revision ts)).length :=
      (congrArg (·.firstRevisions.size) same).trans (tabulate_size keys)
    have outcomes : root.revision.value ≤ maxOutcomesPerNamespace := length ▸ coherent.fewTransactions
    obtain ⟨each, count⟩ := families_witnessed coherent
    have passed : recovery.eachTransaction .first root.revision limits.maximumGroups
        (matchPackedTransaction (packedOf recovery.scope root.revision root.certificateDigest (upTo root.revision ts)) limits) 0 =
          .ok (firstReferences (upTo root.revision ts)).length :=
      (packedPass_ok (packedOf recovery.scope root.revision root.certificateDigest (upTo root.revision ts))
        reads rfl within enough.groups).mpr
        ⟨fun t mem => ⟨enough.references t mem, tabulate_found coherent.outcomeKeys mem,
          tabulate_found coherent.transactionKeys mem, each t mem⟩, count.symm⟩
    have final : (firstReferences (upTo root.revision ts)).length =
        (packedOf recovery.scope root.revision root.certificateDigest (upTo root.revision ts)).ownerCount :=
      (tabulate_size keys).symm
    rw [require_pos _ ⟨exact.inScope, exact.profile, numbers, retrySize, transactionSize, ownerSize.trans firstSize.symm⟩,
      ok_bind, require_pos _ ⟨enough.groups, outcomes, enough.batch, enough.journal, ownerSize ▸ enough.owners⟩, ok_bind,
      require_pos _ exact.certified, ok_bind, same]
    simp only [passed, ok_bind, require_pos _ final]
    rfl

end Admission

end Uste.Metadata
