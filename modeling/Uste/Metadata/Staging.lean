import Uste.Metadata.PackedExact

/-!
Staging extends the metadata of a prefix by its next transaction. What the journal determines for
the longer prefix is what staging builds from the shorter one.
-/

namespace Uste.Metadata

open Types Crypto Policy Storage Txn Std List

/-! ### The next transaction of a prefix -/

section Next

variable {scope : NamespaceRef} {ts : List RecoveredTransaction} {t : RecoveredTransaction} {r : BlobReference}

theorem Coherent.next_revision (h : Coherent scope (ts ++ [t])) : t.revision.value = ts.length + 1 := by
  have revisions := h.revisions
  rw [map_append, length_append, length_singleton, List.range'_1_concat] at revisions
  have last : t.revision.value = 1 + ts.length := by simpa using append_inj_right' revisions rfl
  omega

theorem RecoveredTransaction.references_inOrder (t : RecoveredTransaction) : InOrder (fun r : BlobReference => r.id.bytes) t.references := by
  unfold RecoveredTransaction.references
  cases t.blobInventory with
  | none => exact List.Pairwise.nil
  | some inventory => exact inventory.valid.sorted

def newOwners (ts : List RecoveredTransaction) (t : RecoveredTransaction) : List BlobReference :=
  t.references.filter fun r => decide (∀ f ∈ firstReferences ts, f.reference.id ≠ r.id)

theorem newReferences_eq : newReferences (firstReferences ts) t = (newOwners ts t).map fun r => ⟨t, r⟩ := rfl

theorem newOwners_inOrder : InOrder (fun r : BlobReference => r.id.bytes) (newOwners ts t) :=
  t.references_inOrder.sublist filter_sublist

theorem newOwners_new (mem : r ∈ newOwners ts t) : ∀ f ∈ firstReferences ts, f.reference.id ≠ r.id := by
  simpa using (mem_filter.mp mem).2

theorem length_firstReferences_snoc :
    (firstReferences (ts ++ [t])).length = (firstReferences ts).length + (newOwners ts t).length := by
  rw [firstReferences_snoc, length_append, newReferences_eq, length_map]

theorem extend_map {δ γ : Type} {key value : δ → List UInt8} {base : Family} {g : γ → δ} {items : List γ} :
    extend key value base (items.map g) = extend (fun item => key (g item)) (fun item => value (g item)) base items := by
  simp [extend, foldl_map]

theorem outcomeFamily_snoc : extend (fun t : RecoveredTransaction => t.retryKey.bytes) (fun t => outcomeValue t.outcome)
    (outcomeFamily ts) [t] = outcomeFamily (ts ++ [t]) := extend_tabulate

theorem transactionFamily_snoc : extend (fun t : RecoveredTransaction => t.outcome.transactionId.bytes.bytes)
    (fun t => transactionValue t.principal t.outcome) (transactionFamily ts) [t] = transactionFamily (ts ++ [t]) :=
  extend_tabulate

theorem ownerFamily_snoc : extend (fun r : BlobReference => r.id.bytes) (fun r => ownerValue r t.principal) (ownerFamily ts)
    (newOwners ts t) = ownerFamily (ts ++ [t]) := by
  rw [ownerFamily, ownerFamily, firstReferences_snoc, ← extend_tabulate, newReferences_eq, extend_map]

theorem firstReferenceFamily_snoc : extend (fun r : BlobReference => r.id.bytes) (fun _ => bigEndian 8 t.revision.value)
    (firstReferenceFamily ts) (newOwners ts t) = firstReferenceFamily (ts ++ [t]) := by
  rw [firstReferenceFamily, firstReferenceFamily, firstReferences_snoc, ← extend_tabulate, newReferences_eq, extend_map]

theorem not_mem_tabulate {δ : Type} {key value : δ → List UInt8} {items : List δ} {k : List UInt8}
    (absent : ∀ item ∈ items, key item ≠ k) : k ∉ tabulate key value items := not_mem_of_none (tabulate_none absent)

theorem Coherent.retry_new (h : Coherent scope (ts ++ [t])) : t.retryKey.bytes ∉ outcomeFamily ts := by
  refine not_mem_tabulate fun item mem same => ?_
  have nodup := h.outcomeKeys
  rw [map_append, nodup_append] at nodup
  exact nodup.2.2 _ (mem_map_of_mem mem) _ (mem_map_of_mem mem_cons_self) same

theorem Coherent.transaction_new (h : Coherent scope (ts ++ [t])) :
    t.outcome.transactionId.bytes.bytes ∉ transactionFamily ts := by
  refine not_mem_tabulate fun item mem same => ?_
  have nodup := h.transactionKeys
  rw [map_append, nodup_append] at nodup
  exact nodup.2.2 _ (mem_map_of_mem mem) _ (mem_map_of_mem mem_cons_self) same

theorem owner_new (mem : r ∈ newOwners ts t) : r.id.bytes ∉ ownerFamily ts :=
  not_mem_tabulate fun f there same => newOwners_new mem f there (Octets.ext same)

theorem firstReference_new (mem : r ∈ newOwners ts t) : r.id.bytes ∉ firstReferenceFamily ts :=
  not_mem_tabulate fun f there same => newOwners_new mem f there (Octets.ext same)

theorem recordNewOwner_eq (h : Coherent scope (ts ++ [t])) (mem : r ∈ t.references) (count maximum : Nat)
    (found : List BlobReference) : recordNewOwner (ownerIn ts r.id) count maximum found r =
      if ∀ f ∈ firstReferences ts, f.reference.id ≠ r.id then
        if count + found.length + 1 ≤ maximum then .ok (found ++ [r]) else .error .resourceLimit
      else .ok found := by
  by_cases new : ∀ f ∈ firstReferences ts, f.reference.id ≠ r.id
  · have absent : ownerIn ts r.id = none := by
      rw [ownerIn, List.find?_eq_none.mpr (by simpa using new), Option.map_none]
    rw [if_pos new, absent]
    by_cases room : count + found.length + 1 ≤ maximum
    · simp only [recordNewOwner, require_pos _ room, ok_bind, if_pos room]
      rfl
    · simp only [recordNewOwner, require, if_neg room]
      rfl
  · obtain ⟨f, known⟩ : ∃ f, (firstReferences ts).find? (fun f => f.reference.id = r.id) = some f := by
      rw [← Option.isSome_iff_exists, List.find?_isSome]
      simpa using new
    have same : f.reference.id = r.id := by simpa using List.find?_some known
    obtain ⟨transaction, reference⟩ := firstReferences_mem (mem_of_find?_eq_some known)
    have equal : f.reference = r :=
      h.agree _ (mem_append_left _ transaction) _ (mem_append_right _ mem_cons_self) _ reference _ mem same
    rw [if_neg new, ownerIn, known, Option.map_some, equal]
    simp only [recordNewOwner, require_pos, ok_bind]
    rfl

theorem newOwner_fold (h : Coherent scope (ts ++ [t])) {count maximum : Nat}
    {record : List BlobReference → BlobReference → Except TransactionError (List BlobReference)}
    (records : ∀ r ∈ t.references, ∀ found, record found r = recordNewOwner (ownerIn ts r.id) count maximum found r)
    (room : count ≤ maximum) {out : List BlobReference} :
    t.references.foldlM record [] = .ok out ↔ out = newOwners ts t ∧ count + out.length ≤ maximum := by
  have pass : ∀ (references found : List BlobReference), (∀ r ∈ references, r ∈ t.references) → count + found.length ≤ maximum →
      (references.foldlM record found = .ok out ↔
        out = found ++ references.filter (fun r => decide (∀ f ∈ firstReferences ts, f.reference.id ≠ r.id)) ∧
        count + out.length ≤ maximum) := by
    intro references
    induction references with
    | nil =>
      intro found _ bounded
      simp only [foldlM_nil, pure, Except.pure, Except.ok.injEq, filter_nil, append_nil]
      constructor
      · rintro rfl
        exact ⟨rfl, bounded⟩
      · rintro ⟨rfl, -⟩
        rfl
    | cons r rest ih =>
      intro found within bounded
      have others : ∀ r ∈ rest, r ∈ t.references := fun r mem => within r (mem_cons_of_mem _ mem)
      have here := within r mem_cons_self
      rw [foldlM_cons, records r here, recordNewOwner_eq h here]
      by_cases new : ∀ f ∈ firstReferences ts, f.reference.id ≠ r.id
      · rw [if_pos new, filter_cons_of_pos (by simpa using new)]
        by_cases fits : count + found.length + 1 ≤ maximum
        · rw [if_pos fits, ok_bind, ih _ others (by simpa [Nat.add_assoc] using fits), append_assoc, singleton_append]
        · rw [if_neg fits]
          constructor
          · intro h
            cases h
          · rintro ⟨rfl, small⟩
            simp only [length_append, length_cons] at small
            omega
      · rw [if_neg new, filter_cons_of_neg (by simpa using new), ok_bind]
        exact ih _ others bounded
  have whole := pass t.references [] (fun r mem => mem) (by simpa using room)
  rwa [nil_append] at whole

end Next

/-! ### Packed trees -/

def Prior (scope : NamespaceRef) (ts : List RecoveredTransaction) : Option PackedCoordinatorPrefix → Prop
  | none => ts = []
  | some base => base.revision.value = ts.length ∧ ∃ digest, base = packedOf scope base.revision digest ts

structure SufficientStaging (limits : PackedCoordinatorLimits) (ts : List RecoveredTransaction) (t : RecoveredTransaction) :
    Prop where
  batch : limits.maximumReferences ≤ maxBatchDeltas
  references : t.references.length ≤ limits.maximumReferences
  journal : limits.maximumOwners ≤ maxCommittedBlobsPerJournal
  owners : (firstReferences (ts ++ [t])).length ≤ limits.maximumOwners
  deltas : limits.maximumDeltas ≤ maxBatchDeltas
  one : 1 ≤ limits.maximumDeltas
  few : (newOwners ts t).length ≤ limits.maximumDeltas

section Packed

variable {scope : NamespaceRef} {ts : List RecoveredTransaction} {t : RecoveredTransaction} {r : BlobReference}
  {base : Option PackedCoordinatorPrefix} {limits : PackedCoordinatorLimits} {self : PackedCoordinatorPrefix}

section

variable (prior : Prior scope ts base)

include prior

theorem Prior.trees :
    (base.map (·.retries)).getD ∅ = outcomeFamily ts ∧ (base.map (·.transactions)).getD ∅ = transactionFamily ts ∧
    (base.map (·.owners)).getD ∅ = ownerFamily ts ∧ (base.map (·.firstRevisions)).getD ∅ = firstReferenceFamily ts := by
  cases base with
  | none =>
    obtain rfl : ts = [] := prior
    exact ⟨rfl, rfl, rfl, rfl⟩
  | some base =>
    obtain ⟨-, digest, same⟩ := prior
    rw [same]
    exact ⟨rfl, rfl, rfl, rfl⟩

theorem Prior.ownerCount : (base.map (·.ownerCount)).getD 0 = (firstReferences ts).length := by
  cases base with
  | none =>
    obtain rfl : ts = [] := prior
    rfl
  | some base =>
    obtain ⟨-, digest, same⟩ := prior
    rw [same]
    exact tabulate_size (firstReferenceKeys_nodup ts)

theorem Prior.owner (h : Coherent scope (ts ++ [t])) (id : BlobId) : existingOwner base id = .ok (ownerIn ts id) := by
  cases base with
  | none =>
    obtain rfl : ts = [] := prior
    rfl
  | some base =>
    obtain ⟨-, digest, same⟩ := prior
    unfold existingOwner
    cases known : (firstReferences ts).find? (fun f => f.reference.id = id) with
    | none =>
      have new : ∀ f ∈ firstReferences ts, f.reference.id ≠ id := by simpa using List.find?_eq_none.mp known
      rw [ownerIn, known, same]
      exact PackedCoordinatorPrefix.owner_none.mpr (tabulate_none fun f there equal => new f there (Octets.ext equal))
    | some f =>
      have first := mem_of_find?_eq_some known
      have equal : f.reference.id = id := by simpa using List.find?_some known
      obtain ⟨transaction, reference⟩ := firstReferences_mem first
      have shape := h.shapes _ (mem_append_left _ transaction) _ reference
      rw [ownerIn, known, Option.map_some, same, ← equal]
      exact (PackedCoordinatorPrefix.owner_some shape).mpr (tabulate_found (firstReferenceKeys_nodup ts) first)

theorem packedNewOwner_fold (h : Coherent scope (ts ++ [t])) {out : List BlobReference}
    (room : (firstReferences ts).length ≤ limits.maximumOwners) :
    t.references.foldlM (packedNewOwner limits base) [] = .ok out ↔
      out = newOwners ts t ∧ (firstReferences ts).length + out.length ≤ limits.maximumOwners := by
  refine newOwner_fold h (fun r _ found => ?_) room
  rw [packedNewOwner, prior.owner h, ok_bind, prior.ownerCount]

end

variable {out : Family}

theorem stageTree_ok {δ : Type} (key value : δ → List UInt8) (items : List δ) {family : Family}
    (inOrder : InOrder key items) (new : ∀ item ∈ items, key item ∉ family) :
    stageTree limits family (items.map fun item => .insertion (key item) (value item)) = .ok out ↔
      out = extend key value family items ∧ limits.maximumDeltas ≤ maxBatchDeltas ∧ items.length ≤ limits.maximumDeltas := by
  unfold stageTree
  rw [mergeRun_insertions.mpr ⟨inOrder, new, rfl⟩, mapError_ok, ok_bind, length_map]
  constructor
  · intro h
    obtain ⟨_, within, h⟩ := bind_ok h
    cases h
    exact ⟨rfl, require_ok.mp within⟩
  · rintro ⟨rfl, within⟩
    rw [require_pos _ within]
    rfl

theorem stageRetries_ok (h : Coherent scope (ts ++ [t])) :
    stageTree limits (outcomeFamily ts) [.insertion t.retryKey.bytes (outcomeValue t.outcome)] = .ok out ↔
      out = outcomeFamily (ts ++ [t]) ∧ limits.maximumDeltas ≤ maxBatchDeltas ∧ 1 ≤ limits.maximumDeltas := by
  rw [← outcomeFamily_snoc]
  exact stageTree_ok (fun t : RecoveredTransaction => t.retryKey.bytes) (fun t => outcomeValue t.outcome) [t]
    (pairwise_singleton _ _) (by simpa using h.retry_new)

theorem stageTransactions_ok (h : Coherent scope (ts ++ [t])) : stageTree limits (transactionFamily ts)
        [.insertion t.outcome.transactionId.bytes.bytes (transactionValue t.principal t.outcome)] = .ok out ↔
      out = transactionFamily (ts ++ [t]) ∧ limits.maximumDeltas ≤ maxBatchDeltas ∧ 1 ≤ limits.maximumDeltas := by
  rw [← transactionFamily_snoc]
  exact stageTree_ok (fun t : RecoveredTransaction => t.outcome.transactionId.bytes.bytes)
    (fun t => transactionValue t.principal t.outcome) [t] (pairwise_singleton _ _) (by simpa using h.transaction_new)

theorem stageOwners_ok :
    stageTree limits (ownerFamily ts) ((newOwners ts t).map fun r => .insertion r.id.bytes (ownerValue r t.principal)) =
        .ok out ↔
      out = ownerFamily (ts ++ [t]) ∧ limits.maximumDeltas ≤ maxBatchDeltas ∧ (newOwners ts t).length ≤ limits.maximumDeltas := by
  rw [← ownerFamily_snoc]
  exact stageTree_ok (fun r : BlobReference => r.id.bytes) (fun r => ownerValue r t.principal) _ newOwners_inOrder
    fun r mem => owner_new mem

theorem stageFirstRevisions_ok : stageTree limits (firstReferenceFamily ts)
        ((newOwners ts t).map fun r => .insertion r.id.bytes (bigEndian 8 t.revision.value)) = .ok out ↔
      out = firstReferenceFamily (ts ++ [t]) ∧ limits.maximumDeltas ≤ maxBatchDeltas ∧
      (newOwners ts t).length ≤ limits.maximumDeltas := by
  rw [← firstReferenceFamily_snoc]
  exact stageTree_ok (fun r : BlobReference => r.id.bytes) (fun _ => bigEndian 8 t.revision.value) _ newOwners_inOrder
    fun r mem => firstReference_new mem

theorem Prior.next (prior : Prior scope ts base) (h : Coherent scope (ts ++ [t])) :
    t.scope = scope ∧ (base.isNone = true → t.revision = .first) ∧
    ∀ b ∈ base, b.scope = scope ∧ b.revision.value + 1 = t.revision.value := by
  have next := h.next_revision
  refine ⟨h.inScope t (by simp), fun absent => ?_, fun b mem => ?_⟩
  · obtain rfl := Option.isNone_iff_eq_none.mp absent
    obtain rfl : ts = [] := prior
    exact CommitRevision.ext next
  · obtain rfl := Option.mem_def.mp mem
    obtain ⟨revision, digest, same⟩ := prior
    refine ⟨?_, by omega⟩
    rw [same]
    rfl

theorem stagePacked_ok (prior : Prior scope ts base) (h : Coherent scope (ts ++ [t])) :
    stagePackedCoordinatorPrefix scope base t limits = .ok self ↔
      self = packedOf scope t.revision t.certificateDigest (ts ++ [t]) ∧ SufficientStaging limits ts t := by
  obtain ⟨retryTree, transactionTree, ownerTree, firstTree⟩ := prior.trees
  have next := h.next_revision
  have inScope : t.scope = scope := h.inScope t (by simp)
  have total : (firstReferences (ts ++ [t])).length = (firstReferences ts).length + (newOwners ts t).length :=
    length_firstReferences_snoc
  have length : (ts ++ [t]).length = t.revision.value := by
    rw [length_append, length_singleton, next]
  unfold stagePackedCoordinatorPrefix
  rw [retryTree, transactionTree, ownerTree, firstTree, require_pos _ (prior.next h), ok_bind]
  constructor
  · intro staged
    obtain ⟨_, limited, staged⟩ := bind_ok staged
    obtain ⟨batch, references, journal, -, few⟩ := require_ok.mp limited
    have room : (firstReferences ts).length ≤ limits.maximumOwners := by
      rw [← prior.ownerCount]
      cases base with
      | none => exact Nat.zero_le _
      | some base => exact few base rfl
    obtain ⟨found, owned, staged⟩ := bind_ok staged
    obtain ⟨rfl, owners⟩ := (packedNewOwner_fold prior h room).mp owned
    obtain ⟨retries, stagedRetries, transactions, stagedTransactions, ownerTrees, stagedOwners, staged⟩ := bind_ok₃ staged
    obtain ⟨firsts, stagedFirsts, _, -, staged⟩ := bind_ok₂ staged
    cases staged
    obtain ⟨rfl, deltas, one⟩ := (stageRetries_ok h).mp stagedRetries
    obtain ⟨rfl, -⟩ := (stageTransactions_ok h).mp stagedTransactions
    obtain ⟨rfl, -, more⟩ := stageOwners_ok.mp stagedOwners
    obtain ⟨rfl, -⟩ := stageFirstRevisions_ok.mp stagedFirsts
    refine ⟨by rw [inScope]; rfl, batch, references, journal, ?_, deltas, one, more⟩
    rw [total]
    exact owners
  · rintro ⟨rfl, enough⟩
    have owners := enough.owners
    rw [total] at owners
    have outcomes : t.revision.value ≤ maxOutcomesPerNamespace := length ▸ h.fewTransactions
    have few : ∀ b ∈ base, b.ownerCount ≤ limits.maximumOwners := by
      intro b mem
      have count := prior.ownerCount
      rw [Option.mem_def.mp mem, Option.map_some, Option.getD_some] at count
      omega
    have owned : t.references.foldlM (packedNewOwner limits base) [] = .ok (newOwners ts t) :=
      (packedNewOwner_fold prior h (by omega)).mpr ⟨rfl, owners⟩
    have retrySize : (outcomeFamily (ts ++ [t])).size = t.revision.value := (tabulate_size h.outcomeKeys).trans length
    have transactionSize : (transactionFamily (ts ++ [t])).size = t.revision.value :=
      (tabulate_size h.transactionKeys).trans length
    have firstSize : (firstReferenceFamily (ts ++ [t])).size = (ownerFamily (ts ++ [t])).size :=
      (tabulate_size (firstReferenceKeys_nodup _)).trans (tabulate_size (firstReferenceKeys_nodup _)).symm
    rw [require_pos _ ⟨enough.batch, enough.references, enough.journal, outcomes, few⟩, ok_bind, owned, ok_bind,
      (stageRetries_ok h).mpr ⟨rfl, enough.deltas, enough.one⟩, ok_bind,
      (stageTransactions_ok h).mpr ⟨rfl, enough.deltas, enough.one⟩, ok_bind,
      stageOwners_ok.mpr ⟨rfl, enough.deltas, enough.few⟩, ok_bind,
      stageFirstRevisions_ok.mpr ⟨rfl, enough.deltas, enough.few⟩, ok_bind]
    refine (congrArg (· >>= _) (require_pos _ ⟨retrySize, transactionSize, firstSize⟩)).trans ?_
    rw [inScope]
    rfl

end Packed

end Uste.Metadata
