import Uste.Txn.Commit

/-!
What a replay that succeeds says about its groups: each decodes, no key and no transaction comes
twice, and the maps it leaves are exactly what the groups determine.
-/

namespace Uste.Txn

open Types Crypto Policy Storage Std List

variable {S : Type} [TransactionState S] [Primitives] {scope : NamespaceRef} {initial : S} {memory memory' : Memory S}
  {group : RecoveredGroup} {groups : List RecoveredGroup} {decoded : DecodedGroup}

omit [TransactionState S] [Primitives] in
theorem mem_of_mapM {ε α β : Type} {f : α → Except ε β} {items : List α} {results : List β}
    (h : items.mapM f = .ok results) : ∀ b ∈ results, ∃ a ∈ items, f a = .ok b := by
  induction items generalizing results with
  | nil =>
    cases h
    exact fun b mem => (not_mem_nil mem).elim
  | cons item items ih =>
    rw [mapM_cons] at h
    obtain ⟨first, here, rest, there, h⟩ := bind_ok₂ h
    cases h
    intro b mem
    rcases mem_cons.mp mem with rfl | mem
    · exact ⟨item, mem_cons_self, here⟩
    · obtain ⟨a, member, found⟩ := ih there b mem
      exact ⟨a, mem_cons_of_mem _ member, found⟩

theorem replay_snoc_ok (h : replay scope initial (groups ++ [group]) = .ok memory') :
    ∃ memory, replay scope initial groups = .ok memory ∧ replayGroup scope memory group = .ok memory' := by
  unfold replay at h
  rw [foldlM_append] at h
  obtain ⟨memory, before, h⟩ := bind_ok h
  obtain ⟨after, step, h⟩ := foldlM_step h
  cases h
  exact ⟨memory, before, step⟩

theorem replayGroup_ok (h : replayGroup scope memory group = .ok memory') :
    ∃ decoded prepared, decodeRecoveredGroup scope group = .ok decoded ∧
      TransactionState.prepare memory.state decoded.request decoded.blobInventory group.revision = .ok prepared ∧
      decoded.retryKey ∉ memory.outcomes ∧ decoded.outcome.transactionId ∉ memory.transactions ∧
      memory' = {
        state := TransactionState.publish memory.state prepared
        outcomes := memory.outcomes.insert decoded.retryKey decoded.outcome
        transactions := memory.transactions.insert decoded.outcome.transactionId (decoded.retryKey.principal, decoded.outcome)
        committedBlobOwners := recordOwners decoded.retryKey.principal memory.committedBlobOwners
          (referencesOf decoded.blobInventory) } := by
  obtain ⟨decoded, decodes, prepared, prepares, _, -, recorded, records, h⟩ := bind_ok₄ h
  obtain ⟨_, -, _, absent, records⟩ := bind_ok₂ records
  obtain ⟨newKey, newTransaction⟩ := require_ok.mp absent
  cases records
  cases h
  exact ⟨decoded, prepared, decodes, mapError_eq_ok prepares, newKey, newTransaction, rfl⟩

/-- What decoding has checked of a group: its request could be accepted, and the digest in it is its own. -/
structure DecodedSoundly (scope : NamespaceRef) (group : RecoveredGroup) (decoded : DecodedGroup) : Prop where
  nonempty : decoded.request ≠ []
  bounded : decoded.request.length ≤ maxRequestBytes
  inScope : ∀ inventory ∈ decoded.blobInventory, inventory.scope = scope
  blobInventory : decoded.blobInventory = group.blobInventory
  digest : decoded.outcome.requestDigest = transactionRequestDigest decoded.request (digestOf decoded.blobInventory)
  revision : decoded.outcome.revision = group.revision

omit [TransactionState S] in
theorem decodeRecoveredGroup_sound (h : decodeRecoveredGroup scope group = .ok decoded) : DecodedSoundly scope group decoded := by
  obtain ⟨_, -, h⟩ := bind_ok h
  replace h := mapError_eq_ok h
  obtain ⟨_, -, _, inScope, _, -, _, lengths, h⟩ := bind_ok₄ h
  obtain ⟨_, -, _, digests, _, -, _, -, h⟩ := bind_ok₄ h
  obtain ⟨_, -, _, -, _, -, _, -, h⟩ := bind_ok₄ h
  obtain ⟨_, -, h⟩ := bind_ok h
  obtain ⟨inventory, request⟩ := require_ok.mp digests
  obtain ⟨nonzero, bounded, whole⟩ := require_ok.mp lengths
  cases h
  have length : (group.encodedGroup.drop groupHeaderBytes).length = group.encodedGroup.length - groupHeaderBytes :=
    length_drop
  refine ⟨fun empty => ?_, by dsimp only; omega, require_ok.mp inScope, rfl, ?_, rfl⟩
  · dsimp only at empty
    rw [empty, length_nil] at length
    omega
  · rw [inventory]
    exact request.symm

/-- The maps hold the outcomes of these groups and nothing else. -/
structure Holds (memory : Memory S) (decoded : List DecodedGroup) : Prop where
  keys : (decoded.map (·.retryKey)).Nodup
  transactionIds : (decoded.map (·.outcome.transactionId)).Nodup
  outcomes : ∀ key outcome, memory.outcomes[key]? = some outcome ↔ ∃ d ∈ decoded, d.retryKey = key ∧ d.outcome = outcome
  transactions : ∀ id owned, memory.transactions[id]? = some owned ↔
    ∃ d ∈ decoded, d.outcome.transactionId = id ∧ (d.retryKey.principal, d.outcome) = owned

/-- A replay that succeeds decodes every group and meets no key and no transaction twice. -/
theorem replay_holds (h : replay scope initial groups = .ok memory) :
    ∃ decoded, groups.mapM (decodeRecoveredGroup scope) = .ok decoded ∧ Holds memory decoded := by
  induction groups using List.reverseRecOn generalizing memory with
  | nil =>
    cases h
    refine ⟨[], rfl, nodup_nil, nodup_nil, ?_, ?_⟩ <;> simp [Memory.initial]
  | append_singleton groups group ih =>
    obtain ⟨before, replayed, step⟩ := replay_snoc_ok h
    obtain ⟨decoded, decodes, holds⟩ := ih replayed
    obtain ⟨new, prepared, decodesNew, -, newKey, newTransaction, rfl⟩ := replayGroup_ok step
    refine ⟨decoded ++ [new], ?_, nodup_snoc holds.outcomes newKey holds.keys,
      nodup_snoc holds.transactions newTransaction holds.transactionIds,
      some_snoc holds.outcomes newKey, some_snoc holds.transactions newTransaction⟩
    rw [mapM_append, decodes, ok_bind, mapM_cons, decodesNew]
    rfl

theorem replay_decodes (h : replay scope initial groups = .ok memory) :
    ∀ g ∈ groups, ∃ decoded, decodeRecoveredGroup scope g = .ok decoded := by
  induction groups using List.reverseRecOn generalizing memory with
  | nil => exact fun g mem => (not_mem_nil mem).elim
  | append_singleton groups group ih =>
    obtain ⟨before, replayed, step⟩ := replay_snoc_ok h
    obtain ⟨decoded, prepared, decodes, -⟩ := replayGroup_ok step
    intro g mem
    rcases mem_append.mp mem with mem | mem
    · exact ih replayed g mem
    · obtain rfl := mem_singleton.mp mem
      exact ⟨decoded, decodes⟩

end Uste.Txn
