import Uste.Txn.Checkpoint

/-!
Resuming from checkpoints. A coordinator captures a checkpoint at its frontier; what is stored is
decoded into a seed that holds the memory of the groups up to that certificate, and every later
opening of the journal from the seed ends with the coordinator of a full opening.
-/

namespace Uste.Txn

open Types Crypto Policy Storage Program FileSystem Std List
open Storage.Session (model)

/-! ### Rebuilding the maps of a seed -/

namespace CoordinatorRecoverySeed

/-- The maps hold these entries and nothing else. -/
structure Collects (entries : List OutcomeEntry) (maps : Outcomes × Transactions) : Prop where
  outcomes : ∀ (key : RetryKey) outcome, maps.1[key]? = some outcome ↔ ∃ e ∈ entries, e.retryKey = key ∧ e.2.2 = outcome
  transactions : ∀ (id : TransactionId) owned, maps.2[id]? = some owned ↔
    ∃ e ∈ entries, e.2.2.transactionId = id ∧ (e.1, e.2.2) = owned
  size : maps.1.size = entries.length

theorem not_mem_of_nodup {κ α δ : Type} {cmp : κ → κ → Ordering} [TransCmp cmp] {map : ExtTreeMap κ α cmp} {key : δ → κ}
    {value : δ → α} {items : List δ} {new : δ} (holds : ∀ k a, map[k]? = some a ↔ ∃ d ∈ items, key d = k ∧ value d = a)
    (nodup : ((items ++ [new]).map key).Nodup) : key new ∉ map := by
  intro there
  obtain ⟨a, found⟩ := mem_iff_exists.mp there
  obtain ⟨d, mem, same, -⟩ := (holds _ _).mp found
  rw [map_append, map_singleton, nodup_append] at nodup
  exact nodup.2.2 _ (mem_map_of_mem mem) _ (mem_singleton_self _) same

theorem addOutcomes_ok {revision : CommitRevision} {entries : List OutcomeEntry}
    (keys : (entries.map OutcomeEntry.retryKey).Nodup) (ids : (entries.map (·.2.2.transactionId)).Nodup)
    (past : ∀ entry ∈ entries, entry.2.2.revision.value ≤ revision.value)
    (bounded : entries.length ≤ maxOutcomesPerNamespace) :
    ∃ maps, entries.foldlM (addOutcome revision) (∅, ∅) = .ok maps ∧ Collects entries maps := by
  apply foldlM_reaches entries Collects
  · refine ⟨?_, ?_, ExtTreeMap.size_empty⟩ <;> simp
  · rintro done entry later maps rfl holds
    rw [← singleton_append, ← append_assoc, map_append] at keys ids
    rw [length_append, length_cons] at bounded
    have newKey := not_mem_of_nodup holds.outcomes (nodup_append.mp keys).1
    have newId := not_mem_of_nodup holds.transactions (nodup_append.mp ids).1
    have size := holds.size
    refine ⟨(maps.1.insert entry.retryKey entry.2.2, maps.2.insert entry.2.2.transactionId (entry.1, entry.2.2)), ?_,
      some_snoc holds.outcomes newKey, some_snoc holds.transactions newId, ?_⟩
    · rw [addOutcome, require_pos _ (by omega), ok_bind, require_pos _ ⟨past entry (by simp), newKey, newId⟩]
      rfl
    · rw [size_insert_new newKey, size, length_append, length_singleton]

theorem addOwners_ok {scope : NamespaceRef} {entries : List (BlobReference × PrincipalDigest)}
    (keys : (entries.map (·.1.blobKey)).Nodup) (inScope : ∀ entry ∈ entries, entry.1.scope = scope)
    (bounded : entries.length ≤ maxCommittedBlobsPerJournal) :
    ∃ owners, entries.foldlM (addOwner scope) ∅ = .ok owners ∧
      (∀ (key : BlobKey) owner, owners[key]? = some owner ↔ ∃ e ∈ entries, e.1.blobKey = key ∧ e = owner) ∧
      owners.size = entries.length := by
  apply foldlM_reaches entries fun done (owners : BlobOwners) =>
    (∀ (key : BlobKey) owner, owners[key]? = some owner ↔ ∃ e ∈ done, e.1.blobKey = key ∧ e = owner) ∧ owners.size = done.length
  · exact ⟨by simp, ExtTreeMap.size_empty⟩
  · rintro done entry later owners rfl ⟨holds, size⟩
    rw [← singleton_append, ← append_assoc, map_append] at keys
    rw [length_append, length_cons] at bounded
    have newKey := not_mem_of_nodup holds (nodup_append.mp keys).1
    refine ⟨owners.insert entry.1.blobKey entry, ?_, some_snoc holds newKey, ?_⟩
    · rw [addOwner, require_pos _ (by omega), ok_bind, require_pos _ ⟨inScope entry (by simp), newKey⟩]
      rfl
    · rw [size_insert_new newKey, size, length_append, length_singleton]

end CoordinatorRecoverySeed

/-! ### What a coordinator captures -/

section Capturing

variable {S : Type}

def Memory.checkpointOutcomes (memory : Memory S) : List OutcomeEntry :=
  memory.outcomes.toList.map fun entry => (entry.1.principal, entry.1.key, entry.2)

/-- The committed blobs in the order of their keys, each with the principal that committed it first. -/
def Memory.blobOwnerEntries (memory : Memory S) : List (BlobReference × PrincipalDigest) :=
  memory.committedBlobOwners.values

theorem values_eq_map_toList {κ α : Type} {cmp : κ → κ → Ordering} [TransCmp cmp] (map : ExtTreeMap κ α cmp) :
    map.values = map.toList.map (·.2) := by
  obtain ⟨⟨inner⟩⟩ := map
  induction inner using Quotient.inductionOn with
  | h t =>
    show t.inner.values = (DTreeMap.Internal.Impl.Const.toList t.inner).map (·.2)
    rw [DTreeMap.Internal.Impl.values_eq_map_snd, DTreeMap.Internal.Impl.Const.toList_eq_toListModel_map, map_map]
    rfl

theorem Memory.blobOwnerEntries_eq (memory : Memory S) :
    memory.blobOwnerEntries = memory.committedBlobOwners.toList.map (·.2) := values_eq_map_toList _

theorem Memory.mem_checkpointOutcomes {memory : Memory S} {entry : OutcomeEntry} :
    entry ∈ memory.checkpointOutcomes ↔ memory.outcomes[entry.retryKey]? = some entry.2.2 := by
  rw [← ExtTreeMap.mem_toList_iff_getElem?_eq_some, checkpointOutcomes, mem_map]
  constructor
  · rintro ⟨⟨key, outcome⟩, mem, rfl⟩
    exact mem
  · intro mem
    exact ⟨_, mem, rfl⟩

@[simp] theorem Memory.length_checkpointOutcomes (memory : Memory S) :
    memory.checkpointOutcomes.length = memory.outcomes.size := by
  rw [checkpointOutcomes, length_map, ExtTreeMap.length_toList]

@[simp] theorem Memory.length_blobOwnerEntries (memory : Memory S) :
    memory.blobOwnerEntries.length = memory.committedBlobOwners.size := by
  rw [blobOwnerEntries_eq, length_map, ExtTreeMap.length_toList]

theorem nodup_of_ordered {κ : Type} {cmp : κ → κ → Ordering} [ReflCmp cmp] {keys : List κ}
    (ordered : keys.Pairwise fun a b => cmp a b = .lt) : keys.Nodup := by
  apply ordered.imp
  intro a b below same
  have self : cmp b b = .eq := ReflCmp.compare_self
  rw [same, self] at below
  cases below

variable [Primitives] [TransactionState S] {W : Type} {charter : Charter W} {used : BlobInventory → Prop}
  {log : List Entry} {scope : NamespaceRef} {initial : S} {memory : Memory S} {decoded : List DecodedGroup}

omit [Primitives] [TransactionState S] in
theorem Holds.transactionIds_nodup (holds : Holds memory decoded) :
    (memory.checkpointOutcomes.map (·.2.2.transactionId)).Nodup := by
  have distinct : memory.checkpointOutcomes.Pairwise fun a b => a.retryKey ≠ b.retryKey := by
    rw [Memory.checkpointOutcomes, pairwise_map]
    apply (ExtTreeMap.ordered_keys_toList (t := memory.outcomes)).imp
    intro a b below same
    have keys : a.1 = b.1 := same
    rw [keys, ReflOrd.compare_self] at below
    cases below
  rw [List.Nodup, pairwise_map]
  apply distinct.imp_of_mem
  intro a b memA memB apart same
  obtain ⟨d, member, keyA, outcomeA⟩ := (holds.outcomes _ _).mp (Memory.mem_checkpointOutcomes.mp memA)
  obtain ⟨d', member', keyB, outcomeB⟩ := (holds.outcomes _ _).mp (Memory.mem_checkpointOutcomes.mp memB)
  have ids : d.outcome.transactionId = d'.outcome.transactionId := by rw [outcomeA, outcomeB, same]
  have one := inj_on_of_nodup_map holds.transactionIds member member' ids
  exact apart (by rw [← keyA, ← keyB, one])

omit [Primitives] [TransactionState S] in
theorem Holds.transactions_iff (holds : Holds memory decoded) (id : TransactionId)
    (owned : PrincipalDigest × TransactionOutcome) : memory.transactions[id]? = some owned ↔
      ∃ e ∈ memory.checkpointOutcomes, e.2.2.transactionId = id ∧ (e.1, e.2.2) = owned := by
  rw [holds.transactions]
  constructor
  · rintro ⟨d, member, same, rfl⟩
    exact ⟨(d.retryKey.principal, d.retryKey.key, d.outcome),
      Memory.mem_checkpointOutcomes.mpr ((holds.outcomes _ _).mpr ⟨d, member, rfl, rfl⟩), same, rfl⟩
  · rintro ⟨e, mem, same, rfl⟩
    obtain ⟨d, member, key, outcome⟩ := (holds.outcomes _ _).mp (Memory.mem_checkpointOutcomes.mp mem)
    exact ⟨d, member, by rw [outcome, same], by rw [key, outcome]; rfl⟩

theorem owner_valid (replayed : replay scope initial (log.map Entry.recovered) = .ok memory) {key : BlobKey}
    {owner : BlobReference × PrincipalDigest} (found : memory.committedBlobOwners[key]? = some owner) :
    owner.1.blobKey = key ∧ owner.1.scope = scope ∧ owner.1.validReferenceShape = true ∧
      ∃ e ∈ log, owner.1 ∈ e.references := by
  obtain ⟨same, group, mem, there⟩ := replay_owners replayed found
  obtain ⟨e, listed, rfl⟩ := mem_map.mp mem
  obtain ⟨d, decodes⟩ := replay_decodes replayed _ mem
  have sound := decodeRecoveredGroup_sound decodes
  cases inventory : e.inventory with
  | none =>
    rw [show e.recovered.blobInventory = none from inventory] at there
    cases there
  | some i =>
    rw [show e.recovered.blobInventory = some i from inventory] at there
    obtain ⟨inScope, shape⟩ := i.valid.shape owner.1 there
    have fits := sound.inScope i (by rw [sound.blobInventory]; exact inventory)
    refine ⟨same, inScope.trans fits, shape, e, listed, ?_⟩
    rw [Entry.references_some inventory]
    exact there

section

variable (chain : Chain charter used log) (replayed : replay scope initial (log.map Entry.recovered) = .ok memory)

include chain replayed

theorem owners_size : memory.committedBlobOwners.size ≤ maxCommittedBlobsPerJournal := by
  have nodup : memory.committedBlobOwners.keys.Nodup := by
    apply (ExtTreeMap.distinct_keys (t := memory.committedBlobOwners)).imp
    rintro a b different rfl
    exact different ReflOrd.compare_self
  have inside : memory.committedBlobOwners.keys ⊆ (Tip.after charter log).committed.1.keys := by
    intro key mem
    rw [ExtTreeMap.mem_keys] at mem ⊢
    obtain ⟨owner, found⟩ := mem_iff_exists.mp mem
    obtain ⟨rfl, -, -, e, listed, there⟩ := owner_valid replayed found
    exact mem_of_some (chain.blobs e listed owner.1 there)
  have bounded := nodup.length_le_of_subset inside
  rw [ExtTreeMap.length_keys, ExtTreeMap.length_keys] at bounded
  exact bounded.trans chain.committed_size

theorem outcome_past {key : RetryKey} {outcome : TransactionOutcome} (found : memory.outcomes[key]? = some outcome) :
    outcome.revision.value ≤ log.length := by
  obtain ⟨decoded, decodes, holds⟩ := replay_holds replayed
  obtain ⟨d, member, -, rfl⟩ := (holds.outcomes _ _).mp found
  obtain ⟨group, mem, decodesOne⟩ := mem_of_mapM decodes d member
  obtain ⟨e, listed, rfl⟩ := mem_map.mp mem
  have numbered : e.revision.value ∈ log.map fun e => e.recovered.revision.value := mem_map_of_mem listed
  rw [show log.map (fun e => e.recovered.revision.value) = List.range' 1 log.length from chain.revisions,
    mem_range'_1] at numbered
  rw [(decodeRecoveredGroup_sound decodesOne).revision]
  show e.revision.value ≤ log.length
  omega

end

variable {revision : CommitRevision}

theorem replay_capturable (chain : Chain charter used log)
    (replayed : replay scope initial (log.map Entry.recovered) = .ok memory)
    (last : revision.value = log.length) (bounded : memory.outcomes.size ≤ maxOutcomesPerNamespace) :
    Capturable scope revision memory.checkpointOutcomes memory.blobOwnerEntries := by
  obtain ⟨decoded, decodes, holds⟩ := replay_holds replayed
  have owned : ∀ owner ∈ memory.blobOwnerEntries, ∃ key : BlobKey, memory.committedBlobOwners[key]? = some owner := by
    intro owner mem
    rw [Memory.blobOwnerEntries_eq] at mem
    obtain ⟨⟨key, _⟩, listed, rfl⟩ := mem_map.mp mem
    exact ⟨key, ExtTreeMap.mem_toList_iff_getElem?_eq_some.mp listed⟩
  constructor
  · rw [Memory.checkpointOutcomes, pairwise_map]
    exact ExtTreeMap.ordered_keys_toList
  · exact holds.transactionIds_nodup
  · intro entry mem
    rw [last]
    exact outcome_past chain replayed (Memory.mem_checkpointOutcomes.mp mem)
  · rw [Memory.length_checkpointOutcomes]
    exact bounded
  · rw [Memory.blobOwnerEntries_eq, pairwise_map]
    apply (ExtTreeMap.ordered_keys_toList (t := memory.committedBlobOwners)).imp_of_mem
    intro a b memA memB below
    rw [(owner_valid replayed (ExtTreeMap.mem_toList_iff_getElem?_eq_some.mp memA)).1,
      (owner_valid replayed (ExtTreeMap.mem_toList_iff_getElem?_eq_some.mp memB)).1]
    exact below
  · intro owner mem
    obtain ⟨key, found⟩ := owned owner mem
    exact (owner_valid replayed found).2.1
  · intro owner mem
    obtain ⟨key, found⟩ := owned owner mem
    exact (owner_valid replayed found).2.2.1
  · rw [Memory.length_blobOwnerEntries]
    exact owners_size chain replayed

theorem rebuilt_maps (replayed : replay scope initial (log.map Entry.recovered) = .ok memory)
    (capturable : Capturable scope revision memory.checkpointOutcomes memory.blobOwnerEntries) :
    memory.checkpointOutcomes.foldlM (CoordinatorRecoverySeed.addOutcome revision) (∅, ∅) =
      .ok (memory.outcomes, memory.transactions) ∧
    memory.blobOwnerEntries.foldlM (CoordinatorRecoverySeed.addOwner scope) ∅ = .ok memory.committedBlobOwners := by
  obtain ⟨decoded, decodes, holds⟩ := replay_holds replayed
  have keys : (memory.checkpointOutcomes.map OutcomeEntry.retryKey).Nodup :=
    nodup_of_ordered (pairwise_map.mpr capturable.outcomeOrder)
  have ownerKeys : (memory.blobOwnerEntries.map (·.1.blobKey)).Nodup :=
    nodup_of_ordered (pairwise_map.mpr capturable.ownerOrder)
  obtain ⟨maps, added, collects⟩ := CoordinatorRecoverySeed.addOutcomes_ok keys capturable.transactionIds capturable.past
    capturable.outcomeCount
  obtain ⟨owners, addedOwners, listed, -⟩ := CoordinatorRecoverySeed.addOwners_ok ownerKeys capturable.inScope
    capturable.ownerCount
  have outcomes : maps.1 = memory.outcomes := by
    apply ext_some
    intro key outcome
    rw [collects.outcomes]
    constructor
    · rintro ⟨e, mem, rfl, rfl⟩
      exact Memory.mem_checkpointOutcomes.mp mem
    · intro found
      exact ⟨(key.principal, key.key, outcome), Memory.mem_checkpointOutcomes.mpr found, rfl, rfl⟩
  have transactions : maps.2 = memory.transactions := by
    apply ext_some
    intro id owned
    rw [collects.transactions, holds.transactions_iff]
  have blobs : owners = memory.committedBlobOwners := by
    apply ext_some
    intro key owner
    rw [listed, Memory.blobOwnerEntries_eq]
    constructor
    · rintro ⟨e, mem, rfl, rfl⟩
      obtain ⟨⟨key, _⟩, entry, rfl⟩ := mem_map.mp mem
      have found := ExtTreeMap.mem_toList_iff_getElem?_eq_some.mp entry
      rw [(owner_valid replayed found).1]
      exact found
    · intro found
      exact ⟨owner, mem_map.mpr ⟨(key, owner), ExtTreeMap.mem_toList_iff_getElem?_eq_some.mpr found, rfl⟩,
        (owner_valid replayed found).1, rfl⟩
  rw [added, addedOwners, ← outcomes, ← transactions, ← blobs]
  exact ⟨rfl, rfl⟩

end Capturing

/-! ### From a captured checkpoint to a seed -/

section Checkpoints

open CheckpointState CheckpointCodec

variable {S : Type} [CheckpointCodec S]

/-- A state the coordinator may come to from its initial one. -/
inductive Published (initial : S) : S → Prop
  | initial : Published initial initial
  | publish {state : S} {request : List UInt8} {inventory : Option BlobInventory} {revision : CommitRevision}
      {prepared : TransactionState.Prepared S} (published : Published initial state)
      (prepares : TransactionState.prepare state request inventory revision = .ok prepared) :
      Published initial (TransactionState.publish state prepared)

/-- What is expected of a reducer: its states are bound to the scope and to the revision they were published at, the
streamed encoding is the encoding, and an encoded state is decoded again. -/
structure RoundTrips (scope : NamespaceRef) (initial : S) : Prop where
  inScope : ∀ state, Published initial state → currentCheckpointScope state = scope
  revision : ∀ state request inventory revision prepared, Published initial state →
    TransactionState.prepare state request inventory revision = .ok prepared →
    currentCheckpointRevision (TransactionState.publish state prepared) = some revision
  streams : ∀ state, Published initial state → ∀ bytes, encodeCurrentCheckpoint state = .ok bytes ↔
    ∃ chunks, encodeCurrentCheckpointInto state = .ok chunks ∧ chunks.flatten = bytes
  decodes : ∀ state revision bytes, Published initial state → currentCheckpointRevision state = some revision →
    encodeCurrentCheckpoint state = .ok bytes → decodeCheckpoint scope revision bytes = .ok state

variable [Primitives] {W : Type} {charter : Charter W} {used : BlobInventory → Prop} {log : List Entry} {e : Entry}
  {scope : NamespaceRef} {initial : S} {memory : Memory S} {digest : Octets 32} {bytes : List UInt8}

theorem replay_published {groups : List RecoveredGroup} (h : replay scope initial groups = .ok memory) :
    Published initial memory.state := by
  induction groups using List.reverseRecOn generalizing memory with
  | nil =>
    cases h
    exact .initial
  | append_singleton groups group ih =>
    obtain ⟨before, replayed, step⟩ := replay_snoc_ok h
    obtain ⟨decoded, prepared, -, prepares, -, -, rfl⟩ := replayGroup_ok step
    exact .publish (ih replayed) prepares

section

variable (laws : RoundTrips scope initial)

include laws

theorem RoundTrips.replayed_revision (replayed : replay scope initial ((log ++ [e]).map Entry.recovered) = .ok memory) :
    currentCheckpointRevision memory.state = some e.revision := by
  rw [map_append, map_singleton] at replayed
  obtain ⟨before, replayedBefore, step⟩ := replay_snoc_ok replayed
  obtain ⟨decoded, prepared, -, prepares, -, -, rfl⟩ := replayGroup_ok step
  exact laws.revision _ _ _ _ _ (replay_published replayedBefore) prepares

omit [Primitives] in
theorem RoundTrips.verified {state : S} {revision : CommitRevision}
    (published : Published initial state) (there : currentCheckpointRevision state = some revision)
    (digested : currentLogicalStateDigest state = .ok digest) (encoded : encodeCurrentCheckpoint state = .ok bytes) :
    verifyReducerCheckpoint scope ⟨scope, revision, reducerProfile S, digest, bytes⟩ = .ok state := by
  unfold verifyReducerCheckpoint
  rw [require_pos _ rfl, ok_bind, require_pos _ rfl, ok_bind, laws.decodes state revision bytes published there encoded,
    mapError_ok, ok_bind, require_pos _ (laws.inScope state published), ok_bind, require_pos _ there, ok_bind, digested,
    mapError_ok, ok_bind, require_pos _ rfl, ok_bind, encoded, mapError_ok, ok_bind, require_pos _ rfl]
  rfl

theorem captured_decodes (chain : Chain charter used (log ++ [e]))
    (replayed : replay scope initial ((log ++ [e]).map Entry.recovered) = .ok memory)
    (digested : currentLogicalStateDigest memory.state = .ok digest)
    (encoded : encodeCurrentCheckpoint memory.state = .ok bytes)
    (fits : checkpointSize bytes.length memory.outcomes.size memory.committedBlobOwners.size ≤ maxCheckpointBytes) :
    ∃ checkpoint, captureCoordinatorCheckpoint memory.state (e.revision, sha256 e.encodedCertificate)
        memory.checkpointOutcomes memory.blobOwnerEntries = .ok checkpoint ∧
      decodeCoordinatorCheckpoint checkpoint = .ok ⟨memory, scope, e.revision, sha256 e.encodedCertificate⟩ := by
  have published := replay_published replayed
  have there := laws.replayed_revision replayed
  have last : e.revision.value = (log ++ [e]).length := by
    rw [chain.last.revision, Tip.after_count, length_append, length_singleton]
  have few : memory.outcomes.size ≤ maxOutcomesPerNamespace := by
    unfold checkpointSize maxCheckpointBytes outcomeBytes at fits
    unfold maxOutcomesPerNamespace
    omega
  have capturable := replay_capturable chain replayed last few
  obtain ⟨chunks, streamed, rfl⟩ := (laws.streams memory.state published bytes).mp encoded
  have captured : captureReducerCheckpoint memory.state =
      .ok ⟨scope, e.revision, reducerProfile S, digest, chunks.flatten⟩ := by
    unfold captureReducerCheckpoint
    rw [there, digested, streamed, laws.inScope memory.state published]
    rfl
  rw [← Memory.length_checkpointOutcomes, ← Memory.length_blobOwnerEntries] at fits
  refine ⟨_, captureCoordinatorCheckpoint_ok captured rfl capturable fits, ?_⟩
  have size := length_checkpointLayout ⟨scope, e.revision, sha256 e.encodedCertificate, reducerProfile S, digest⟩
    chunks.flatten memory.checkpointOutcomes memory.blobOwnerEntries
  have small : chunks.flatten.length < 2 ^ 64 := by
    unfold checkpointSize maxCheckpointBytes at fits
    omega
  have read := (readCheckpoint_reads ⟨scope, e.revision, sha256 e.encodedCertificate, reducerProfile S, digest⟩
    (laws.verified published there digested encoded) capturable small).whole
  obtain ⟨outcomes, owners⟩ := rebuilt_maps replayed capturable
  unfold decodeCoordinatorCheckpoint
  rw [require_pos _ (size.trans_le fits), ok_bind]
  dsimp only
  rw [read]
  unfold CoordinatorRecoverySeed.fromAuthenticatedCheckpoint
  rw [ok_bind, require_pos _ rfl, ok_bind, require_pos _ ⟨laws.inScope memory.state published, there, rfl⟩, ok_bind, digested,
    mapError_ok, ok_bind, require_pos _ rfl, ok_bind, outcomes, ok_bind, owners]
  rfl

theorem captured_seed (chain : Chain charter used (log ++ [e]))
    (replayed : replay scope initial ((log ++ [e]).map Entry.recovered) = .ok memory) {checkpoint : CoordinatorCheckpoint}
    (captured : captureCoordinatorCheckpoint memory.state (e.revision, sha256 e.encodedCertificate)
      memory.checkpointOutcomes memory.blobOwnerEntries = .ok checkpoint)
    {seed : CoordinatorRecoverySeed S} (decoded : decodeCoordinatorCheckpoint checkpoint = .ok seed) :
    seed = ⟨memory, scope, e.revision, sha256 e.encodedCertificate⟩ := by
  have published := replay_published replayed
  obtain ⟨reducer, capturedReducer, -, layout⟩ := captureCoordinatorCheckpoint_eq captured
  obtain ⟨revision, -, digest, digested, chunks, streamed, capturedReducer⟩ := bind_ok₃ capturedReducer
  cases capturedReducer
  have encoded := (laws.streams memory.state published _).mpr ⟨chunks, mapError_eq_ok streamed, rfl⟩
  have fits : checkpoint.payload.length ≤ maxCheckpointBytes := by
    obtain ⟨_, small, -⟩ := bind_ok decoded
    exact require_ok.mp small
  rw [layout, length_checkpointLayout, Memory.length_checkpointOutcomes, Memory.length_blobOwnerEntries] at fits
  obtain ⟨checkpoint', captured', decoded'⟩ := captured_decodes laws chain replayed (mapError_eq_ok digested) encoded fits
  cases captured.symm.trans captured'
  exact Except.ok.inj (decoded.symm.trans decoded')

end

end Checkpoints

/-! ### Sessions that keep checkpoints -/

namespace CoordinatorSession

section Resuming

variable {S W E I : Type} [CheckpointCodec S] [Primitives] [DurableKeyEnvelope W]

def openSeededUnder (o : Installation S W) (seed : CoordinatorRecoverySeed S) (retention : RetentionDays)
    (plan : Option FaultPlan) (vaultEntropy : E) (identityEntropy : I) :
    Program (Unit × MemoryFileSystem) TransactionError (CommitCoordinator S memoryHandles W E I × RecoveryReport) :=
  underFaults plan
    (onSnd (CommitCoordinator.openSeeded o.finalName o.scope retention vaultEntropy identityEntropy o.unwrap seed))
    (onSnd (CommitCoordinator.openSeeded o.finalName o.scope retention vaultEntropy identityEntropy o.unwrap seed))

def resume (s : CoordinatorSession S W E I) (o : Installation S W) (seed : CoordinatorRecoverySeed S)
    (retention : RetentionDays) (plan : Option FaultPlan) (vaultEntropy : E) (identityEntropy : I) :
    CoordinatorSession S W E I :=
  match s.coordinator with
  | some _ => s
  | none =>
    match openSeededUnder o seed retention plan vaultEntropy identityEntropy ((), s.files) with
    | (.ok (c, _), _, files) => { s with files := files, coordinator := some c, inFlight := none }
    | (.error _, _, files) => { s with files := files }

structure Checkpointed (S W E I : Type) extends CoordinatorSession S W E I where
  checkpoints : List CoordinatorCheckpoint

/-- A step of the session, a capture at the frontier, or an opening from one of the checkpoints. -/
inductive CheckpointedStep [EntropySource E] [EntropySource I] (used : BlobInventory → Prop) (o : Installation S W) :
    Checkpointed S W E I → Checkpointed S W E I → Prop
  | session (s s' : CoordinatorSession S W E I) (checkpoints : List CoordinatorCheckpoint) (step : Step used o s s') :
      CheckpointedStep used o ⟨s, checkpoints⟩ ⟨s', checkpoints⟩
  | capture (s : CoordinatorSession S W E I) (checkpoints : List CoordinatorCheckpoint)
      (c : CommitCoordinator S memoryHandles W E I) (anchor : CommitRevision × Octets 32) (checkpoint : CoordinatorCheckpoint)
      (owner : s.coordinator = some c) (anchored : c.checkpointAnchor = .ok (some anchor))
      (captured : captureCoordinatorCheckpoint c.state anchor c.checkpointOutcomes c.committedBlobOwnersList =
        .ok checkpoint) :
      CheckpointedStep used o ⟨s, checkpoints⟩ ⟨s, checkpoints ++ [checkpoint]⟩
  | resume (s : CoordinatorSession S W E I) (checkpoints : List CoordinatorCheckpoint) (checkpoint : CoordinatorCheckpoint)
      (seed : CoordinatorRecoverySeed S) (retention : RetentionDays) (plan : Option FaultPlan) (vaultEntropy : E)
      (identityEntropy : I) (stored : checkpoint ∈ checkpoints) (decoded : decodeCoordinatorCheckpoint checkpoint = .ok seed) :
      CheckpointedStep used o ⟨s, checkpoints⟩ ⟨s.resume o seed retention plan vaultEntropy identityEntropy, checkpoints⟩

/-- The seed holds what the entries up to one certificate of the log determine. -/
structure Grounds (o : Installation S W) (log : List Entry) (seed : CoordinatorRecoverySeed S) : Prop where
  scope : seed.scope = o.scope
  holds : ∃ earlier last, earlier ++ [last] <+: log ∧ last.revision = seed.revision ∧
    sha256 last.encodedCertificate = seed.certificateDigest ∧
    replay o.scope o.initialState ((earlier ++ [last]).map Entry.recovered) = .ok seed.toMemory

variable {charter : Charter W} {used : BlobInventory → Prop} {o : Installation S W} {s : CoordinatorSession S W E I}
  {v : View EntryName memoryHandles} {log log' : List Entry} {memory : Memory S} {seed : CoordinatorRecoverySeed S}

section

omit [DurableKeyEnvelope W]

theorem Grounds.mono (grounds : Grounds o log seed) (continues : log <+: log') : Grounds o log' seed := by
  obtain ⟨earlier, last, inside, rest⟩ := grounds.holds
  exact ⟨grounds.scope, earlier, last, inside.trans continues, rest⟩

theorem Grounds.accepted (grounds : Grounds o log seed) (chain : Chain charter used log)
    (replayed : replay o.scope o.initialState (log.map Entry.recovered) = .ok memory) :
    (log.map Entry.recovered).foldlM (seedVisitor seed) (Seeding.start seed) = .ok ⟨memory, ∅, ∅, ∅, true⟩ ∧
      seed.revision.value ≤ log.length := by
  obtain ⟨earlier, last, ⟨later, rfl⟩, revision, certificate, before⟩ := grounds.holds
  rw [← grounds.scope, map_append, map_singleton] at before
  rw [← grounds.scope] at replayed
  have split : (earlier ++ [last] ++ later).map Entry.recovered =
      earlier.map Entry.recovered ++ last.recovered :: later.map Entry.recovered := by simp
  exact chain_accepts_seed chain split revision certificate before replayed

end

section Steps

variable [Primitives.Lawful]

/-- Opening from a seed that the log grounds ends like opening without one. -/
theorem openSeeded_spec {F : Type} {H : Handles} [FileSystem F H] {quiet : Prop} (M : FileModel F Kept quiet) {fs : F}
    {inFlight : Option TransactionRequest} {retention : RetentionDays} {vaultEntropy : E} {identityEntropy : I}
    (grounds : Grounds o log seed) (closed : StillClosed M charter used o log inFlight fs) (fits : o.opening.Fits charter)
    (noCollision : Collisionless charter.toOrigin used)
    (replayed : replay o.scope o.initialState (log.map Entry.recovered) = .ok memory) :
    wp (CommitCoordinator.openSeeded o.finalName o.scope retention vaultEntropy identityEntropy o.unwrap seed)
      (Reopened M charter used o log inFlight) (fun _ => StillClosed M charter used o log inFlight) fs := by
  obtain ⟨v, shows, closed⟩ := closed
  have opened : wp (JournalStore.openInternal charter.finalName charter.database vaultEntropy identityEntropy
      o.unwrap none (seedVisitor seed) (Seeding.start seed)) _ _ fs :=
    Closed.openInternal M (closed_chained closed) fits.unlocks noCollision shows
  rw [← fits.finalName, ← fits.database] at opened
  unfold CommitCoordinator.openSeeded
  apply wp_pass grounds.scope
  refine wp_maps (wp_and opened openInternal_report) ?_ ?_
  · rintro ⟨journal, report, progress⟩ fs' ⟨⟨v', log', settled, shows, live, unlimited, visited⟩, reported⟩
    have settled : Settled o charter used log inFlight log' := settled
    have chain := live.disk.stored.chain
    obtain ⟨memory', after⟩ := settled.replayed replayed
    obtain ⟨fold, small⟩ := (grounds.mono settled.continues).accepted chain after
    cases fold.symm.trans visited
    apply wp_pass ⟨rfl, frontier_reaches chain live.tip reported small⟩
    exact ⟨v', log', settled, shows, rfl, .inl live, after, unlimited, fun _ _ => id⟩
  · rintro err fs' ⟨⟨v', shows, closed', -⟩, -⟩
    exact ⟨v', shows, closed_mono closed' fun e late => late.1⟩

theorem Inv.resume (retention : RetentionDays) (plan : Option FaultPlan) (vaultEntropy : E) (identityEntropy : I)
    (inv : Inv charter used o s v log memory) (grounds : Grounds o log seed) (fits : o.opening.Fits charter)
    (noCollision : Collisionless charter.toOrigin used) :
    ∃ v' log' memory', Inv charter used o (s.resume o seed retention plan vaultEntropy identityEntropy) v' log' memory' ∧
      log <+: log' := by
  unfold CoordinatorSession.resume
  cases ended : s.coordinator with
  | some c => exact ⟨v, log, memory, inv, prefix_refl log⟩
  | none =>
    have ran : wp (openSeededUnder o seed retention plan vaultEntropy identityEntropy)
        (fun result t => Reopened model charter used o log s.inFlight result t.2)
        (fun _ t => StillClosed model charter used o log s.inFlight t.2) ((), s.files) := by
      refine underFaults_spec (fun _ => ?_) fun plan' given => ?_
      · rw [wp_onSnd]
        exact openSeeded_spec model grounds ⟨v, inv.shows, inv.closed ended⟩ fits noCollision inv.replayed
      · rw [wp_onSnd]
        exact openSeeded_spec (FaultFileSystem.model model) grounds ⟨v, inv.shows, inv.closed ended⟩ fits noCollision
          inv.replayed
    dsimp only
    split
    · rename_i c report _ files' result
      have opened := wp_ok ran result
      obtain ⟨v', log', settled, inv'⟩ := inv.reopened opened
      exact ⟨v', log', c.toMemory, inv', settled.continues⟩
    · rename_i err files' result
      have closed := wp_error ran result
      obtain ⟨v', inv'⟩ := inv.unopened ended closed
      exact ⟨v', log, memory, ended ▸ inv', prefix_refl log⟩

end Steps

section Runs

open CheckpointState CheckpointCodec

variable [Primitives.Lawful] [EntropySource E] [EntropySource I] {t t' : Checkpointed S W E I}

section

omit [DurableKeyEnvelope W] [Primitives.Lawful] [EntropySource E] [EntropySource I]

theorem Inv.chain (inv : Inv charter used o s v log memory) : Chain charter used log := by
  obtain ⟨visible, durable, disk, seen, -⟩ := inv.disk
  rcases seen with rfl | ⟨e, -, rfl⟩
  · exact disk.stored.chain
  · exact disk.stored.chain.of_append

theorem Inv.anchored {c : CommitCoordinator S memoryHandles W E I} {anchor : CommitRevision × Octets 32}
    (inv : Inv charter used o s v log memory) (owner : s.coordinator = some c)
    (anchored : c.checkpointAnchor = .ok (some anchor)) :
    ∃ earlier e, log = earlier ++ [e] ∧ anchor = (e.revision, sha256 e.encodedCertificate) := by
  obtain ⟨-, coordinated⟩ := inv.live c owner
  obtain ⟨frontier, digest⟩ := coordinated.journaled.position
  obtain ⟨_, -, anchored⟩ := bind_ok anchored
  have found := Except.ok.inj anchored
  rw [frontier, digest] at found
  rcases eq_nil_or_concat log with rfl | ⟨earlier, e, rfl⟩
  · cases found
  · rw [concat_eq_append, Tip.after_snoc] at found
    exact ⟨earlier, e, concat_eq_append, (Option.some.inj found).symm⟩

end

/-- What every step keeps: the session, and that the log grounds the seed of every checkpoint. -/
structure CheckpointedInv (charter : Charter W) (used : BlobInventory → Prop) (o : Installation S W) (t : Checkpointed S W E I)
    (log : List Entry) : Prop where
  session : ∃ v memory, Inv charter used o t.toCoordinatorSession v log memory
  grounded : ∀ checkpoint ∈ t.checkpoints, ∀ seed : CoordinatorRecoverySeed S,
    decodeCoordinatorCheckpoint checkpoint = .ok seed → Grounds o log seed

theorem CheckpointedStep.keeps (laws : RoundTrips o.scope o.initialState) (step : CheckpointedStep used o t t')
    (fits : o.opening.Fits charter) (noCollision : Collisionless charter.toOrigin used)
    (kept : CheckpointedInv charter used o t log) : ∃ log', CheckpointedInv charter used o t' log' ∧ log <+: log' := by
  obtain ⟨⟨v, memory, inv⟩, grounded⟩ := kept
  cases step with
  | session s s' checkpoints step =>
    obtain ⟨v', log', memory', inv', continues⟩ := step.inv fits noCollision inv
    exact ⟨log', ⟨⟨v', memory', inv'⟩, fun checkpoint mem seed decoded =>
      (grounded checkpoint mem seed decoded).mono continues⟩, continues⟩
  | capture s checkpoints c anchor checkpoint owner anchored captured =>
    refine ⟨log, ⟨⟨v, memory, inv⟩, ?_⟩, prefix_refl log⟩
    intro checkpoint' mem seed decoded
    rcases mem_append.mp mem with mem | mem
    · exact grounded checkpoint' mem seed decoded
    · obtain rfl := mem_singleton.mp mem
      obtain ⟨earlier, e, rfl, rfl⟩ := inv.anchored owner anchored
      obtain rfl := inv.memory_eq owner
      obtain rfl := captured_seed laws inv.chain inv.replayed captured decoded
      exact ⟨rfl, earlier, e, prefix_refl _, rfl, rfl, inv.replayed⟩
  | resume s checkpoints checkpoint seed retention plan vaultEntropy identityEntropy stored decoded =>
    obtain ⟨v', log', memory', inv', continues⟩ := inv.resume retention plan vaultEntropy identityEntropy
      (grounded checkpoint stored seed decoded) fits noCollision
    exact ⟨log', ⟨⟨v', memory', inv'⟩, fun checkpoint mem seed decoded =>
      (grounded checkpoint mem seed decoded).mono continues⟩, continues⟩

theorem checkpointed_keeps (laws : RoundTrips o.scope o.initialState)
    (run : Relation.ReflTransGen (CheckpointedStep used o) t t') (fits : o.opening.Fits charter)
    (noCollision : Collisionless charter.toOrigin used) (kept : CheckpointedInv charter used o t log) :
    ∃ log', CheckpointedInv charter used o t' log' ∧ log <+: log' := by
  induction run with
  | refl => exact ⟨log, kept, prefix_refl log⟩
  | tail _ step ih =>
    obtain ⟨between, kept', first⟩ := ih
    obtain ⟨log', kept'', second⟩ := step.keeps laws fits noCollision kept'
    exact ⟨log', kept'', first.trans second⟩

def CheckpointedReachable (used : BlobInventory → Prop) (o : Installation S W) (t : Checkpointed S W E I) : Prop :=
  ∃ s : CoordinatorSession S W E I, Reachable used o s ∧ Relation.ReflTransGen (CheckpointedStep used o) ⟨s, []⟩ t

theorem CheckpointedReachable.kept (laws : RoundTrips o.scope o.initialState) (reachable : CheckpointedReachable used o t) :
    ∃ charter, o.opening.Fits charter ∧ Collisionless charter.toOrigin used ∧
      ∃ log, CheckpointedInv charter used o t log := by
  obtain ⟨s, reached, run⟩ := reachable
  obtain ⟨charter, fits, noCollision, v, log, memory, inv⟩ := reached.inv
  have start : CheckpointedInv charter used o ⟨s, []⟩ log :=
    ⟨⟨v, memory, inv⟩, fun _ mem => (not_mem_nil mem).elim⟩
  obtain ⟨log', kept, -⟩ := checkpointed_keeps laws run fits noCollision start
  exact ⟨charter, fits, noCollision, log', kept⟩

omit [EntropySource E] [EntropySource I] in
theorem Inv.opens_same (inv : Inv charter used o s v log memory) (ended : s.coordinator = none)
    (fits : o.opening.Fits charter) (noCollision : Collisionless charter.toOrigin used) (grounds : Grounds o log seed)
    (retention : RetentionDays) (vaultEntropy : E) (identityEntropy : I) :
    ∃ (seeded full : CommitCoordinator S memoryHandles W E I) (report report' : RecoveryReport)
      (files' files'' : MemoryFileSystem),
      (CommitCoordinator.openSeeded o.finalName o.scope retention vaultEntropy identityEntropy o.unwrap seed).run s.files =
        (.ok (seeded, report), files') ∧
      (CommitCoordinator.openJournal o.finalName o.scope retention vaultEntropy identityEntropy o.unwrap
        o.initialState).run s.files = (.ok (full, report'), files'') ∧ SameCoordinator seeded full := by
  obtain ⟨log', settled, chain, reads⟩ := closed_reads (inv.closed ended) fits noCollision inv.shows
  have settled : Settled o charter used log s.inFlight log' := settled
  obtain ⟨memory', replayed⟩ := settled.replayed inv.replayed
  obtain ⟨visited, small⟩ := (grounds.mono settled.continues).accepted chain replayed
  obtain ⟨⟨full, report'⟩, files'', opened, whole⟩ :=
    wp_succeeds (reads.openJournal replayed retention vaultEntropy identityEntropy)
  obtain ⟨⟨seeded, report⟩, files', resumed, same⟩ :=
    wp_succeeds (reads.openSeeded_accepted chain grounds.scope visited small retention vaultEntropy identityEntropy)
  exact ⟨seeded, full, report, report', files', files'', resumed, opened, same.same whole rfl⟩

/-- A checkpoint that is captured at the frontier of any coordinator, within the size limits, is stored, decoded and
accepted: after any further commits, captures, crashes and openings, with it or without, the journal opens from its seed,
and with exactly the coordinator of a full opening. -/
theorem captured_checkpoint_resumes (laws : RoundTrips o.scope o.initialState) (reachable : CheckpointedReachable used o t)
    {c : CommitCoordinator S memoryHandles W E I} {anchor : CommitRevision × Octets 32} {digest : Octets 32}
    {bytes : List UInt8} (owner : t.coordinator = some c) (anchored : c.checkpointAnchor = .ok (some anchor))
    (digested : currentLogicalStateDigest c.state = .ok digest) (encoded : encodeCurrentCheckpoint c.state = .ok bytes)
    (fits : checkpointSize bytes.length c.outcomes.size c.committedBlobOwners.size ≤ maxCheckpointBytes) :
    ∃ (checkpoint : CoordinatorCheckpoint) (seed : CoordinatorRecoverySeed S),
      captureCoordinatorCheckpoint c.state anchor c.checkpointOutcomes c.committedBlobOwnersList = .ok checkpoint ∧
      decodeCoordinatorCheckpoint checkpoint = .ok seed ∧
      ∀ t' : Checkpointed S W E I, Relation.ReflTransGen (CheckpointedStep used o) t t' → t'.coordinator = none →
        ∀ (retention : RetentionDays) (vaultEntropy : E) (identityEntropy : I),
        ∃ (seeded full : CommitCoordinator S memoryHandles W E I) (report report' : RecoveryReport)
          (files' files'' : MemoryFileSystem),
          (CommitCoordinator.openSeeded o.finalName o.scope retention vaultEntropy identityEntropy o.unwrap seed).run
            t'.files = (.ok (seeded, report), files') ∧
          (CommitCoordinator.openJournal o.finalName o.scope retention vaultEntropy identityEntropy o.unwrap
            o.initialState).run t'.files = (.ok (full, report'), files'') ∧ SameCoordinator seeded full := by
  obtain ⟨charter, opens, noCollision, log, kept⟩ := reachable.kept laws
  obtain ⟨v, memory, inv⟩ := kept.session
  obtain ⟨earlier, e, rfl, rfl⟩ := inv.anchored owner anchored
  obtain rfl := inv.memory_eq owner
  obtain ⟨checkpoint, captured, decoded⟩ := captured_decodes laws inv.chain inv.replayed digested encoded fits
  refine ⟨checkpoint, _, captured, decoded, ?_⟩
  intro t' run ended retention vaultEntropy identityEntropy
  obtain ⟨log', kept', continues⟩ := checkpointed_keeps laws run opens noCollision kept
  obtain ⟨v', memory', inv'⟩ := kept'.session
  have grounds : Grounds o (earlier ++ [e]) ⟨c.toMemory, o.scope, e.revision, sha256 e.encodedCertificate⟩ :=
    ⟨rfl, earlier, e, prefix_refl _, rfl, rfl, inv.replayed⟩
  exact inv'.opens_same ended opens noCollision (grounds.mono continues) retention vaultEntropy identityEntropy

end Runs

end Resuming

section Sample

open CheckpointState CheckpointCodec

attribute [local instance] plainPrimitives plainPrimitives_lawful

instance : CheckpointCodec Tally where
  reducerProfile := Octets.zero 32
  currentCheckpointScope _ := sampleInstallation.scope
  currentCheckpointRevision state := state.revision
  currentLogicalStateDigest _ := .ok (Octets.zero 32)
  encodeCurrentCheckpoint state := if state.count < 2 ^ 64 then .ok (bigEndian 8 state.count) else .error .resourceLimit
  encodeCurrentCheckpointInto state := if state.count < 2 ^ 64 then .ok [bigEndian 8 state.count] else .error .resourceLimit
  decodeCheckpoint _ revision bytes := .ok ⟨ofBigEndian bytes, some revision⟩

theorem tally_roundTrips : RoundTrips sampleInstallation.scope sampleInstallation.initialState where
  inScope _ _ := rfl
  revision state request inventory revision prepared _ prepares := by
    cases prepares
    rfl
  streams state _ bytes := by
    show (if state.count < 2 ^ 64 then _ else _) = Except.ok bytes ↔
      ∃ chunks, (if state.count < 2 ^ 64 then _ else _) = Except.ok chunks ∧ _
    split <;> simp
  decodes state revision bytes _ there encoded := by
    have there : state.revision = some revision := there
    have encoded : (if state.count < 2 ^ 64 then Except.ok (bigEndian 8 state.count) else
      .error CheckpointStateError.resourceLimit) = Except.ok bytes := encoded
    split at encoded
    · rename_i small
      cases encoded
      show Except.ok (Tally.mk (ofBigEndian (bigEndian 8 state.count)) (some revision)) = _
      rw [ofBigEndian_bigEndian small, ← there]
    · cases encoded

theorem captured_checkpoint_resumes_sample : ∃ (s : CoordinatorSession Tally Unit Nat Nat)
    (c : CommitCoordinator Tally memoryHandles Unit Nat Nat) (anchor : CommitRevision × Octets 32)
    (checkpoint : CoordinatorCheckpoint) (seed : CoordinatorRecoverySeed Tally),
    CheckpointedReachable (fun _ => False) sampleInstallation ⟨s, []⟩ ∧ s.coordinator = some c ∧
    c.checkpointAnchor = .ok (some anchor) ∧
    captureCoordinatorCheckpoint c.state anchor c.checkpointOutcomes c.committedBlobOwnersList = .ok checkpoint ∧
    decodeCoordinatorCheckpoint checkpoint = .ok seed := by
  have evaluated : sampleFounding.1.toOption.any (fun c => (sampleFirst c sampleFounding.2).coordinator.any fun c₁ =>
      c₁.checkpointAnchor.toOption.join.isSome && decide (c₁.state.count < 2 ^ 64 ∧
        checkpointSize 8 c₁.outcomes.size c₁.committedBlobOwners.size ≤ maxCheckpointBytes)) = true := by
    decide +kernel
  rcases founded : sampleFounding with ⟨_ | c, files⟩
  · rw [founded] at evaluated
    cases evaluated
  rw [founded] at evaluated
  simp only [Except.toOption, Option.any_some] at evaluated
  obtain ⟨c₁, live, holds⟩ := (Option.any_eq_true _ _).mp evaluated
  rw [Bool.and_eq_true, decide_eq_true_iff] at holds
  obtain ⟨anchored, small, fits⟩ := holds
  obtain ⟨anchor, found⟩ := Option.isSome_iff_exists.mp anchored
  have anchored : c₁.checkpointAnchor = .ok (some anchor) := by
    cases known : c₁.checkpointAnchor with
    | error _ =>
      rw [known] at found
      cases found
    | ok value =>
      rw [known] at found
      cases value with
      | none => cases found
      | some value =>
        cases found
        rfl
  have reachable : CheckpointedReachable (fun _ => False) sampleInstallation ⟨sampleFirst c files, []⟩ :=
    ⟨_, sampleFirst_reachable founded, .refl⟩
  have encoded : encodeCurrentCheckpoint c₁.state = .ok (bigEndian 8 c₁.state.count) := if_pos small
  obtain ⟨checkpoint, seed, captured, decoded, -⟩ := captured_checkpoint_resumes tally_roundTrips reachable live anchored
    rfl encoded (by rw [length_bigEndian]; exact fits)
  exact ⟨_, c₁, anchor, checkpoint, seed, reachable, live, anchored, captured, decoded⟩

end Sample

end CoordinatorSession

end Uste.Txn
