import Uste.Txn.Guarantees

/-!
Opening from a recovery seed: the maps of a checkpoint are checked against the groups of the
journal up to its revision, and only the groups after it are replayed on its reducer state.
-/

namespace Uste.Txn

open Types Crypto Policy Storage Program FileSystem Std List
open Storage.Session (model)

inductive CheckpointStateError where
  | invalid
  | resourceLimit
  | unsupportedProfile
  deriving DecidableEq, Repr

/-- A reducer whose state can be bound to a checkpoint. -/
class CheckpointState (S : Type) extends TransactionState S where
  reducerProfile : Octets 32
  currentCheckpointScope : S → NamespaceRef
  currentCheckpointRevision : S → Option CommitRevision
  currentLogicalStateDigest : S → Except CheckpointStateError (Octets 32)

/-- What storage has authenticated of a checkpoint. -/
structure RecoveredCheckpoint where
  scope : NamespaceRef
  revision : CommitRevision
  certificateDigest : Octets 32
  reducerProfile : Octets 32
  logicalStateDigest : Octets 32

structure CoordinatorRecoverySeed (S : Type) extends Memory S where
  scope : NamespaceRef
  revision : CommitRevision
  certificateDigest : Octets 32

namespace CoordinatorRecoverySeed

variable {S : Type}

def mapCheckpointError : CheckpointStateError → TransactionError
  | .resourceLimit => .resourceLimit
  | .invalid | .unsupportedProfile => .integrityFailure

def addOutcome (revision : CommitRevision) (maps : Outcomes × Transactions)
    (entry : PrincipalDigest × IdempotencyKey × TransactionOutcome) : Except TransactionError (Outcomes × Transactions) := do
  let (principal, key, outcome) := entry
  require (maps.1.size ≠ maxOutcomesPerNamespace) .resourceLimit
  require (outcome.revision.value ≤ revision.value ∧ (⟨principal, key⟩ : RetryKey) ∉ maps.1 ∧
    outcome.transactionId ∉ maps.2) .integrityFailure
  pure (maps.1.insert ⟨principal, key⟩ outcome, maps.2.insert outcome.transactionId (principal, outcome))

def addOwner (scope : NamespaceRef) (owners : BlobOwners) (entry : BlobReference × PrincipalDigest) :
    Except TransactionError BlobOwners := do
  require (owners.size ≠ maxCommittedBlobsPerJournal) .resourceLimit
  require (entry.1.scope = scope ∧ entry.1.blobKey ∉ owners) .integrityFailure
  pure (owners.insert entry.1.blobKey entry)

def fromAuthenticatedCheckpoint [CheckpointState S] (checkpoint : RecoveredCheckpoint) (state : S)
    (outcomes : List (PrincipalDigest × IdempotencyKey × TransactionOutcome))
    (committedBlobOwners : List (BlobReference × PrincipalDigest)) :
    Except TransactionError (CoordinatorRecoverySeed S) := do
  require (CheckpointState.currentCheckpointScope state = checkpoint.scope ∧
    CheckpointState.currentCheckpointRevision state = some checkpoint.revision ∧
    checkpoint.reducerProfile = CheckpointState.reducerProfile S) .integrityFailure
  let digest ← (CheckpointState.currentLogicalStateDigest state).mapError mapCheckpointError
  require (digest = checkpoint.logicalStateDigest) .integrityFailure
  let (outcomeMap, transactions) ← outcomes.foldlM (addOutcome checkpoint.revision) (∅, ∅)
  let owners ← committedBlobOwners.foldlM (addOwner checkpoint.scope) ∅
  pure ⟨⟨state, outcomeMap, transactions, owners⟩, checkpoint.scope, checkpoint.revision, checkpoint.certificateDigest⟩

end CoordinatorRecoverySeed

/-- The visitor of a seeded opening. Up to the seed's revision the memory holds what is still to be found in the
journal, and the other maps what was found; then the found maps take its place. -/
structure Seeding (S : Type) extends Memory S where
  verifiedOutcomes : Outcomes
  verifiedTransactions : Transactions
  verifiedBlobOwners : BlobOwners
  anchorVerified : Bool

section

variable {S : Type} [Primitives]

def Seeding.start (seed : CoordinatorRecoverySeed S) : Seeding S := ⟨seed.toMemory, ∅, ∅, ∅, false⟩

omit [Primitives] in
/-- A blob of a group has been found before, or it is among those to be found, with the group's principal as owner. -/
def verifyOwner (principal : PrincipalDigest) (owners : BlobOwners × BlobOwners) (reference : BlobReference) :
    Except StorageError (BlobOwners × BlobOwners) :=
  match owners.2[reference.blobKey]? with
  | some (committed, _) => do
    require (committed = reference) .integrityFailure
    pure owners
  | none => do
    let owner ← orError .integrityFailure (owners.1[reference.blobKey]?.filter fun owner =>
      owner.1 = reference ∧ owner.2 = principal)
    pure (owners.1.erase reference.blobKey, owners.2.insert reference.blobKey owner)

def replayGroupMetadataAgainstSeed (scope : NamespaceRef) (progress : Seeding S) (group : RecoveredGroup) :
    Except StorageError (Seeding S) := do
  require (sha256 group.encodedGroup = group.logicalEventDigest) .integrityFailure
  let decoded ← (decodeGroup scope group.encodedGroup group.revision group.blobInventoryDigest
    group.blobInventory).mapError fun _ => StorageError.integrityFailure
  let owned := (decoded.retryKey.principal, decoded.outcome)
  require (progress.outcomes[decoded.retryKey]? = some decoded.outcome ∧
    progress.transactions[decoded.outcome.transactionId]? = some owned ∧
    decoded.retryKey ∉ progress.verifiedOutcomes ∧
    decoded.outcome.transactionId ∉ progress.verifiedTransactions) .integrityFailure
  let (expectedOwners, verifiedOwners) ← (referencesOf decoded.blobInventory).foldlM
    (verifyOwner decoded.retryKey.principal) (progress.committedBlobOwners, progress.verifiedBlobOwners)
  pure { progress with
    outcomes := progress.outcomes.erase decoded.retryKey
    transactions := progress.transactions.erase decoded.outcome.transactionId
    committedBlobOwners := expectedOwners
    verifiedOutcomes := progress.verifiedOutcomes.insert decoded.retryKey decoded.outcome
    verifiedTransactions := progress.verifiedTransactions.insert decoded.outcome.transactionId owned
    verifiedBlobOwners := verifiedOwners }

omit [Primitives] in
/-- At the seed's revision nothing may be left to be found. -/
def anchor (seed : CoordinatorRecoverySeed S) (progress : Seeding S) (group : RecoveredGroup) :
    Except StorageError (Seeding S) := do
  require (group.certificateDigest = seed.certificateDigest ∧ progress.outcomes = ∅ ∧ progress.transactions = ∅ ∧
    progress.committedBlobOwners = ∅) .integrityFailure
  pure {
    state := progress.state
    outcomes := progress.verifiedOutcomes
    transactions := progress.verifiedTransactions
    committedBlobOwners := progress.verifiedBlobOwners
    verifiedOutcomes := ∅
    verifiedTransactions := ∅
    verifiedBlobOwners := ∅
    anchorVerified := true }

def seedVisitor [TransactionState S] (seed : CoordinatorRecoverySeed S) (progress : Seeding S) (group : RecoveredGroup) :
    Except StorageError (Seeding S) :=
  if group.revision.value ≤ seed.revision.value then do
    let progress ← replayGroupMetadataAgainstSeed seed.scope progress group
    if group.revision = seed.revision then anchor seed progress group else pure progress
  else do
    let memory ← replayGroup seed.scope progress.toMemory group
    pure { progress with toMemory := memory }

end

namespace CommitCoordinator

variable {S F W E I : Type} {H : Handles} [TransactionState S] [Primitives] [FileSystem F H] [DurableKeyEnvelope W]

def openSeeded (finalName : EntryName) (scope : NamespaceRef) (retention : RetentionDays) (vaultEntropy : E)
    (identityEntropy : I) (unwrap : DatabaseId → W → Except CryptoError (Octets 32)) (seed : CoordinatorRecoverySeed S) :
    Program F TransactionError (CommitCoordinator S H W E I × RecoveryReport) := do
  ensure (seed.scope = scope) .integrityFailure
  let (journal, report, progress) ← mapError mapOpenError (JournalStore.openInternal finalName scope.database vaultEntropy
    identityEntropy unwrap none (seedVisitor seed) (Seeding.start seed))
  ensure (progress.anchorVerified = true ∧ ∃ frontier ∈ report.frontier, seed.revision.value ≤ frontier.value)
    .integrityFailure
  pure ({ toMemory := progress.toMemory, scope := scope, retention := retention, journal := journal, recovered := true,
          uncertain := false }, report)

end CommitCoordinator

/-! ### Maps that are searched through -/

section Splits

variable {κ α : Type} {cmp : κ → κ → Ordering} [TransCmp cmp] [LawfulEqCmp cmp] {whole expected found : ExtTreeMap κ α cmp}
  {k : κ} {a : α}

/-- Every entry of the whole is either still expected or already found. -/
def Splits (whole expected found : ExtTreeMap κ α cmp) : Prop :=
  ∀ k : κ, whole[k]? = found[k]? ∧ expected[k]? = none ∨ whole[k]? = expected[k]? ∧ found[k]? = none

omit [LawfulEqCmp cmp] in
theorem Splits.start : Splits whole whole ∅ := fun _ => .inr ⟨rfl, ExtTreeMap.getElem?_empty⟩

theorem Splits.move (h : Splits whole expected found) (there : expected[k]? = some a) :
    Splits whole (expected.erase k) (found.insert k a) := by
  intro k'
  by_cases same : k = k'
  · subst same
    rw [ExtTreeMap.getElem?_insert_self, ExtTreeMap.getElem?_erase_self]
    rcases h k with ⟨-, gone⟩ | ⟨whole, -⟩
    · cases gone.symm.trans there
    · exact .inl ⟨whole.trans there, rfl⟩
  · rw [getElem?_erase_ne same, getElem?_insert_ne same]
    exact h k'

theorem Splits.done (h : Splits whole ∅ found) : whole = found := by
  apply ExtTreeMap.ext_getElem?
  intro k
  rcases h k with ⟨same, -⟩ | ⟨whole, none⟩
  · exact same
  · rw [whole, none, ExtTreeMap.getElem?_empty]

end Splits

variable {principal : PrincipalDigest} {whole : BlobOwners} {owners owners' : BlobOwners × BlobOwners}

theorem verifyOwner_ok {reference : BlobReference} (splits : Splits whole owners.1 owners.2)
    (h : verifyOwner principal owners reference = .ok owners') : Splits whole owners'.1 owners'.2 ∧
      owners'.2 = owners.2.insertIfNew reference.blobKey (reference, principal) := by
  unfold verifyOwner at h
  split at h
  · rename_i committed _ found
    obtain ⟨_, -, h⟩ := bind_ok h
    cases h
    exact ⟨splits, (insertIfNew_old (mem_of_some found)).symm⟩
  · rename_i new
    obtain ⟨owner, expected, h⟩ := bind_ok h
    cases h
    obtain ⟨there, same⟩ := Option.filter_eq_some_iff.mp (orError_ok.mp expected)
    obtain ⟨rfl, rfl⟩ := of_decide_eq_true same
    exact ⟨splits.move there, (insertIfNew_new (not_mem_of_none new)).symm⟩

theorem foldlM_verifyOwner {references : List BlobReference} (splits : Splits whole owners.1 owners.2)
    (h : references.foldlM (verifyOwner principal) owners = .ok owners') :
    Splits whole owners'.1 owners'.2 ∧ owners'.2 = recordOwners principal owners.2 references := by
  induction references generalizing owners with
  | nil =>
    cases h
    exact ⟨splits, rfl⟩
  | cons reference references ih =>
    obtain ⟨next, first, h⟩ := foldlM_step h
    obtain ⟨splits', found⟩ := verifyOwner_ok splits first
    obtain ⟨splits'', recorded⟩ := ih splits' h
    rw [found] at recorded
    exact ⟨splits'', recorded⟩

/-! ### Seeded replay against plain replay -/

section Replaying

variable {S : Type} [TransactionState S] [Primitives] {seed : CoordinatorRecoverySeed S} {initial : S}
  {progress progress' : Seeding S} {memory memory' : Memory S} {group : RecoveredGroup} {groups : List RecoveredGroup}

omit [TransactionState S] [Primitives] in
/-- Two memories that differ at most in the state of the reducer. -/
structure SameMaps (a b : Memory S) : Prop where
  outcomes : a.outcomes = b.outcomes
  transactions : a.transactions = b.transactions
  committedBlobOwners : a.committedBlobOwners = b.committedBlobOwners

variable {a b : Memory S}

omit [TransactionState S] [Primitives] in
theorem SameMaps.eq (same : SameMaps a b) (state : a.state = b.state) : a = b := by
  obtain ⟨outcomes, transactions, owners⟩ := same
  cases a
  cases b
  cases state
  cases outcomes
  cases transactions
  cases owners
  rfl

/-- Before the anchor: what was found is what plain replay knows, and with what is still expected it is the seed. -/
structure Searching (seed : CoordinatorRecoverySeed S) (progress : Seeding S) (memory : Memory S) : Prop where
  state : progress.state = seed.state
  unanchored : progress.anchorVerified = false
  outcomes : Splits seed.outcomes progress.outcomes progress.verifiedOutcomes
  transactions : Splits seed.transactions progress.transactions progress.verifiedTransactions
  committedBlobOwners : Splits seed.committedBlobOwners progress.committedBlobOwners progress.verifiedBlobOwners
  foundOutcomes : progress.verifiedOutcomes = memory.outcomes
  foundTransactions : progress.verifiedTransactions = memory.transactions
  foundOwners : progress.verifiedBlobOwners = memory.committedBlobOwners

/-- From the anchor on: the seed was the memory at its revision, and the maps follow plain replay. -/
structure Anchored (seed : CoordinatorRecoverySeed S) (initial : S) (groups : List RecoveredGroup) (progress : Seeding S)
    (memory : Memory S) : Prop where
  verified : progress.anchorVerified = true
  maps : SameMaps progress.toMemory memory
  seeded : ∃ earlier last later before, groups = earlier ++ last :: later ∧ last.revision = seed.revision ∧
    last.certificateDigest = seed.certificateDigest ∧ replay seed.scope initial (earlier ++ [last]) = .ok before ∧
    SameMaps seed.toMemory before ∧ (seed.state = before.state → progress.state = memory.state)

omit [Primitives] [TransactionState S] in
theorem Searching.start (seed : CoordinatorRecoverySeed S) (initial : S) :
    Searching seed (Seeding.start seed) (Memory.initial initial) :=
  ⟨rfl, rfl, .start, .start, .start, rfl, rfl, rfl⟩

theorem Searching.step (searching : Searching seed progress memory)
    (h : replayGroupMetadataAgainstSeed seed.scope progress group = .ok progress')
    (replays : replayGroup seed.scope memory group = .ok memory') : Searching seed progress' memory' := by
  obtain ⟨decoded, prepared, decodes, -, -, -, rfl⟩ := replayGroup_ok replays
  obtain ⟨_, -, decodes⟩ := bind_ok decodes
  obtain ⟨_, -, decoded', decodes', h⟩ := bind_ok₂ h
  cases (mapError_eq_ok decodes).symm.trans (mapError_eq_ok decodes')
  obtain ⟨_, expected, owners, verified, h⟩ := bind_ok₂ h
  cases h
  obtain ⟨outcome, transaction, -, -⟩ := require_ok.mp expected
  obtain ⟨splits, recorded⟩ := foldlM_verifyOwner searching.committedBlobOwners verified
  exact {
    state := searching.state
    unanchored := searching.unanchored
    outcomes := searching.outcomes.move outcome
    transactions := searching.transactions.move transaction
    committedBlobOwners := splits
    foundOutcomes := by dsimp only; rw [searching.foundOutcomes]
    foundTransactions := by dsimp only; rw [searching.foundTransactions]
    foundOwners := by
      rw [recorded, searching.foundOwners] }

variable {earlier : List RecoveredGroup}

theorem Searching.anchor (searching : Searching seed progress memory)
    (replayed : replay seed.scope initial (earlier ++ [group]) = .ok memory) (last : group.revision = seed.revision)
    (h : anchor seed progress group = .ok progress') : Anchored seed initial (earlier ++ [group]) progress' memory := by
  obtain ⟨_, complete, h⟩ := bind_ok h
  obtain ⟨certificate, noOutcomes, noTransactions, noOwners⟩ := require_ok.mp complete
  cases h
  have outcomes := searching.outcomes
  have transactions := searching.transactions
  have owners := searching.committedBlobOwners
  rw [noOutcomes] at outcomes
  rw [noTransactions] at transactions
  rw [noOwners] at owners
  refine ⟨rfl, ⟨searching.foundOutcomes, searching.foundTransactions, searching.foundOwners⟩, earlier, group, [], memory,
    rfl, last, certificate, replayed, ⟨?_, ?_, ?_⟩, searching.state.trans⟩
  · exact outcomes.done.trans searching.foundOutcomes
  · exact transactions.done.trans searching.foundTransactions
  · exact owners.done.trans searching.foundOwners

variable {scope : NamespaceRef}

theorem SameMaps.replayGroup {a' b' : Memory S} (same : SameMaps a b)
    (ha : replayGroup scope a group = .ok a') (hb : replayGroup scope b group = .ok b') :
    SameMaps a' b' ∧ (a.state = b.state → a'.state = b'.state) := by
  refine ⟨?_, fun state => ?_⟩
  · obtain ⟨decoded, prepared, decodes, -, -, -, rfl⟩ := replayGroup_ok ha
    obtain ⟨decoded', prepared', decodes', -, -, -, rfl⟩ := replayGroup_ok hb
    cases decodes.symm.trans decodes'
    constructor
    · dsimp only
      rw [same.outcomes]
    · dsimp only
      rw [same.transactions]
    · dsimp only
      rw [same.committedBlobOwners]
  · obtain rfl := same.eq state
    cases ha.symm.trans hb
    rfl

theorem Anchored.step (anchored : Anchored seed initial groups progress memory) {found : Memory S}
    (h : replayGroup seed.scope progress.toMemory group = .ok found)
    (replays : replayGroup seed.scope memory group = .ok memory') :
    Anchored seed initial (groups ++ [group]) { progress with toMemory := found } memory' := by
  obtain ⟨earlier, last, later, before, rfl, revision, certificate, replayed, maps, state⟩ := anchored.seeded
  obtain ⟨maps', state'⟩ := anchored.maps.replayGroup h replays
  exact ⟨anchored.verified, maps', earlier, last, later ++ [group], before, by simp, revision, certificate, replayed, maps,
    fun same => state' (state same)⟩

/-- The visitor searches until it meets the seed's revision, and from there follows plain replay. -/
theorem seedVisitor_ok (numbered : groups.map (·.revision.value) = List.range' 1 groups.length)
    (visited : groups.foldlM (seedVisitor seed) (Seeding.start seed) = .ok progress)
    (replayed : replay seed.scope initial groups = .ok memory) :
    groups.length < seed.revision.value ∧ Searching seed progress memory ∨
      seed.revision.value ≤ groups.length ∧ Anchored seed initial groups progress memory := by
  induction groups using List.reverseRecOn generalizing progress memory with
  | nil =>
    cases visited
    cases replayed
    exact .inl ⟨seed.revision.nonzero, .start seed initial⟩
  | append_singleton groups group ih =>
    rw [map_append, length_append, length_singleton, List.range'_concat] at numbered
    obtain ⟨numbered, last⟩ := append_inj' numbered rfl
    have number : group.revision.value = groups.length + 1 := by simpa [Nat.add_comm] using last
    rw [foldlM_append] at visited
    obtain ⟨between, visited, step⟩ := bind_ok visited
    obtain ⟨before, replayedBefore, replays⟩ := replay_snoc_ok replayed
    obtain ⟨after, step, done⟩ := foldlM_step step
    cases done
    have reached := ih numbered visited replayedBefore
    rw [length_append, length_singleton]
    unfold seedVisitor at step
    split at step
    · have searching : Searching seed between before := by
        rcases reached with ⟨-, searching⟩ | ⟨beyond, -⟩
        · exact searching
        · omega
      obtain ⟨found, search, step⟩ := bind_ok step
      have searched := searching.step search replays
      split at step
      · rename_i anchors
        have value := congrArg CommitRevision.value anchors
        exact .inr ⟨by omega, searched.anchor replayed anchors step⟩
      · rename_i other
        cases step
        have : group.revision.value ≠ seed.revision.value := fun same => other (CommitRevision.ext same)
        exact .inl ⟨by omega, searched⟩
    · obtain ⟨found, search, step⟩ := bind_ok step
      cases step
      rcases reached with ⟨short, -⟩ | ⟨-, anchored⟩
      · omega
      · exact .inr ⟨by omega, anchored.step search replays⟩

/-! ### Seeds that are accepted -/

section

omit [TransactionState S] [Primitives]

/-- The second memory knows all the first one does. -/
structure KnownBy (a b : Memory S) : Prop where
  outcomes : ∀ (key : RetryKey) outcome, a.outcomes[key]? = some outcome → b.outcomes[key]? = some outcome
  transactions : ∀ (id : TransactionId) owned, a.transactions[id]? = some owned → b.transactions[id]? = some owned
  committedBlobOwners : ∀ (key : BlobKey) owner, a.committedBlobOwners[key]? = some owner →
    b.committedBlobOwners[key]? = some owner

theorem recordOwners_of_some {principal : PrincipalDigest} {owners : BlobOwners} {references : List BlobReference}
    {key : BlobKey} {owner : BlobReference × PrincipalDigest} (h : owners[key]? = some owner) :
    (recordOwners principal owners references)[key]? = some owner := by
  unfold recordOwners
  induction references generalizing owners with
  | nil => exact h
  | cons reference references ih =>
    exact ih (some_insertIfNew.mpr (.inl h))

end

theorem replayGroup_knownBy (h : replayGroup scope memory group = .ok memory') : KnownBy memory memory' := by
  obtain ⟨decoded, prepared, -, -, newKey, newTransaction, rfl⟩ := replayGroup_ok h
  exact ⟨fun _ _ => some_insert_new newKey, fun _ _ => some_insert_new newTransaction,
    fun _ _ => recordOwners_of_some⟩

variable {later : List RecoveredGroup}

theorem replay_knownBy
    (h : replay scope initial groups = .ok memory) (h' : replay scope initial (groups ++ later) = .ok memory') :
    KnownBy memory memory' := by
  induction later using List.reverseRecOn generalizing memory' with
  | nil =>
    rw [append_nil] at h'
    cases h.symm.trans h'
    exact ⟨fun _ _ => id, fun _ _ => id, fun _ _ => id⟩
  | append_singleton later group ih =>
    rw [← append_assoc] at h'
    obtain ⟨between, replayed, step⟩ := replay_snoc_ok h'
    have first := ih replayed
    have second := replayGroup_knownBy step
    exact ⟨fun key outcome found => second.outcomes key outcome (first.outcomes key outcome found),
      fun id owned found => second.transactions id owned (first.transactions id owned found),
      fun key owner found => second.committedBlobOwners key owner (first.committedBlobOwners key owner found)⟩

section

omit [TransactionState S] [Primitives]

theorem Splits.expected {κ α : Type} {cmp : κ → κ → Ordering} [TransCmp cmp] {whole expected found : ExtTreeMap κ α cmp}
    {k : κ} {a : α} (h : Splits whole expected found) (missing : found[k]? = none) (there : whole[k]? = some a) :
    expected[k]? = some a := by
  rcases h k with ⟨same, -⟩ | ⟨same, -⟩
  · rw [there, missing] at same
    cases same
  · exact same.symm.trans there

theorem Splits.nothing {κ α : Type} {cmp : κ → κ → Ordering} [TransCmp cmp] [LawfulEqCmp cmp]
    {whole expected : ExtTreeMap κ α cmp} (h : Splits whole expected whole) : expected = ∅ := by
  apply ExtTreeMap.ext_getElem?
  intro k
  rcases h k with ⟨-, none⟩ | ⟨same, none⟩
  · exact none
  · exact same.symm.trans none

theorem foldlM_verifyOwner_succeeds (principal : PrincipalDigest) {whole : BlobOwners} {references : List BlobReference}
    (owners : BlobOwners × BlobOwners) (splits : Splits whole owners.1 owners.2)
    (known : ∀ (key : BlobKey) owner, (recordOwners principal owners.2 references)[key]? = some owner →
      whole[key]? = some owner)
    (consistent : ∀ r ∈ references, ∀ owner, whole[r.blobKey]? = some owner → owner.1 = r) :
    ∃ owners', references.foldlM (verifyOwner principal) owners = .ok owners' := by
  induction references generalizing owners with
  | nil => exact ⟨owners, rfl⟩
  | cons reference references ih =>
    have step : ∃ next, verifyOwner principal owners reference = .ok next := by
      unfold verifyOwner
      cases found : owners.2[reference.blobKey]? with
      | some owner =>
        have same := consistent reference mem_cons_self owner (known _ _ (recordOwners_of_some found))
        refine ⟨owners, ?_⟩
        dsimp only
        rw [require_pos _ same]
        rfl
      | none =>
        have recorded : (owners.2.insertIfNew reference.blobKey (reference, principal))[reference.blobKey]? =
            some (reference, principal) := by
          rw [insertIfNew_new (not_mem_of_none found), ExtTreeMap.getElem?_insert_self]
        have kept : (recordOwners principal (owners.2.insertIfNew reference.blobKey (reference, principal))
            references)[reference.blobKey]? = some (reference, principal) := recordOwners_of_some recorded
        have expected := splits.expected found (known _ _ kept)
        refine ⟨(owners.1.erase reference.blobKey, owners.2.insert reference.blobKey (reference, principal)), ?_⟩
        rw [expected, Option.filter_some_pos (by simp)]
        rfl
    obtain ⟨next, first⟩ := step
    obtain ⟨splits', found⟩ := verifyOwner_ok splits first
    obtain ⟨owners', rest⟩ := ih next splits' (fun key owner h => known key owner (by rw [found] at h; exact h))
      fun r mem => consistent r (mem_cons_of_mem _ mem)
    exact ⟨owners', by rw [foldlM_cons, first]; exact rest⟩

theorem recordOwners_from {principal : PrincipalDigest} {owners : BlobOwners} {references : List BlobReference}
    {key : BlobKey} {owner : BlobReference × PrincipalDigest}
    (h : (recordOwners principal owners references)[key]? = some owner) :
    owners[key]? = some owner ∨ owner.1 ∈ references ∧ owner.1.blobKey = key := by
  unfold recordOwners at h
  induction references generalizing owners with
  | nil => exact .inl h
  | cons reference references ih =>
    rcases ih h with h | ⟨mem, same⟩
    · obtain h | ⟨-, same, rfl⟩ := some_insertIfNew.mp h
      · exact .inl h
      · exact .inr ⟨mem_cons_self, same⟩
    · exact .inr ⟨mem_cons_of_mem _ mem, same⟩

end

theorem replay_owners (h : replay scope initial groups = .ok memory) {key : BlobKey}
    {owner : BlobReference × PrincipalDigest} (found : memory.committedBlobOwners[key]? = some owner) :
    owner.1.blobKey = key ∧ ∃ g ∈ groups, owner.1 ∈ referencesOf g.blobInventory := by
  induction groups using List.reverseRecOn generalizing memory with
  | nil =>
    cases h
    cases found
  | append_singleton groups group ih =>
    obtain ⟨before, replayed, step⟩ := replay_snoc_ok h
    obtain ⟨decoded, prepared, decodes, -, -, -, rfl⟩ := replayGroup_ok step
    rcases recordOwners_from found with earlier | ⟨mem, same⟩
    · obtain ⟨same, g, mem, there⟩ := ih replayed earlier
      exact ⟨same, g, mem_append_left _ mem, there⟩
    · rw [(decodeRecoveredGroup_sound decodes).blobInventory] at mem
      exact ⟨same, group, mem_append_right _ (mem_singleton_self group), mem⟩

theorem Searching.advances (searching : Searching seed progress memory)
    (replays : replayGroup seed.scope memory group = .ok memory') (known : KnownBy memory' seed.toMemory)
    (consistent : ∀ r ∈ referencesOf group.blobInventory, ∀ owner,
      seed.committedBlobOwners[r.blobKey]? = some owner → owner.1 = r) :
    ∃ progress', replayGroupMetadataAgainstSeed seed.scope progress group = .ok progress' := by
  obtain ⟨decoded, prepared, decodes, -, newKey, newTransaction, rfl⟩ := replayGroup_ok replays
  have sound := decodeRecoveredGroup_sound decodes
  obtain ⟨_, intact, decodes⟩ := bind_ok decodes
  have outcome := known.outcomes _ _ ExtTreeMap.getElem?_insert_self
  have transaction := known.transactions _ _ ExtTreeMap.getElem?_insert_self
  rw [← searching.foundOutcomes] at newKey
  rw [← searching.foundTransactions] at newTransaction
  rw [← sound.blobInventory] at consistent
  obtain ⟨owners, verified⟩ := foldlM_verifyOwner_succeeds decoded.retryKey.principal
    (progress.committedBlobOwners, progress.verifiedBlobOwners) searching.committedBlobOwners
    (fun key owner found => known.committedBlobOwners key owner (by rw [searching.foundOwners] at found; exact found))
    consistent
  unfold replayGroupMetadataAgainstSeed
  rw [require_pos _ (require_ok.mp intact), ok_bind, mapError_eq_ok decodes, mapError_ok, ok_bind]
  dsimp only
  rw [require_pos _ ⟨searching.outcomes.expected (ExtTreeMap.getElem?_eq_none newKey) outcome,
    searching.transactions.expected (ExtTreeMap.getElem?_eq_none newTransaction) transaction, newKey, newTransaction⟩,
    ok_bind, verified, ok_bind]
  exact ⟨_, rfl⟩

theorem searches (early : ∀ g ∈ groups, g.revision.value < seed.revision.value)
    (replayed : replay seed.scope initial (groups ++ later) = .ok seed.toMemory)
    (consistent : ∀ g ∈ groups, ∀ r ∈ referencesOf g.blobInventory, ∀ owner,
      seed.committedBlobOwners[r.blobKey]? = some owner → owner.1 = r) :
    ∃ progress memory, groups.foldlM (seedVisitor seed) (Seeding.start seed) = .ok progress ∧
      replay seed.scope initial groups = .ok memory ∧ Searching seed progress memory := by
  induction groups using List.reverseRecOn generalizing later with
  | nil => exact ⟨_, _, rfl, rfl, .start seed initial⟩
  | append_singleton groups group ih =>
    have inside : ∀ g ∈ groups, g ∈ groups ++ [group] := fun g mem => mem_append_left _ mem
    rw [append_assoc] at replayed
    obtain ⟨progress, memory, visited, before, searching⟩ := ih (fun g mem => early g (inside g mem)) replayed
      fun g mem => consistent g (inside g mem)
    rw [← append_assoc] at replayed
    obtain ⟨after, replayedAfter⟩ : ∃ after, replay seed.scope initial (groups ++ [group]) = .ok after := by
      unfold replay at replayed ⊢
      rw [foldlM_append] at replayed
      obtain ⟨after, first, -⟩ := bind_ok replayed
      exact ⟨after, first⟩
    have replays := replayedAfter
    rw [replay_snoc group before] at replays
    have member : group ∈ groups ++ [group] := mem_append_right _ (mem_singleton_self group)
    obtain ⟨progress', search⟩ := searching.advances replays (replay_knownBy replayedAfter replayed) (consistent group member)
    refine ⟨progress', after, ?_, replayedAfter, searching.step search replays⟩
    have lower := early group member
    rw [foldlM_append, visited, ok_bind, foldlM_cons, seedVisitor, if_pos (Nat.le_of_lt lower), search, ok_bind,
      if_neg (fun same => Nat.lt_irrefl _ (same ▸ lower))]
    rfl

theorem visits_later (late : ∀ g ∈ later, seed.revision.value < g.revision.value)
    (replayed : later.foldlM (replayGroup seed.scope) progress.toMemory = .ok memory) :
    later.foldlM (seedVisitor seed) progress = .ok { progress with toMemory := memory } := by
  induction later generalizing progress with
  | nil =>
    cases replayed
    rfl
  | cons group later ih =>
    rw [foldlM_cons] at replayed ⊢
    obtain ⟨next, step, replayed⟩ := bind_ok replayed
    rw [seedVisitor, if_neg (Nat.not_le.mpr (late group mem_cons_self)), step, ok_bind, pure_bind]
    exact ih (fun g mem => late g (mem_cons_of_mem _ mem)) replayed

variable {last : RecoveredGroup}

theorem seedVisitor_succeeds
    (early : ∀ g ∈ earlier, g.revision.value < seed.revision.value) (here : last.revision = seed.revision)
    (late : ∀ g ∈ later, seed.revision.value < g.revision.value) (certificate : last.certificateDigest = seed.certificateDigest)
    (replayed : replay seed.scope initial (earlier ++ [last]) = .ok seed.toMemory)
    (whole : replay seed.scope initial (earlier ++ last :: later) = .ok memory)
    (consistent : ∀ g ∈ earlier ++ [last], ∀ r ∈ referencesOf g.blobInventory, ∀ owner,
      seed.committedBlobOwners[r.blobKey]? = some owner → owner.1 = r) :
    (earlier ++ last :: later).foldlM (seedVisitor seed) (Seeding.start seed) = .ok ⟨memory, ∅, ∅, ∅, true⟩ := by
  obtain ⟨progress, before, visited, replayedBefore, searching⟩ := searches early replayed
    fun g mem => consistent g (mem_append_left _ mem)
  have replays := replayed
  rw [replay_snoc last replayedBefore] at replays
  obtain ⟨found, search⟩ := searching.advances replays ⟨fun _ _ => id, fun _ _ => id, fun _ _ => id⟩
    (consistent last (mem_append_right _ (mem_singleton_self last)))
  have searched := searching.step search replays
  have outcomes := searched.outcomes
  have transactions := searched.transactions
  have owners := searched.committedBlobOwners
  rw [searched.foundOutcomes] at outcomes
  rw [searched.foundTransactions] at transactions
  rw [searched.foundOwners] at owners
  have anchored : anchor seed found last = .ok ⟨seed.toMemory, ∅, ∅, ∅, true⟩ := by
    unfold anchor
    rw [require_pos _ ⟨certificate, outcomes.nothing, transactions.nothing, owners.nothing⟩, ok_bind, searched.foundOutcomes,
      searched.foundTransactions, searched.foundOwners, searched.state]
    rfl
  have rest : later.foldlM (replayGroup seed.scope) seed.toMemory = .ok memory := by
    rw [append_cons] at whole
    unfold replay at whole replayed
    rw [foldlM_append, replayed, ok_bind] at whole
    exact whole
  rw [foldlM_append, visited, ok_bind, foldlM_cons, seedVisitor, if_pos (Nat.le_of_eq (congrArg _ here)), search,
    ok_bind, if_pos here, anchored, ok_bind]
  exact visits_later late rest

/-- A journal accepts the seed that is its memory at one of its certificates, and goes on to its whole replay. -/
theorem chain_accepts_seed {W : Type} {charter : Charter W} {used : BlobInventory → Prop} {log : List Entry}
    (chain : Chain charter used log)
    (split : log.map Entry.recovered = earlier ++ last :: later) (here : last.revision = seed.revision)
    (certificate : last.certificateDigest = seed.certificateDigest)
    (replayed : replay seed.scope initial (earlier ++ [last]) = .ok seed.toMemory)
    (whole : replay seed.scope initial (log.map Entry.recovered) = .ok memory) :
    (log.map Entry.recovered).foldlM (seedVisitor seed) (Seeding.start seed) = .ok ⟨memory, ∅, ∅, ∅, true⟩ ∧
      seed.revision.value ≤ log.length := by
  have numbered : ((earlier ++ last :: later).map (·.revision.value)) = List.range' 1 log.length := by
    rw [← split, map_map]
    exact chain.revisions
  have ordered := pairwise_lt_range' (s := 1) (n := log.length)
  rw [← numbered, map_append, map_cons, pairwise_append, pairwise_cons] at ordered
  obtain ⟨-, ⟨after, -⟩, across⟩ := ordered
  have small : last.revision.value ≤ log.length := by
    have mem : last.revision.value ∈ List.range' 1 log.length := by
      rw [← numbered]
      exact mem_map_of_mem (mem_append_right _ mem_cons_self)
    rw [mem_range'_1] at mem
    omega
  rw [here] at after across small
  -- one blob has one reference in the journal
  have logged : ∀ g ∈ earlier ++ [last], ∃ e ∈ log, e.recovered = g := by
    intro g mem
    have : g ∈ log.map Entry.recovered := by
      rw [split, append_cons]
      exact mem_append_left _ mem
    exact mem_map.mp this
  have consistent : ∀ g ∈ earlier ++ [last], ∀ r ∈ referencesOf g.blobInventory, ∀ owner,
      seed.committedBlobOwners[r.blobKey]? = some owner → owner.1 = r := by
    intro g mem r there owner found
    obtain ⟨e, listed, rfl⟩ := logged g mem
    obtain ⟨same, g', mem', there'⟩ := replay_owners replayed found
    obtain ⟨e', listed', rfl⟩ := logged g' mem'
    have first := chain.blobs e listed r there
    have second := chain.blobs e' listed' owner.1 there'
    rw [same, first] at second
    exact (Option.some.inj second).symm
  rw [split] at whole ⊢
  refine ⟨seedVisitor_succeeds (fun g mem => ?_) here (fun g mem => ?_) certificate replayed whole consistent, small⟩
  · exact across _ (mem_map_of_mem mem) _ mem_cons_self
  · exact after _ (mem_map_of_mem mem)

end Replaying

namespace CoordinatorSession

section Seeded

variable {S W E I : Type} [TransactionState S] [Primitives] [Primitives.Lawful] [DurableKeyEnvelope W] [EntropySource E]
  [EntropySource I] {used : BlobInventory → Prop} {o : Installation S W} {s : CoordinatorSession S W E I}
  {seed : CoordinatorRecoverySeed S} {retention : RetentionDays} {vaultEntropy : E} {identityEntropy : I}
  {c : CommitCoordinator S memoryHandles W E I} {report : RecoveryReport} {files' : MemoryFileSystem}

/-- Two coordinators that know the same. -/
structure SameCoordinator (a b : CommitCoordinator S memoryHandles W E I) : Prop where
  memory : a.toMemory = b.toMemory
  scope : a.scope = b.scope
  retention : a.retention = b.retention
  journal : Storage.Session.SameKnowledge a.journal b.journal
  recovered : a.recovered = b.recovered
  uncertain : a.uncertain = b.uncertain

variable {charter : Charter W} {log : List Entry}

omit [TransactionState S] [Primitives.Lawful] [DurableKeyEnvelope W] [EntropySource E] [EntropySource I] in
theorem OpenedOn.same {a b : CommitCoordinator S memoryHandles W E I} {m n : Memory S}
    (opened : OpenedOn charter o log retention m a) (opened' : OpenedOn charter o log retention n b) (same : m = n) :
    SameCoordinator a b where
  memory := opened.memory.trans (same.trans opened'.memory.symm)
  scope := opened.scope.trans opened'.scope.symm
  retention := opened.retention.trans opened'.retention.symm
  journal := .of_tip opened.tip opened'.tip (opened.unlimited.trans opened'.unlimited.symm)
  recovered := opened.recovered.trans opened'.recovered.symm
  uncertain := opened.certain.trans opened'.certain.symm

section Reporting

variable {F : Type} {H : Handles} [FileSystem F H] {V : Type} {visitor : V → RecoveredGroup → Except StorageError V} {init : V}
  {files : F}

section

omit [EntropySource E] [EntropySource I] [Primitives.Lawful] [TransactionState S]

theorem openLocked_report {directory : H.Directory} {guard : H.Guard} :
    wp (JournalStore.openLocked directory guard o.scope.database vaultEntropy identityEntropy o.unwrap none visitor init)
      (fun (result : JournalStore H W E I × RecoveryReport × V) _ => result.2.1.frontier = result.1.frontier)
      (fun _ _ => True) files := by
  unfold JournalStore.openLocked
  refine wp_last fun vault _ => ?_
  refine wp_last fun (manifest, epoch) _ => ?_
  refine wp_last fun (certificateFile, certificateLen) _ => ?_
  refine wp_last fun segment _ => ?_
  generalize JournalStore.certificatePayload certificateLen = payload
  obtain ⟨count, complete, torn⟩ := payload
  refine wp_last fun _ _ => ?_
  refine wp_last fun (replayed, ignored, visited) _ => ?_
  rw [wp_pure]

theorem openInternal_report :
    wp (JournalStore.openInternal o.finalName o.scope.database vaultEntropy identityEntropy o.unwrap none visitor init)
      (fun (result : JournalStore H W E I × RecoveryReport × V) _ => result.2.1.frontier = result.1.frontier)
      (fun _ _ => True) files := by
  unfold JournalStore.openInternal
  refine wp_last fun files _ => ?_
  refine wp_last fun directory _ => ?_
  refine wp_last fun ownership _ => ?_
  rw [wp_onError]
  exact openLocked_report

end

end Reporting

omit [TransactionState S] [Primitives.Lawful] [DurableKeyEnvelope W] [EntropySource E] [EntropySource I] in
theorem frontier_reaches {H : Handles} {journal : JournalStore H W E I}
    {report : RecoveryReport} {revision : CommitRevision} (chain : Chain charter used log)
    (tip : AtTip journal (Tip.after charter log)) (reported : report.frontier = journal.frontier)
    (small : revision.value ≤ log.length) : ∃ frontier ∈ report.frontier, revision.value ≤ frontier.value := by
  rcases chain.frontier_eq with ⟨-, empty⟩ | ⟨last, frontier, size⟩
  · have := revision.nonzero
    omega
  · exact ⟨last, reported.trans (tip.frontier.trans frontier), by omega⟩

variable {files : MemoryFileSystem}

omit [Primitives.Lawful] [EntropySource E] [EntropySource I] in
theorem ReadsLog.openSeeded
    (reads : ReadsLog E I charter o files log) (seed : CoordinatorRecoverySeed S) (retention : RetentionDays)
    (vaultEntropy : E) (identityEntropy : I) :
    wp (CommitCoordinator.openSeeded o.finalName o.scope retention vaultEntropy identityEntropy o.unwrap seed)
      (fun (result : CommitCoordinator S memoryHandles W E I × RecoveryReport) _ => seed.scope = o.scope ∧
        ∃ progress : Seeding S, (log.map Entry.recovered).foldlM (seedVisitor seed) (Seeding.start seed) = .ok progress ∧
          progress.anchorVerified = true ∧ OpenedOn charter o log retention progress.toMemory result.1)
      (fun _ _ => True) files := by
  unfold CommitCoordinator.openSeeded
  refine wp_checks (fun scope => ?_) fun _ => trivial
  refine wp_maps (reads (seedVisitor seed) _ vaultEntropy identityEntropy) ?_ fun _ _ _ => trivial
  rintro ⟨journal, report, progress⟩ fs' ⟨visited, tip, unlimited⟩
  rw [wp_bind, wp_ensure]
  exact ⟨fun anchored => ⟨scope, progress, visited, anchored.1, rfl, rfl, rfl, rfl, rfl, tip, unlimited⟩, fun _ => trivial⟩

/-- Opening from a seed succeeds only where a certificate of the journal has the seed's revision and digest and the maps
of the seed are those of the groups up to it. Then its maps are those of a full opening, and where the seed has the
reducer state of those groups too, so is the whole coordinator. -/
theorem seeded_opening_agrees (reachable : Reachable used o s) (ended : s.coordinator = none)
    (opened : (CommitCoordinator.openSeeded o.finalName o.scope retention vaultEntropy identityEntropy o.unwrap seed).run
      s.files = (.ok (c, report), files')) :
    ∃ (earlier later : List RecoveredGroup) (last : RecoveredGroup) (before : Memory S)
      (full : CommitCoordinator S memoryHandles W E I) (report' : RecoveryReport) (files'' : MemoryFileSystem),
      JournalShows E I o s.files (earlier ++ last :: later) ∧ last.revision = seed.revision ∧
      last.certificateDigest = seed.certificateDigest ∧
      replay o.scope o.initialState (earlier ++ [last]) = .ok before ∧ SameMaps seed.toMemory before ∧
      (CommitCoordinator.openJournal o.finalName o.scope retention vaultEntropy identityEntropy o.unwrap
        o.initialState).run s.files = (.ok (full, report'), files'') ∧
      SameMaps c.toMemory full.toMemory ∧ (seed.state = before.state → SameCoordinator c full) := by
  obtain ⟨charter, fits, noCollision, v, log, memory, inv⟩ := reachable.inv
  obtain ⟨log', settled, chain, reads⟩ := closed_reads (inv.closed ended) fits noCollision inv.shows
  obtain ⟨memory', replayed⟩ := Settled.replayed settled inv.replayed
  obtain ⟨⟨full, report'⟩, files'', ran, whole⟩ :=
    wp_succeeds (reads.openJournal replayed retention vaultEntropy identityEntropy)
  obtain ⟨inScope, progress, visited, anchored, seeded⟩ :=
    wp_ok (reads.openSeeded seed retention vaultEntropy identityEntropy) opened
  have numbered : (log'.map Entry.recovered).map (·.revision.value) = List.range' 1 (log'.map Entry.recovered).length := by
    rw [map_map, length_map]
    exact chain.revisions
  rw [← inScope] at replayed
  rcases seedVisitor_ok numbered visited replayed with ⟨-, searching⟩ | ⟨-, found⟩
  · rw [searching.unanchored] at anchored
    cases anchored
  obtain ⟨earlier, last, later, before, split, revision, certificate, replayedBefore, maps, state⟩ := found.seeded
  refine ⟨earlier, later, last, before, full, report', files'', ?_, revision, certificate, inScope ▸ replayedBefore, maps,
    ran, ?_, fun same => seeded.same whole (found.maps.eq (state same))⟩
  · rw [← split]
    exact reads.journalShows
  · rw [seeded.memory, whole.memory]
    exact found.maps

omit [Primitives.Lawful] [EntropySource E] [EntropySource I] in
theorem ReadsLog.openSeeded_accepted {memory : Memory S}
    (reads : ReadsLog E I charter o files log) (chain : Chain charter used log) (scope : seed.scope = o.scope)
    (visited : (log.map Entry.recovered).foldlM (seedVisitor seed) (Seeding.start seed) = .ok ⟨memory, ∅, ∅, ∅, true⟩)
    (small : seed.revision.value ≤ log.length) (retention : RetentionDays) (vaultEntropy : E) (identityEntropy : I) :
    wp (CommitCoordinator.openSeeded o.finalName o.scope retention vaultEntropy identityEntropy o.unwrap seed)
      (fun (result : CommitCoordinator S memoryHandles W E I × RecoveryReport) _ =>
        OpenedOn charter o log retention memory result.1)
      (fun _ _ => False) files := by
  unfold CommitCoordinator.openSeeded
  apply wp_pass scope
  refine wp_maps (wp_and (reads (seedVisitor seed) (Seeding.start seed) vaultEntropy identityEntropy) openInternal_report)
    ?_ ?_
  · rintro ⟨journal, report, progress⟩ fs' ⟨⟨visited', tip, unlimited⟩, reported⟩
    cases visited.symm.trans visited'
    apply wp_pass ⟨rfl, frontier_reaches chain tip reported small⟩
    exact ⟨rfl, rfl, rfl, rfl, rfl, tip, unlimited⟩
  · rintro err fs' ⟨refused, -⟩
    cases visited.symm.trans refused

/-- A seed with the memory of the groups up to a certificate of the journal is accepted. -/
theorem seeded_opening_succeeds (reachable : Reachable used o s) (ended : s.coordinator = none)
    {earlier later : List RecoveredGroup} {last : RecoveredGroup}
    (shown : JournalShows E I o s.files (earlier ++ last :: later)) (scope : seed.scope = o.scope)
    (here : last.revision = seed.revision) (certificate : last.certificateDigest = seed.certificateDigest)
    (replayed : replay o.scope o.initialState (earlier ++ [last]) = .ok seed.toMemory) (retention : RetentionDays)
    (vaultEntropy : E) (identityEntropy : I) :
    ∃ (c : CommitCoordinator S memoryHandles W E I) (report : RecoveryReport) (files' : MemoryFileSystem),
      (CommitCoordinator.openSeeded o.finalName o.scope retention vaultEntropy identityEntropy o.unwrap seed).run s.files =
        (.ok (c, report), files') := by
  obtain ⟨charter, fits, noCollision, v, log, memory, inv⟩ := reachable.inv
  obtain ⟨log', settled, chain, reads⟩ := closed_reads (inv.closed ended) fits noCollision inv.shows
  obtain ⟨memory', whole⟩ := Settled.replayed settled inv.replayed
  -- what is shown is the log
  obtain ⟨_, _, _, ran⟩ := shown vaultEntropy identityEntropy
  obtain ⟨_, _, _, ran'⟩ := reads.journalShows vaultEntropy identityEntropy
  have split : log'.map Entry.recovered = earlier ++ last :: later := by
    have same := ran'.symm.trans ran
    simp only [Prod.mk.injEq, Except.ok.injEq] at same
    exact same.1.2.2
  rw [← scope] at whole replayed
  obtain ⟨visited, small⟩ := chain_accepts_seed chain split here certificate replayed whole
  obtain ⟨⟨c, report⟩, files', opened, -⟩ :=
    wp_succeeds (reads.openSeeded_accepted chain scope visited small retention vaultEntropy identityEntropy)
  exact ⟨c, report, files', opened⟩

/-- Whatever follows: every outcome, every transaction and every first owner that a coordinator knew, a later one knows. -/
theorem recorded_memory_stays (reachable : Reachable used o s) {s' : CoordinatorSession S W E I}
    (later : Relation.ReflTransGen (Step used o) s s') {c c' : CommitCoordinator S memoryHandles W E I}
    (owner : s.coordinator = some c) (owner' : s'.coordinator = some c') : KnownBy c.toMemory c'.toMemory := by
  obtain ⟨charter, fits, noCollision, v, log, memory, inv⟩ := reachable.inv
  have grown : ∃ v' log' memory', Inv charter used o s' v' log' memory' ∧ log <+: log' := by
    clear owner'
    induction later with
    | refl => exact ⟨v, log, memory, inv, prefix_rfl⟩
    | tail _ step ih =>
      obtain ⟨_, _, _, inv₁, before⟩ := ih
      obtain ⟨v₂, log₂, memory₂, inv₂, after⟩ := step.inv fits noCollision inv₁
      exact ⟨v₂, log₂, memory₂, inv₂, before.trans after⟩
  obtain ⟨_, _, _, inv', rest, rfl⟩ := grown
  have replayed := inv'.replayed
  rw [map_append] at replayed
  rw [inv.memory_eq owner, inv'.memory_eq owner']
  exact replay_knownBy inv.replayed replayed

end Seeded

section

attribute [local instance] plainPrimitives plainPrimitives_lawful

theorem seeded_opening_agrees_sample : ∃ (s : CoordinatorSession Tally Unit Nat Nat) (seed : CoordinatorRecoverySeed Tally)
    (c : CommitCoordinator Tally memoryHandles Unit Nat Nat) (report : RecoveryReport) (files' : MemoryFileSystem),
    s.coordinator = none ∧
    (CommitCoordinator.openSeeded sampleInstallation.finalName sampleInstallation.scope ⟨60, by decide⟩ 0 0
      sampleInstallation.unwrap seed).run s.files = (.ok (c, report), files') ∧
    ∃ (earlier : List RecoveredGroup) (last : RecoveredGroup) (before : Memory Tally), last.revision = seed.revision ∧
      replay sampleInstallation.scope sampleInstallation.initialState (earlier ++ [last]) = .ok before ∧
      SameMaps seed.toMemory before := by
  obtain ⟨c, files, -, outcome, -, founded, -, -, -, mem, -⟩ := sampleFounding_ok
  have reachable := sampleSecond_reachable founded
  obtain ⟨charter, fits, noCollision, v, log, memory, inv⟩ := reachable.inv
  obtain ⟨v', inv', ended⟩ := inv.drop
  obtain ⟨log', memory', settled, replayed, shown, -⟩ := inv'.opens ended fits noCollision
  have dropped := reachable.drop
  -- the journal is not empty, because a request was acknowledged
  have acknowledged : (sampleSecond c files).drop.acknowledged = (sampleSecond c files).acknowledged := by
    unfold CoordinatorSession.drop
    split <;> rfl
  have known := (settled.remembers inv.replayed replayed inv'.remembers _ (acknowledged ▸ mem)).1
  obtain ⟨decoded, decodes, holds⟩ := replay_holds replayed
  obtain ⟨d, member, -⟩ := (holds.outcomes _ _).mp known
  obtain ⟨group, there, -⟩ := mem_of_mapM decodes d member
  rcases eq_nil_or_concat (log'.map Entry.recovered) with empty | ⟨earlier, last, split⟩
  · rw [empty] at there
    cases there
  rw [split, concat_eq_append] at shown replayed
  have accepted : ∃ (c' : CommitCoordinator Tally memoryHandles Unit Nat Nat) (report : RecoveryReport)
      (files' : MemoryFileSystem), (CommitCoordinator.openSeeded sampleInstallation.finalName sampleInstallation.scope
        ⟨60, by decide⟩ 0 0 sampleInstallation.unwrap
        ⟨memory', sampleInstallation.scope, last.revision, last.certificateDigest⟩).run (sampleSecond c files).drop.files =
        (.ok (c', report), files') :=
    seeded_opening_succeeds dropped ended shown rfl rfl rfl replayed _ 0 0
  obtain ⟨c', report, files', opened⟩ := accepted
  obtain ⟨earlier', -, last', before, -, -, -, -, revision, -, replayed', same, -⟩ :=
    seeded_opening_agrees dropped ended opened
  exact ⟨_, _, c', report, files', ended, opened, earlier', last', before, revision, replayed', same⟩

theorem recorded_memory_stays_sample : ∃ c files c₁ c₂, sampleFounding = (.ok c, files) ∧
    (sampleFirst c files).coordinator = some c₁ ∧ (sampleSecond c files).coordinator = some c₂ ∧
    KnownBy c₁.toMemory c₂.toMemory := by
  obtain ⟨c, files, c₁, -, c₂, founded, live, -, -, -, -, live', -⟩ := sampleFounding_ok
  exact ⟨c, files, c₁, c₂, founded, live, live', recorded_memory_stays (sampleFirst_reachable founded)
    (.single (.commit _ (sampleCommit 2 (some samplePlan)) (by simp [sampleCommit, sampleRequest]))) live live'⟩

end

end CoordinatorSession

end Uste.Txn
