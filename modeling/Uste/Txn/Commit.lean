import Uste.Txn.Coordinator
import Uste.Storage.Session

/-!
A commit against the replay of its journal: what a request needs to become a fresh change, that
the change and the replay of its group agree, and what a commit leaves on any file system.
-/

namespace Uste.Txn

open Types Crypto Policy Storage Program FileSystem Std List
open Time (UtcInstant)

theorem mapError_eq_ok {ε ε' α : Type} {f : ε → ε'} {x : Except ε α} {a : α} (h : x.mapError f = .ok a) : x = .ok a := by
  cases x with
  | error e => cases h
  | ok b =>
    cases h
    rfl

theorem bind_error {ε α β : Type} {x : Except ε α} {f : α → Except ε β} {e : ε} (h : (x >>= f) = .error e) :
    x = .error e ∨ ∃ a, x = .ok a ∧ f a = .error e := by
  cases x with
  | error e' =>
    cases h
    exact .inl rfl
  | ok a => exact .inr ⟨a, rfl, h⟩

theorem require_error {ε : Type} {c : Prop} [Decidable c] {e e' : ε} (h : require c e = .error e') : ¬ c ∧ e' = e := by
  unfold require at h
  split at h
  · cases h
  · rename_i outside
    cases h
    exact ⟨outside, rfl⟩

theorem orError_error {ε α : Type} {e e' : ε} {o : Option α} (h : orError e o = .error e') : o = none ∧ e' = e := by
  cases o with
  | some a => cases h
  | none =>
    cases h
    exact ⟨rfl, rfl⟩

theorem retentionWindow_of_expiration {acceptedAt expiresAt : UtcInstant} {retention : RetentionDays}
    (h : expiration acceptedAt retention = .ok expiresAt) : RetentionWindow acceptedAt expiresAt := by
  obtain ⟨seconds, nanoseconds⟩ := expiration_ok h
  obtain ⟨low, high⟩ := retention.inRange
  unfold minRetentionDays at low
  unfold maxRetentionDays at high
  unfold RetentionWindow minRetentionDays maxRetentionDays
  rw [seconds]
  unfold secondsPerDay
  exact ⟨nanoseconds, by omega, by omega, by omega⟩

section

variable {S W E I : Type} {H : Handles} [TransactionState S] [Primitives]

namespace CommitCoordinator

variable {c : CommitCoordinator S H W E I} {request : TransactionRequest} {observation : Option UtcInstant}
  {cancelled cancelledLater : Bool} {change : PreparedCommit S} {outcome : TransactionOutcome}

/-- What a change that reaches the journal has behind it. -/
structure Fresh (c : CommitCoordinator S H W E I) (request : TransactionRequest) (change : PreparedCommit S) : Prop where
  certain : c.uncertain = false
  nonempty : request.canonicalRequest ≠ []
  bounded : request.canonicalRequest.length ≤ maxRequestBytes
  references : ∀ inventory ∈ request.blobInventory, inventory.references ≠ []
  inScope : ∀ inventory ∈ request.blobInventory, inventory.scope = c.scope
  newKey : request.retryKey ∉ c.outcomes
  newTransaction : request.transactionId ∉ c.transactions
  room : c.outcomes.size < maxOutcomesPerNamespace
  revision : nextRevision c.journal.frontier = .ok change.outcome.revision
  prepared : TransactionState.prepare c.state request.canonicalRequest request.blobInventory change.outcome.revision =
    .ok change.prepared
  result : change.outcome.resultDigest = TransactionState.resultDigest change.prepared
  transaction : change.outcome.transactionId = request.transactionId
  digest : change.outcome.requestDigest =
    transactionRequestDigest request.canonicalRequest (digestOf request.blobInventory)
  encoded : ∃ acceptedAt, RetentionWindow acceptedAt change.outcome.expiresAt ∧
    change.group = encodeGroup c.scope request acceptedAt change.outcome

theorem prepareCommit_cases {planned : TransactionOutcome ⊕ PreparedCommit S}
    (h : c.prepareCommit request observation cancelled cancelledLater = .ok planned) :
    (∃ outcome, planned = .inl outcome ∧ c.outcomes[request.retryKey]? = some outcome ∧
      outcome.transactionId = request.transactionId ∧
      outcome.requestDigest = transactionRequestDigest request.canonicalRequest (digestOf request.blobInventory)) ∨
    ∃ change, planned = .inr change ∧ Fresh c request change := by
  obtain ⟨admission, admitted, h⟩ := bind_ok h
  obtain ⟨_, certain, _, shape, _, inScope, acceptedAt, -, admitted⟩ := bind_ok₄ admitted
  obtain ⟨nonempty, bounded, references⟩ := require_ok.mp shape
  cases previous : c.outcomes[request.retryKey]? with
  | some earlier =>
    rw [previous] at admitted
    obtain ⟨_, -, _, same, admitted⟩ := bind_ok₂ admitted
    cases admitted
    cases h
    obtain ⟨digest, transaction⟩ := require_ok.mp same
    exact .inl ⟨earlier, rfl, rfl, transaction, digest⟩
  | none =>
    rw [previous] at admitted
    obtain ⟨_, newTransaction, _, room, _, -, revision, next, admitted⟩ := bind_ok₄ admitted
    obtain ⟨expiresAt, expires, admitted⟩ := bind_ok admitted
    cases admitted
    obtain ⟨prepared, prepares, _, -, h⟩ := bind_ok₂ h
    cases h
    exact .inr ⟨_, rfl, {
      certain := require_ok.mp certain
      nonempty := nonempty
      bounded := bounded
      references := references
      inScope := require_ok.mp inScope
      newKey := (getElem?_eq_none_iff _ _).mp previous
      newTransaction := require_ok.mp newTransaction
      room := require_ok.mp room
      revision := next
      prepared := mapError_eq_ok prepares
      result := rfl
      transaction := rfl
      digest := rfl
      encoded := ⟨acceptedAt, retentionWindow_of_expiration expires, rfl⟩ }⟩

omit [Primitives] in
theorem mapError_ne {x : Except ApplyError (TransactionState.Prepared S)}
    (h : x.mapError mapApplyError = .error .outcomeUnknown) : False := by
  cases x with
  | ok prepared => cases h
  | error error => cases error <;> cases h

omit [Primitives] [TransactionState S] in
theorem nextRevision_ne {frontier : Option CommitRevision} (h : nextRevision frontier = .error .outcomeUnknown) : False := by
  unfold nextRevision at h
  split at h
  · rename_i revision
    cases next : revision.checkedNext with
    | ok following =>
      rw [next] at h
      cases h
    | error _ =>
      rw [next] at h
      cases h
  · cases h

theorem prepareCommit_outcomeUnknown
    (h : c.prepareCommit request observation cancelled cancelledLater = .error .outcomeUnknown) : c.uncertain = true := by
  rcases bind_error h with h | ⟨admission, admitted, h⟩
  · rcases bind_error h with h | ⟨_, -, h⟩
    · simpa using (require_error h).1
    rcases bind_error h with h | ⟨_, -, h⟩
    · cases (require_error h).2
    rcases bind_error h with h | ⟨_, -, h⟩
    · cases (require_error h).2
    rcases bind_error h with h | ⟨_, -, h⟩
    · cases (orError_error h).2
    split at h
    · rcases bind_error h with h | ⟨_, -, h⟩
      · cases (require_error h).2
      rcases bind_error h with h | ⟨_, -, h⟩
      · cases (require_error h).2
      cases h
    · rcases bind_error h with h | ⟨_, -, h⟩
      · cases (require_error h).2
      rcases bind_error h with h | ⟨_, -, h⟩
      · cases (require_error h).2
      rcases bind_error h with h | ⟨_, -, h⟩
      · cases (require_error h).2
      rcases bind_error h with h | ⟨_, -, h⟩
      · exact (nextRevision_ne h).elim
      rcases bind_error h with h | ⟨_, -, h⟩
      · cases (orError_error h).2
      cases h
  · cases admission with
    | retry outcome => cases h
    | fresh admission =>
      rcases bind_error h with h | ⟨_, -, h⟩
      · exact (mapError_ne h).elim
      rcases bind_error h with h | ⟨_, -, h⟩
      · cases (require_error h).2
      cases h

/-- The group of a change as opening shows it. -/
structure Shown (group : RecoveredGroup) (request : TransactionRequest) (change : PreparedCommit S) : Prop where
  revision : group.revision = change.outcome.revision
  encodedGroup : group.encodedGroup = change.group
  logicalEventDigest : group.logicalEventDigest = sha256 change.group
  blobInventory : group.blobInventory = request.blobInventory
  blobInventoryDigest : group.blobInventoryDigest = digestOf request.blobInventory

theorem Fresh.decoded (fresh : Fresh c request change) {group : RecoveredGroup} (shown : Shown group request change) :
    decodeRecoveredGroup c.scope group =
      .ok ⟨request.retryKey, change.outcome, request.canonicalRequest, request.blobInventory⟩ := by
  obtain ⟨acceptedAt, window, encoded⟩ := fresh.encoded
  unfold decodeRecoveredGroup
  rw [require_pos _ (by rw [shown.encodedGroup, shown.logicalEventDigest]), ok_bind, shown.encodedGroup, shown.revision,
    shown.blobInventoryDigest, shown.blobInventory, encoded,
    decodeGroup_encodeGroup fresh.nonempty fresh.bounded fresh.inScope fresh.digest window fresh.transaction]
  rfl

theorem Fresh.replayed (fresh : Fresh c request change) {group : RecoveredGroup} (shown : Shown group request change) :
    replayGroup c.scope c.toMemory group = .ok (c.publish request change).toMemory := by
  unfold replayGroup recordDecodedGroupMetadata
  rw [fresh.decoded shown, ok_bind, shown.revision, fresh.prepared, mapError_ok, ok_bind, require_pos _ fresh.result.symm, ok_bind,
    require_pos _ fresh.room, ok_bind]
  rw [fresh.transaction, require_pos _ ⟨fresh.newKey, fresh.newTransaction⟩, ok_bind]
  rfl

theorem Fresh.outcomes (fresh : Fresh c request change) {key : RetryKey} (h : c.outcomes[key]? = some outcome) :
    (c.publish request change).outcomes[key]? = some outcome := by
  show (c.outcomes.insert request.retryKey change.outcome)[key]? = some outcome
  exact some_insert_new fresh.newKey h

omit [Primitives] in
theorem publish_outcome : (c.publish request change).outcomes[request.retryKey]? = some change.outcome :=
  ExtTreeMap.getElem?_insert_self

end CommitCoordinator

end

/-! ### Commits on a file system -/

section Committing

variable {S F W E I : Type} {H : Handles} [TransactionState S] [FileSystem F H] [Primitives] {quiet : Prop}
  (M : FileModel F Kept quiet) {fs : F} {v : View EntryName H} {charter : Charter W} {used : BlobInventory → Prop}
  {log : List Entry} {Late : Entry → Prop} {initial : S} {c : CommitCoordinator S H W E I}
  {request : TransactionRequest} {change : CommitCoordinator.PreparedCommit S}

/-- The memory of a coordinator is the replay of its journal, and nothing is under way unless it says so. -/
structure Coordinated (charter : Charter W) (used : BlobInventory → Prop) (initial : S) (c : CommitCoordinator S H W E I)
    (v : View EntryName H) (log : List Entry) (Late : Entry → Prop) : Prop where
  journaled : Journaled charter used c.journal v log Late
  replayed : replay c.scope initial (log.map Entry.recovered) = .ok c.toMemory
  unlimited : c.journal.certificateReadLimits = none
  certain : c.uncertain = false → ∀ e, ¬ Late e

structure UnderWay (c : CommitCoordinator S H W E I) (request : TransactionRequest) (log : List Entry) (e : Entry) : Prop where
  change : ∃ change, CommitCoordinator.Fresh c request change ∧ change.outcome.revision.value = log.length + 1 ∧
    e.Records ⟨change.group, sha256 change.group⟩ request.blobInventory

omit [Primitives] in
theorem recordedInventory_of_references {inventory : Option BlobInventory}
    (h : ∀ i ∈ inventory, i.references ≠ []) : recordedInventory inventory = inventory := by
  cases inventory with
  | none => rfl
  | some i => simp [recordedInventory, BlobInventory.isEmpty, h i rfl]

theorem nextRevision_value {store : JournalStore H W E I} {revision : CommitRevision}
    (live : LiveInv charter used store v log) (h : nextRevision store.frontier = .ok revision) :
    revision.value = log.length + 1 := by
  rw [live.tip.frontier] at h
  rcases live.disk.stored.chain.frontier_eq with ⟨frontier, size⟩ | ⟨last, frontier, size⟩
  · rw [frontier] at h
    cases h
    rw [size]
    rfl
  · rw [frontier] at h
    rw [CommitRevision.checkedNext_ok (mapError_eq_ok h), size]

theorem last_revision {e : Entry} (chain : Chain charter used (log ++ [e])) : e.revision.value = log.length + 1 := by
  have numbers := chain.revisions
  rw [map_append, length_append, length_singleton, List.range'_concat] at numbers
  have := (append_inj' numbers rfl).2
  simpa [Nat.add_comm] using this

theorem shown_of_records {e : Entry} (chain : Chain charter used (log ++ [e]))
    (revision : change.outcome.revision.value = log.length + 1)
    (records : e.Records ⟨change.group, sha256 change.group⟩ request.blobInventory) :
    CommitCoordinator.Shown e.recovered request change where
  revision := CommitRevision.ext ((last_revision chain).trans revision.symm)
  encodedGroup := records.group
  logicalEventDigest := records.logicalEventDigest
  blobInventory := records.inventory
  blobInventoryDigest := by
    show digestOf e.inventory = digestOf request.blobInventory
    rw [records.inventory]

theorem replay_snoc {scope : NamespaceRef} {memory : Memory S} {groups : List RecoveredGroup} (group : RecoveredGroup)
    (h : replay scope initial groups = .ok memory) :
    replay scope initial (groups ++ [group]) = replayGroup scope memory group := by
  unfold replay at h ⊢
  rw [foldlM_append, h, ok_bind, foldlM_cons]
  cases replayGroup scope memory group <;> rfl

theorem Coordinated.live (coordinated : Coordinated charter used initial c v log Late)
    (healthy : c.journal.poisoned = false) : LiveInv charter used c.journal v log := by
  refine coordinated.journaled.resolve_right fun stuck => ?_
  rw [stuck.poisoned] at healthy
  cases healthy

/-- What a commit that succeeds leaves: everything as it was, or its own entry at the end of the journal. -/
def Committed (charter : Charter W) (used : BlobInventory → Prop) (initial : S) (log : List Entry)
    (request : TransactionRequest) (c : CommitCoordinator S H W E I) (fs : F) (outcome : TransactionOutcome)
    (s : CommitCoordinator S H W E I × F) : Prop :=
  (s = (c, fs) ∧ c.outcomes[request.retryKey]? = some outcome ∧ outcome.transactionId = request.transactionId ∧
    outcome.requestDigest = transactionRequestDigest request.canonicalRequest (digestOf request.blobInventory)) ∨
  ∃ change journal v' e, CommitCoordinator.Fresh c request change ∧ outcome = change.outcome ∧
    s.1 = { c.publish request change with journal := journal } ∧ M.Shows s.2 v' ∧
    CommitCoordinator.Shown e.recovered request change ∧
    Coordinated charter used initial s.1 v' (log ++ [e]) fun _ => False

/-- What a commit that fails leaves: the memory as it was, and its own entry only where the outcome is unknown. -/
def Refused (charter : Charter W) (used : BlobInventory → Prop) (initial : S) (log : List Entry) (Late : Entry → Prop)
    (request : TransactionRequest) (c : CommitCoordinator S H W E I) (error : TransactionError)
    (s : CommitCoordinator S H W E I × F) : Prop :=
  ∃ journal v', s.1 = { c with journal := journal, uncertain := c.uncertain || error = .outcomeUnknown } ∧ M.Shows s.2 v' ∧
    Coordinated charter used initial s.1 v' log fun e => Late e ∨ error = .outcomeUnknown ∧ UnderWay c request log e

theorem commit_spec [Primitives.Lawful] [EntropySource E] [EntropySource I] {observation : Option UtcInstant}
    {cancelled cancelledLater : Bool} (coordinated : Coordinated charter used initial c v log Late)
    (noCollision : Collisionless charter.toOrigin used) (inUse : ∀ i, request.blobInventory = some i → used i)
    (shows : M.Shows fs v) : wp (CommitCoordinator.commit request observation cancelled cancelledLater)
      (Committed M charter used initial log request c fs) (Refused M charter used initial log Late request c) (c, fs) := by
  unfold CommitCoordinator.commit
  apply wp_reads
  refine wp_lifts (fun planned prepares => ?_) fun error prepares => ?_
  swap
  · replace prepares : c.prepareCommit request observation cancelled cancelledLater = .error error := prepares
    have kept : (c.uncertain || error = .outcomeUnknown) = c.uncertain := by
      by_cases unknown : error = .outcomeUnknown
      · subst unknown
        simp [CommitCoordinator.prepareCommit_outcomeUnknown prepares]
      · simp [unknown]
    refine ⟨c.journal, v, by rw [id, kept], shows, { coordinated with
      journaled := coordinated.journaled.mono fun e => .inl
      certain := fun certain e late => ?_ }⟩
    rcases late with late | ⟨rfl, -⟩
    · exact coordinated.certain certain e late
    · rw [CommitCoordinator.prepareCommit_outcomeUnknown prepares] at certain
      cases certain
  rcases CommitCoordinator.prepareCommit_cases prepares with ⟨outcome, rfl, known, same, digest⟩ | ⟨change, rfl, fresh⟩
  · exact .inl ⟨rfl, known, same, digest⟩
  have recorded := recordedInventory_of_references fresh.references
  have quietly := coordinated.certain fresh.certain
  have appended := wp_and (append_spec M coordinated.journaled noCollision inUse (.inr quietly) shows)
    ((append_limits ⟨change.group, sha256 change.group⟩ request.blobInventory).wp _)
  rw [recorded] at appended
  rw [wp_bind, wp_attempt, CommitCoordinator.onJournal, wp_zoom]
  refine wp_mono appended ?_ ?_
  · rintro durable ⟨journal, fs'⟩ ⟨⟨healthy, v', e, shows, records, -, live⟩, limits⟩
    have shown := shown_of_records live.disk.stored.chain (nextRevision_value (coordinated.live healthy) fresh.revision) records
    refine .inr ⟨change, journal, v', e, fresh, rfl, rfl, shows, shown, .inl live, ?_, ?_, fun _ _ => id⟩
    · rw [map_append, map_singleton]
      exact (replay_snoc _ coordinated.replayed).trans (fresh.replayed shown)
    · exact limits.trans coordinated.unlimited
  · rintro error ⟨journal, fs'⟩ ⟨⟨v', shows, journaled⟩, limits⟩
    refine ⟨journal, v', ?_, shows, ?_, coordinated.replayed, limits.trans coordinated.unlimited, ?_⟩
    · by_cases unknown : mapCommitError error = .outcomeUnknown <;> simp [unknown]
    · refine journaled.mono fun e late => late.imp id ?_
      rintro ⟨healthy, records, kind, rfl⟩
      exact ⟨rfl, change, fresh, nextRevision_value (coordinated.live healthy) fresh.revision, records⟩
    · intro still e late
      rcases late with late | ⟨unknown, -⟩
      · exact quietly e late
      · simp [unknown] at still

end Committing

end Uste.Txn
