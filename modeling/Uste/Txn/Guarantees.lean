import Uste.Txn.Replay
import Uste.Txn.Session

/-!
What a coordinator guarantees over its whole life: a key and a transaction commit once, opening
rebuilds the live coordinator, and a commit that fails is settled.
-/

namespace Uste.Txn

open Types Crypto Policy Storage Program FileSystem Std
open Time (UtcInstant)
open Storage.Session (model)

section

variable {S W : Type} [TransactionState S] [Primitives] [DurableKeyEnvelope W]

omit [TransactionState S] in
/-- Opening these files shows these groups. -/
def JournalShows (E I : Type) (o : Installation S W) (files : MemoryFileSystem) (groups : List RecoveredGroup) : Prop :=
  ∀ (vaultEntropy : E) (identityEntropy : I), ∃ (journal : JournalStore memoryHandles W E I) (report : RecoveryReport)
    (files' : MemoryFileSystem),
    (JournalStore.openInternal o.finalName o.scope.database vaultEntropy identityEntropy o.unwrap none collect []).run files =
      (.ok (journal, report, groups), files')

/-- Opening these files succeeds with this memory, whatever retention it is given. -/
def Opens (E I : Type) (o : Installation S W) (files : MemoryFileSystem) (memory : Memory S) : Prop :=
  ∀ (retention : RetentionDays) (vaultEntropy : E) (identityEntropy : I),
    ∃ (c : CommitCoordinator S memoryHandles W E I) (report : RecoveryReport) (files' : MemoryFileSystem),
      (CommitCoordinator.openJournal o.finalName o.scope retention vaultEntropy identityEntropy o.unwrap o.initialState).run
        files = (.ok (c, report), files') ∧ c.toMemory = memory ∧ c.retention = retention ∧ c.uncertain = false

end

/-! ### A small coordinator -/

section Sample

attribute [local instance] plainPrimitives

/-- A reducer that counts the bytes of its requests. -/
structure Tally where
  count : Nat
  revision : Option CommitRevision

instance : TransactionState Tally where
  Prepared := Tally
  Snapshot := Nat
  prepare state request _ revision := .ok ⟨state.count + request.length, some revision⟩
  resultDigest _ := Octets.zero 32
  publish _ prepared := prepared
  snapshot state := state.count

def sampleInstallation : Installation Tally Unit :=
  ⟨sampleOptions.finalName, ⟨sampleOptions.database, default⟩, sampleUnwrap, ⟨0, none⟩⟩

def sampleRequest (n : UInt8) : TransactionRequest :=
  ⟨⟨Octets.zero 32⟩, ⟨⟨List.replicate 16 n, by simp⟩⟩, ⟨⟨List.replicate 16 n, by simp⟩⟩, [1, 2, 3], none⟩

def sampleNow : UtcInstant := .epoch

def sampleRetention : RetentionDays := ⟨30, by decide⟩

def sampleCommit (n : UInt8) (plan : Option FaultPlan) : CommitCall := ⟨sampleRequest n, some sampleNow, false, false, plan⟩

def sampleFounding : Except TransactionError (CommitCoordinator Tally memoryHandles Unit Nat Nat) × MemoryFileSystem :=
  (CommitCoordinator.create sampleInstallation.scope sampleRetention sampleInstallation.finalName Storage.sampleVault 7
    sampleInstallation.initialState).run (MemoryFileSystem.new 100000)

def sampleFirst (c : CommitCoordinator Tally memoryHandles Unit Nat Nat) (files : MemoryFileSystem) :
    CoordinatorSession Tally Unit Nat Nat :=
  (CoordinatorSession.mk files (some c) [] none).commit (sampleCommit 1 none)

def sampleSecond (c : CommitCoordinator Tally memoryHandles Unit Nat Nat) (files : MemoryFileSystem) :
    CoordinatorSession Tally Unit Nat Nat :=
  (sampleFirst c files).commit (sampleCommit 2 (some samplePlan))

theorem sampleFounding_ok : ∃ c files c₁ outcome c₂, sampleFounding = (.ok c, files) ∧
    (sampleFirst c files).coordinator = some c₁ ∧ c₁.uncertain = false ∧
    ((sampleCommit 2 (some samplePlan)).run (c₁, (sampleFirst c files).files)).1 = .error .outcomeUnknown ∧
    (sampleRequest 1, outcome) ∈ (sampleSecond c files).acknowledged ∧ before sampleNow outcome.expiresAt ∧
    (sampleSecond c files).coordinator = some c₂ ∧ c₂.uncertain = true ∧ c₂.checkpointOutcomes ≠ [] := by
  have evaluated : sampleFounding.1.toOption.any (fun c =>
      (sampleFirst c sampleFounding.2).coordinator.any (fun c₁ => !c₁.uncertain &&
        ((sampleCommit 2 (some samplePlan)).run (c₁, (sampleFirst c sampleFounding.2).files)).1 = .error .outcomeUnknown) &&
      (sampleSecond c sampleFounding.2).coordinator.any (fun c₂ => c₂.uncertain && !c₂.checkpointOutcomes.isEmpty) &&
      (sampleSecond c sampleFounding.2).acknowledged.any (fun a =>
        decide (a.1 = sampleRequest 1 ∧ before sampleNow a.2.expiresAt))) = true := by
    decide +kernel
  rcases founded : sampleFounding with ⟨_ | c, files⟩
  · rw [founded] at evaluated
    cases evaluated
  · rw [founded] at evaluated
    simp only [Except.toOption, Option.any_some, Bool.and_eq_true] at evaluated
    obtain ⟨⟨first, second⟩, acknowledged⟩ := evaluated
    obtain ⟨c₁, live, certain⟩ := (Option.any_eq_true _ _).mp first
    obtain ⟨c₂, live', uncertain⟩ := (Option.any_eq_true _ _).mp second
    obtain ⟨⟨_, outcome⟩, mem, same⟩ := List.any_eq_true.mp acknowledged
    obtain ⟨rfl, unexpired⟩ := of_decide_eq_true same
    simp only [Bool.and_eq_true, Bool.not_eq_true', List.isEmpty_eq_false_iff, decide_eq_true_iff] at certain uncertain
    exact ⟨c, files, c₁, outcome, c₂, rfl, live, certain.1, certain.2, mem, unexpired, live', uncertain⟩

attribute [local instance] plainPrimitives_lawful

variable {c : CommitCoordinator Tally memoryHandles Unit Nat Nat} {files : MemoryFileSystem}

theorem sampleFirst_reachable (founded : sampleFounding = (.ok c, files)) :
    CoordinatorSession.Reachable (fun _ => False) sampleInstallation (sampleFirst c files) :=
  ⟨_, Storage.sampleVault, 7, _, files, c, sampleEnvironment, MemoryFileSystem.new_sound (by decide), founded,
    .single (.commit _ (sampleCommit 1 none) nofun)⟩

theorem sampleSecond_reachable (founded : sampleFounding = (.ok c, files)) :
    CoordinatorSession.Reachable (fun _ => False) sampleInstallation (sampleSecond c files) :=
  ⟨_, Storage.sampleVault, 7, _, files, c, sampleEnvironment, MemoryFileSystem.new_sound (by decide), founded,
    .tail (.single (.commit _ (sampleCommit 1 none) nofun)) (.commit _ (sampleCommit 2 (some samplePlan)) nofun)⟩

end Sample

namespace CoordinatorSession

section Rebuilding

variable {S W E I : Type} [TransactionState S] [Primitives] [Primitives.Lawful] [DurableKeyEnvelope W]
  {charter : Charter W} {used : BlobInventory → Prop} {o : Installation S W} {s : CoordinatorSession S W E I}
  {v : View EntryName memoryHandles} {log : List Entry} {memory : Memory S}

omit [TransactionState S] [Primitives.Lawful] in
/-- Every opening of these files reads this log, whatever it does with the groups. -/
def ReadsLog (E I : Type) (charter : Charter W) (o : Installation S W) (files : MemoryFileSystem) (log : List Entry) : Prop :=
  ∀ {V : Type} (visitor : V → RecoveredGroup → Except StorageError V) (init : V) (vaultEntropy : E) (identityEntropy : I),
    wp (JournalStore.openInternal o.finalName o.scope.database vaultEntropy identityEntropy o.unwrap none visitor init)
      (fun (result : JournalStore memoryHandles W E I × RecoveryReport × V) _ =>
        (log.map Entry.recovered).foldlM visitor init = .ok result.2.2 ∧
        AtTip result.1 (Tip.after charter log) ∧ result.1.certificateReadLimits = none)
      (fun err _ => (log.map Entry.recovered).foldlM visitor init = .error err) files

omit [Primitives.Lawful] [DurableKeyEnvelope W] in
/-- A coordinator that was opened on files that read as the log. -/
structure OpenedOn (charter : Charter W) (o : Installation S W) (log : List Entry) (retention : RetentionDays) (memory : Memory S)
    (c : CommitCoordinator S memoryHandles W E I) : Prop where
  memory : c.toMemory = memory
  scope : c.scope = o.scope
  retention : c.retention = retention
  recovered : c.recovered = true
  certain : c.uncertain = false
  tip : AtTip c.journal (Tip.after charter log)
  unlimited : c.journal.certificateReadLimits = none

variable {files : MemoryFileSystem}

omit [TransactionState S] in
/-- Files that no store owns have one log, with the interrupted entry or without it. -/
theorem closed_reads {Late : Entry → Prop} (closed : Closed charter used v log Late)
    (fits : o.opening.Fits charter) (noCollision : Collisionless charter.toOrigin used) (shows : model.Shows files v) :
    ∃ log', (log' = log ∨ ∃ e, (Late e ∧ Chain charter used (log ++ [e])) ∧ log' = log ++ [e]) ∧
      Chain charter used log' ∧ ReadsLog E I charter o files log' := by
  obtain ⟨free, visible, durable, inv, seen, -⟩ := closed_chained closed
  refine ⟨visible, seen, inv.stored.chain, fun visitor init vaultEntropy identityEntropy => ?_⟩
  have finalName : o.finalName = charter.finalName := fits.finalName
  have database : o.scope.database = charter.database := fits.database
  rw [finalName, database]
  refine wp_mono (openInternal_spec model fits.unlocks noCollision inv free shows) ?_ ?_
  · rintro result fs' ⟨v', -, live, unlimited, visited⟩
    exact ⟨visited, live.tip, unlimited⟩
  · rintro err fs' ⟨-, refused⟩
    exact refused trivial rfl

omit [TransactionState S] [Primitives.Lawful] in
theorem ReadsLog.journalShows (reads : ReadsLog E I charter o files log) :
    JournalShows E I o files (log.map Entry.recovered) := by
  intro vaultEntropy identityEntropy
  have folded := foldlM_collect (log.map Entry.recovered) []
  have collected := wp_mono (reads collect [] vaultEntropy identityEntropy) (fun _ _ => id)
    fun err _ refused => (nomatch refused.symm.trans folded : False)
  obtain ⟨⟨journal, report, groups⟩, files', ran, visited, -⟩ := wp_succeeds collected
  cases visited.symm.trans folded
  exact ⟨journal, report, files', ran⟩

omit [Primitives.Lawful] in
theorem ReadsLog.openJournal (reads : ReadsLog E I charter o files log)
    (replayed : replay o.scope o.initialState (log.map Entry.recovered) = .ok memory) (retention : RetentionDays)
    (vaultEntropy : E) (identityEntropy : I) :
    wp (CommitCoordinator.openJournal o.finalName o.scope retention vaultEntropy identityEntropy o.unwrap o.initialState)
      (fun (result : CommitCoordinator S memoryHandles W E I × RecoveryReport) _ => OpenedOn charter o log retention memory result.1)
      (fun _ _ => False) files := by
  unfold CommitCoordinator.openJournal
  refine wp_maps (reads (replayGroup o.scope) _ vaultEntropy identityEntropy) ?_
    fun err _ refused => nomatch refused.symm.trans replayed
  rintro ⟨journal, report, memory'⟩ fs' ⟨visited, tip, unlimited⟩
  cases visited.symm.trans replayed
  exact ⟨rfl, rfl, rfl, rfl, rfl, tip, unlimited⟩

/-- A session that has ended can be opened, and shows what its coordinator will have in memory. -/
theorem Inv.opens (inv : Inv charter used o s v log memory) (ended : s.coordinator = none) (fits : o.opening.Fits charter)
    (noCollision : Collisionless charter.toOrigin used) : ∃ log' memory', Settled o charter used log s.inFlight log' ∧
      replay o.scope o.initialState (log'.map Entry.recovered) = .ok memory' ∧
      JournalShows E I o s.files (log'.map Entry.recovered) ∧ Opens E I o s.files memory' := by
  obtain ⟨log', settled, -, reads⟩ := closed_reads (inv.closed ended) fits noCollision inv.shows
  obtain ⟨memory', replayed⟩ := Settled.replayed settled inv.replayed
  refine ⟨log', memory', settled, replayed, reads.journalShows, fun retention vaultEntropy identityEntropy => ?_⟩
  obtain ⟨⟨c, report⟩, files', ran, opened⟩ := wp_succeeds (reads.openJournal replayed retention vaultEntropy identityEntropy)
  exact ⟨c, report, files', ran, opened.memory, opened.retention, opened.certain⟩

theorem Inv.opens_certain (inv : Inv charter used o s v log memory) (ended : s.coordinator = none)
    (certain : s.inFlight = none) (fits : o.opening.Fits charter) (noCollision : Collisionless charter.toOrigin used) :
    JournalShows E I o s.files (log.map Entry.recovered) ∧ Opens E I o s.files memory := by
  obtain ⟨log', memory', settled, replayed, shown, opened⟩ := inv.opens ended fits noCollision
  rw [certain] at settled
  obtain rfl : log' = log := settled.resolve_right fun ⟨_, late, _⟩ => late.1.of_none
  cases inv.replayed.symm.trans replayed
  exact ⟨shown, opened⟩

variable [EntropySource E] [EntropySource I] {c : CommitCoordinator S memoryHandles W E I}

/-- Whatever was committed, and however the process ended: opening the journal again decodes every group, and rebuilds
the reducer state, the retry outcomes, the transactions and the first owners that were in memory. -/
theorem opening_rebuilds_coordinator (reachable : Reachable used o s) (owner : s.coordinator = some c)
    (certain : c.uncertain = false) {after : CoordinatorSession S W E I}
    (ended : after = s.drop ∨ after = s.crash ∧ after.coordinator = none) :
    ∃ groups decoded, JournalShows E I o after.files groups ∧
      groups.mapM (decodeRecoveredGroup o.scope) = .ok decoded ∧ Opens E I o after.files c.toMemory := by
  obtain ⟨charter, fits, noCollision, v, log, memory, inv⟩ := reachable.inv
  obtain rfl := inv.memory_eq owner
  have quietly := inv.certain c owner certain
  have settled : ∃ v', Inv charter used o after v' log c.toMemory ∧ after.coordinator = none ∧ after.inFlight = none := by
    rcases ended with rfl | ⟨rfl, none⟩
    · obtain ⟨v', inv', none⟩ := inv.drop
      refine ⟨v', inv', none, ?_⟩
      unfold CoordinatorSession.drop
      split <;> exact quietly
    · obtain ⟨v', inv'⟩ := inv.crash
      refine ⟨v', inv', none, ?_⟩
      unfold CoordinatorSession.crash
      split <;> exact quietly
  obtain ⟨v', inv', none, quietly'⟩ := settled
  obtain ⟨shown, opened⟩ := inv'.opens_certain none quietly' fits noCollision
  obtain ⟨decoded, decodes, -⟩ := replay_holds inv.replayed
  exact ⟨_, decoded, shown, decodes, opened⟩

end Rebuilding

section

attribute [local instance] plainPrimitives plainPrimitives_lawful

theorem opening_rebuilds_coordinator_sample : ∃ c files c₁, sampleFounding = (.ok c, files) ∧
    (sampleFirst c files).coordinator = some c₁ ∧ c₁.uncertain = false ∧
    ∃ groups decoded, JournalShows Nat Nat sampleInstallation (sampleFirst c files).drop.files groups ∧
      groups.mapM (decodeRecoveredGroup sampleInstallation.scope) = .ok decoded ∧
      Opens Nat Nat sampleInstallation (sampleFirst c files).drop.files c₁.toMemory := by
  obtain ⟨c, files, c₁, -, -, founded, owner, certain, -⟩ := sampleFounding_ok
  exact ⟨c, files, c₁, founded, owner, certain,
    opening_rebuilds_coordinator (sampleFirst_reachable founded) owner certain (.inl rfl)⟩

end

end CoordinatorSession

/-! ### Commits that write nothing -/

section Unwritten

variable {S F W E I : Type} {H : Handles} [TransactionState S] [Primitives] {c : CommitCoordinator S H W E I}
  {request : TransactionRequest} {observation : Option UtcInstant} {cancelled cancelledLater : Bool}

theorem commit_unwritten [FileSystem F H] [EntropySource E] [EntropySource I] (fs : F)
    (answer : Except TransactionError TransactionOutcome)
    (h : c.prepareCommit request observation cancelled cancelledLater = answer.map .inl) :
    CommitCoordinator.commit request observation cancelled cancelledLater (c, fs) = (answer, c, fs) := by
  show (lift id (c.prepareCommit request observation cancelled cancelledLater) >>= _) (c, fs) = _
  rw [h]
  cases answer <;> rfl

end Unwritten

namespace CommitCall

variable {S W E I : Type} [TransactionState S] [Primitives] {c : CommitCoordinator S memoryHandles W E I}
  {call : CommitCall}

def prepared (call : CommitCall) (c : CommitCoordinator S memoryHandles W E I) :
    Except TransactionError (TransactionOutcome ⊕ CommitCoordinator.PreparedCommit S) :=
  c.prepareCommit call.request call.observation call.cancelled call.cancelledLater

variable [EntropySource E] [EntropySource I]

theorem run_unwritten (files : MemoryFileSystem) (answer : Except TransactionError TransactionOutcome)
    (h : call.prepared c = answer.map .inl) : call.run (c, files) = (answer, c, files) := by
  unfold run underFaults
  split
  · exact commit_unwritten files answer h
  · rename_i plan _
    rw [commit_unwritten (FaultFileSystem.new files plan) answer h]
    rfl

theorem run_refused {error : TransactionError} (files : MemoryFileSystem) (h : call.prepared c = .error error) :
    call.run (c, files) = (.error error, c, files) := run_unwritten files _ h

/-- The call repeats the request of a group before its outcome expires. -/
structure Repeats (call : CommitCall) (d : DecodedGroup) : Prop where
  key : call.request.retryKey = d.retryKey
  transaction : call.request.transactionId = d.outcome.transactionId
  request : call.request.canonicalRequest = d.request
  inventory : call.request.blobInventory = d.blobInventory
  unexpired : ∃ now, call.observation = some now ∧ before now d.outcome.expiresAt

def Reuses (call : CommitCall) (d : DecodedGroup) : Prop :=
  call.request.retryKey = d.retryKey ∨ call.request.transactionId = d.outcome.transactionId

omit [EntropySource E] [EntropySource I]

variable {d : DecodedGroup}

theorem Repeats.retried {group : RecoveredGroup} (repeats : call.Repeats d)
    (certain : c.uncertain = false) (sound : DecodedSoundly c.scope group d)
    (references : ∀ inventory ∈ d.blobInventory, inventory.references ≠ [])
    (known : c.outcomes[d.retryKey]? = some d.outcome) : call.prepared c = .ok (.inl d.outcome) := by
  obtain ⟨now, observed, unexpired⟩ := repeats.unexpired
  have admitted : c.admitCommit call.request call.observation call.cancelled = .ok (.retry d.outcome) := by
    unfold CommitCoordinator.admitCommit
    rw [require_pos _ certain, ok_bind, repeats.request, repeats.inventory,
      require_pos _ ⟨sound.nonempty, sound.bounded, references⟩, ok_bind, require_pos _ sound.inScope, ok_bind, observed,
      orError_ok.mpr rfl, ok_bind, repeats.key]
    simp only [known]
    rw [require_pos _ unexpired, ok_bind, require_pos _ ⟨sound.digest, repeats.transaction.symm⟩]
    rfl
  unfold prepared CommitCoordinator.prepareCommit
  rw [admitted]
  rfl

theorem Reuses.prepared {decoded : List DecodedGroup} (reuses : call.Reuses d)
    (holds : Holds c.toMemory decoded) (mem : d ∈ decoded) :
    (∃ error, call.prepared c = .error error) ∨ call.prepared c = .ok (.inl d.outcome) ∧
      call.request.retryKey = d.retryKey ∧ call.request.transactionId = d.outcome.transactionId ∧
      d.outcome.requestDigest =
        transactionRequestDigest call.request.canonicalRequest (digestOf call.request.blobInventory) := by
  cases planned : call.prepared c with
  | error error => exact .inl ⟨error, rfl⟩
  | ok plan =>
    refine .inr ?_
    rcases CommitCoordinator.prepareCommit_cases planned with ⟨outcome, rfl, known, same, digest⟩ | ⟨change, rfl, fresh⟩
    · obtain ⟨d', mem', key, rfl⟩ := (holds.outcomes _ _).mp known
      have : d' = d := by
        rcases reuses with sameKey | sameTransaction
        · exact List.inj_on_of_nodup_map holds.keys mem' mem (key.trans sameKey)
        · exact List.inj_on_of_nodup_map holds.transactionIds mem' mem (same.trans sameTransaction)
      subst this
      exact ⟨rfl, key.symm, same.symm, digest⟩
    · rcases reuses with sameKey | sameTransaction
      · have taken := (holds.outcomes _ _).mpr ⟨d, mem, sameKey.symm, rfl⟩
        exact absurd (mem_of_some taken) fresh.newKey
      · have taken := (holds.transactions _ _).mpr ⟨d, mem, sameTransaction.symm, rfl⟩
        exact absurd (mem_of_some taken) fresh.newTransaction

theorem prepared_uncertain (h : c.uncertain = true) : call.prepared c = .error .outcomeUnknown := by
  unfold prepared CommitCoordinator.prepareCommit CommitCoordinator.admitCommit require
  rw [if_neg (by simp [h])]
  rfl

end CommitCall

namespace CoordinatorSession

section Once

variable {S W E I : Type} [TransactionState S] [Primitives] [Primitives.Lawful] [DurableKeyEnvelope W] [EntropySource E]
  [EntropySource I] {charter : Charter W} {used : BlobInventory → Prop} {o : Installation S W}
  {s : CoordinatorSession S W E I} {v : View EntryName memoryHandles} {log : List Entry} {memory : Memory S}

/-- What a live coordinator answers to the key or the transaction of a group in its journal. -/
def AnswersOnce (s : CoordinatorSession S W E I) (c : CommitCoordinator S memoryHandles W E I) (d : DecodedGroup) : Prop :=
  ∀ call : CommitCall,
    (c.uncertain = false → call.Repeats d → call.run (c, s.files) = (.ok d.outcome, c, s.files)) ∧
    (call.Reuses d → (call.run (c, s.files)).2 = (c, s.files) ∧ ∀ outcome, (call.run (c, s.files)).1 = .ok outcome →
      outcome = d.outcome ∧ call.request.retryKey = d.retryKey ∧ call.request.transactionId = d.outcome.transactionId ∧
        d.outcome.requestDigest =
          transactionRequestDigest call.request.canonicalRequest (digestOf call.request.blobInventory))

variable {c : CommitCoordinator S memoryHandles W E I}

omit [Primitives.Lawful] [DurableKeyEnvelope W] in
theorem Inv.answersOnce {decoded : List DecodedGroup} {d : DecodedGroup}
    (inv : Inv charter used o s v log memory) (owner : s.coordinator = some c) (holds : Holds memory decoded)
    (decodes : (log.map Entry.recovered).mapM (decodeRecoveredGroup o.scope) = .ok decoded) (mem : d ∈ decoded) :
    AnswersOnce s c d := by
  obtain rfl := inv.memory_eq owner
  obtain ⟨scope, coordinated⟩ := inv.live c owner
  obtain ⟨group, member, decodesOne⟩ := mem_of_mapM decodes d mem
  obtain ⟨e, listed, rfl⟩ := List.mem_map.mp member
  have sound := decodeRecoveredGroup_sound decodesOne
  rw [← scope] at sound
  intro call
  refine ⟨fun certain repeats => ?_, fun reuses => ?_⟩
  · refine CommitCall.run_unwritten s.files (.ok d.outcome) (repeats.retried certain sound ?_ ((holds.outcomes _ _).mpr ⟨d, mem, rfl, rfl⟩))
    intro inventory found
    obtain ⟨visible, durable, disk, seen, -⟩ := inv.disk
    have chain : Chain charter used log := by
      rcases seen with rfl | ⟨e, -, rfl⟩
      · exact disk.stored.chain
      · exact disk.stored.chain.of_append
    have nonempty := (chain.inventory_of_mem e listed inventory (sound.blobInventory.symm.trans found)).2.1
    intro empty
    simp [BlobInventory.isEmpty, empty] at nonempty
  · rcases reuses.prepared holds mem with ⟨error, refused⟩ | ⟨retried, same⟩
    · rw [CommitCall.run_refused s.files refused]
      exact ⟨rfl, fun _ impossible => by cases impossible⟩
    · rw [CommitCall.run_unwritten s.files (.ok d.outcome) retried]
      refine ⟨rfl, ?_⟩
      rintro outcome ⟨⟩
      exact ⟨rfl, same⟩

omit [Primitives.Lawful] [DurableKeyEnvelope W] in
theorem answersOnce_uncertain (d : DecodedGroup) (h : c.uncertain = true) : AnswersOnce s c d := by
  intro call
  rw [CommitCall.run_refused s.files (CommitCall.prepared_uncertain h), h]
  exact ⟨fun impossible => (by cases impossible), fun _ => ⟨rfl, fun _ impossible => by cases impossible⟩⟩

/-- Every key and every transaction commits once: what the journal shows decodes with no key and no transaction twice
and replays without an error, holds everything that was acknowledged, and a coordinator answers the key or the
transaction of a group with the outcome of that group or not at all, and writes nothing. -/
theorem committed_once (reachable : Reachable used o s) :
    ∃ groups decoded memory, JournalShows E I o s.drop.files groups ∧
      groups.mapM (decodeRecoveredGroup o.scope) = .ok decoded ∧ (decoded.map (·.retryKey)).Nodup ∧
      (decoded.map (·.outcome.transactionId)).Nodup ∧ replay o.scope o.initialState groups = .ok memory ∧
      (∀ a ∈ s.acknowledged, ∃ d ∈ decoded, d.retryKey = a.1.retryKey ∧ d.outcome = a.2) ∧
      ∀ c, s.coordinator = some c → ∀ d ∈ decoded, AnswersOnce s c d := by
  obtain ⟨charter, fits, noCollision, v, log, memory, inv⟩ := reachable.inv
  obtain ⟨v', inv', ended⟩ := inv.drop
  obtain ⟨log', memory', settled, replayed, shown, -⟩ := inv'.opens ended fits noCollision
  obtain ⟨decoded, decodes, holds⟩ := replay_holds replayed
  have acknowledged : s.drop.acknowledged = s.acknowledged := by
    unfold CoordinatorSession.drop
    split <;> rfl
  refine ⟨_, decoded, memory', shown, decodes, holds.keys, holds.transactionIds, replayed, fun a mem => ?_,
    fun c owner d mem => ?_⟩
  · have remembers := settled.remembers inv.replayed replayed inv'.remembers
    exact (holds.outcomes _ _).mp (remembers a (acknowledged ▸ mem)).1
  · cases certain : c.uncertain with
    | true => exact answersOnce_uncertain d certain
    | false =>
      have quietly : s.drop.inFlight = none := by
        unfold CoordinatorSession.drop
        split <;> exact inv.certain c owner certain
      rw [quietly] at settled
      obtain rfl : log' = log := settled.resolve_right fun ⟨_, late, _⟩ => late.1.of_none
      cases inv.replayed.symm.trans replayed
      exact inv.answersOnce owner holds decodes mem

end Once

section

attribute [local instance] plainPrimitives plainPrimitives_lawful

theorem committed_once_sample : ∃ c files, sampleFounding = (.ok c, files) ∧ ∃ groups decoded memory,
    JournalShows Nat Nat sampleInstallation (sampleSecond c files).drop.files groups ∧
    groups.mapM (decodeRecoveredGroup sampleInstallation.scope) = .ok decoded ∧ (decoded.map (·.retryKey)).Nodup ∧
    (decoded.map (·.outcome.transactionId)).Nodup ∧
    replay sampleInstallation.scope sampleInstallation.initialState groups = .ok memory ∧
    (∀ a ∈ (sampleSecond c files).acknowledged, ∃ d ∈ decoded, d.retryKey = a.1.retryKey ∧ d.outcome = a.2) ∧
    ∀ c', (sampleSecond c files).coordinator = some c' → ∀ d ∈ decoded, AnswersOnce (sampleSecond c files) c' d := by
  obtain ⟨c, files, -, -, -, founded, -⟩ := sampleFounding_ok
  exact ⟨c, files, founded, committed_once (sampleSecond_reachable founded)⟩

/-- A request that was acknowledged and has not expired is refused while the outcome of another one is unknown. -/
theorem repetition_refused : ∃ (s : CoordinatorSession Tally Unit Nat Nat) (outcome : TransactionOutcome)
    (c : CommitCoordinator Tally memoryHandles Unit Nat Nat), Reachable (fun _ => False) sampleInstallation s ∧
    ((sampleCommit 1 none).request, outcome) ∈ s.acknowledged ∧ before sampleNow outcome.expiresAt ∧
    s.coordinator = some c ∧ ((sampleCommit 1 none).run (c, s.files)).1 = .error .outcomeUnknown := by
  obtain ⟨c, files, -, outcome, c₂, founded, -, -, -, mem, unexpired, owner, uncertain, -⟩ := sampleFounding_ok
  refine ⟨sampleSecond c files, outcome, c₂, sampleSecond_reachable founded, mem, unexpired, owner, ?_⟩
  rw [CommitCall.run_refused _ (CommitCall.prepared_uncertain uncertain)]

end

section Failing

variable {S W E I : Type} [TransactionState S] [Primitives] [Primitives.Lawful] [DurableKeyEnvelope W]
  {charter : Charter W} {used : BlobInventory → Prop} {o : Installation S W} {s s' : CoordinatorSession S W E I}
  {v : View EntryName memoryHandles} {log log' : List Entry} {memory memory' : Memory S}

/-- Whatever happens before the next commit, opening then shows the log with the interrupted entry or without it. -/
theorem recovers_opens (recovered : Relation.ReflTransGen (Recovers o) s s') (inv : Inv charter used o s v log memory)
    (fits : o.opening.Fits charter) (noCollision : Collisionless charter.toOrigin used) :
    ∃ log' memory', Settled o charter used log s.inFlight log' ∧
      replay o.scope o.initialState (log'.map Entry.recovered) = .ok memory' ∧
      JournalShows E I o s'.drop.files (log'.map Entry.recovered) ∧ Opens E I o s'.drop.files memory' := by
  obtain ⟨v₁, log₁, memory₁, inv₁, -, settled⟩ := recovers_inv (recovered.tail (.drop s')) inv fits noCollision
  have ended : s'.drop.coordinator = none := by
    unfold CoordinatorSession.drop
    split
    · assumption
    · rfl
  obtain ⟨log', memory', settled', replayed, shown, opened⟩ := inv₁.opens ended fits noCollision
  refine ⟨log', memory', ?_, replayed, shown, opened⟩
  rcases settled with ⟨rfl, same⟩ | ⟨settled, none⟩
  · rw [same] at settled'
    exact settled'
  · rw [none] at settled'
    obtain rfl : log' = log₁ := settled'.resolve_right fun ⟨_, late, _⟩ => late.1.of_none
    exact settled

/-- The memory with one more group: the group of this request, and what replaying it gives. -/
def FollowedBy (scope : NamespaceRef) (memory memory' : Memory S) (request : TransactionRequest) (group : RecoveredGroup) :
    Prop :=
  ∃ outcome, decodeRecoveredGroup scope group =
      .ok ⟨request.retryKey, outcome, request.canonicalRequest, request.blobInventory⟩ ∧
    outcome.transactionId = request.transactionId ∧ replayGroup scope memory group = .ok memory'

omit [Primitives.Lawful] [DurableKeyEnvelope W] in
theorem Settled.followedBy {inFlight : Option TransactionRequest} (settled : Settled o charter used log inFlight log')
    (before : replay o.scope o.initialState (log.map Entry.recovered) = .ok memory)
    (after : replay o.scope o.initialState (log'.map Entry.recovered) = .ok memory') :
    log' = log ∧ memory' = memory ∨ ∃ request e, inFlight = some request ∧ log' = log ++ [e] ∧
      FollowedBy o.scope memory memory' request e.recovered := by
  rcases settled with rfl | ⟨e, ⟨late, chain⟩, rfl⟩
  · cases before.symm.trans after
    exact .inl ⟨rfl, rfl⟩
  · obtain ⟨request, found, H, W, E, I, c, change, scope, before', fresh, shown, after'⟩ := late.replayed chain
    cases before.symm.trans before'
    cases after.symm.trans after'
    refine .inr ⟨request, e, found, rfl, change.outcome, ?_, fresh.transaction, ?_⟩
    · rw [← scope]
      exact fresh.decoded shown
    · rw [← scope]
      exact fresh.replayed shown

variable [EntropySource E] [EntropySource I]

omit [Primitives.Lawful] [DurableKeyEnvelope W] in
/-- The coordinator answers nothing that depends on what it does not know. -/
structure Refuses (c : CommitCoordinator S memoryHandles W E I) : Prop where
  commit : ∀ (call : CommitCall) files, call.run (c, files) = (.error .outcomeUnknown, c, files)
  readView : c.readView = .error .outcomeUnknown
  outcome : ∀ principal key observation, c.outcome principal key observation = .error .outcomeUnknown
  transactionOutcome : ∀ id observation, c.transactionOutcome id observation = .error .outcomeUnknown
  transactionOutcomeFor : ∀ principal id observation,
    c.transactionOutcomeFor principal id observation = .error .outcomeUnknown
  reducerStateForCheckpoint : c.reducerStateForCheckpoint = .error .outcomeUnknown
  checkpointAnchor : c.checkpointAnchor = .error .outcomeUnknown

omit [Primitives.Lawful] [DurableKeyEnvelope W] in
theorem refuses_of_uncertain {c : CommitCoordinator S memoryHandles W E I} (h : c.uncertain = true) : Refuses c := by
  have stop : require (c.uncertain = false) TransactionError.outcomeUnknown = .error .outcomeUnknown := if_neg (by simp [h])
  refine ⟨fun call files => CommitCall.run_refused files (CommitCall.prepared_uncertain h), ?_, ?_, ?_, ?_, ?_, ?_⟩
  · rw [CommitCoordinator.readView, stop, error_bind]
  · intro principal key observation
    rw [CommitCoordinator.outcome, stop, error_bind]
  · intro id observation
    rw [CommitCoordinator.transactionOutcome, stop, error_bind]
  · intro principal id observation
    rw [CommitCoordinator.transactionOutcomeFor, stop, error_bind]
  · rw [CommitCoordinator.reducerStateForCheckpoint, stop, error_bind]
  · rw [CommitCoordinator.checkpointAnchor, stop, error_bind]

end Failing

section

attribute [local instance] plainPrimitives plainPrimitives_lawful

end

end CoordinatorSession

end Uste.Txn
