import Uste.Txn.Commit

/-!
The life of a coordinator on a memory file system: commits by any principals, with injected
faults, the end of a process by dropping the coordinator or by a crash, and opening again.
-/

namespace Uste.Txn

open Types Crypto Policy Storage Program FileSystem Std List
open Time (UtcInstant)
open Storage.Session (model)

/-- A call of commit: the request, what the clock shows, what the caller answers when it is asked, and the faults
of the files. -/
structure CommitCall where
  request : TransactionRequest
  observation : Option UtcInstant
  cancelled : Bool
  cancelledLater : Bool
  plan : Option FaultPlan

/-- The arguments of every opening but retention and the sources of randomness. -/
structure Installation (S W : Type) where
  finalName : EntryName
  scope : NamespaceRef
  unwrap : DatabaseId → W → Except CryptoError (Octets 32)
  initialState : S

def Installation.opening {S W : Type} (o : Installation S W) : Opening W := ⟨o.finalName, o.scope.database, o.unwrap⟩

/-- A coordinator, its files, and what its users know: the requests that were acknowledged with their outcomes, and
the one whose outcome is unknown. -/
structure CoordinatorSession (S W E I : Type) where
  files : MemoryFileSystem
  coordinator : Option (CommitCoordinator S memoryHandles W E I)
  acknowledged : List (TransactionRequest × TransactionOutcome)
  inFlight : Option TransactionRequest

section

variable {S W E I : Type} [TransactionState S] [Primitives]

def CommitCall.run [EntropySource E] [EntropySource I] (call : CommitCall) :
    Program (CommitCoordinator S memoryHandles W E I × MemoryFileSystem) TransactionError TransactionOutcome :=
  underFaults call.plan
    (CommitCoordinator.commit call.request call.observation call.cancelled call.cancelledLater)
    (CommitCoordinator.commit call.request call.observation call.cancelled call.cancelledLater)

namespace CoordinatorSession

def commit [EntropySource E] [EntropySource I] (s : CoordinatorSession S W E I) (call : CommitCall) :
    CoordinatorSession S W E I :=
  match s.coordinator with
  | none => s
  | some c =>
    match call.run (c, s.files) with
    | (.ok outcome, c', files) =>
      { s with files := files, coordinator := some c', acknowledged := s.acknowledged ++ [(call.request, outcome)] }
    | (.error _, c', files) =>
      { s with
        files := files
        coordinator := some c'
        inFlight := if c.uncertain = false ∧ c'.uncertain = true then some call.request else s.inFlight }

omit [TransactionState S] [Primitives] in
def drop (s : CoordinatorSession S W E I) : CoordinatorSession S W E I :=
  match s.coordinator with
  | none => s
  | some c => { s with files := release c.journal.ownership s.files, coordinator := none }

omit [TransactionState S] [Primitives] in
def crash (s : CoordinatorSession S W E I) : CoordinatorSession S W E I :=
  match MemoryFileSystem.restart s.files with
  | (.ok _, files) => { s with files := files, coordinator := none }
  | (.error _, _) => s

def openUnder [DurableKeyEnvelope W] (o : Installation S W) (retention : RetentionDays) (plan : Option FaultPlan)
    (vaultEntropy : E) (identityEntropy : I) :
    Program (Unit × MemoryFileSystem) TransactionError (CommitCoordinator S memoryHandles W E I × RecoveryReport) :=
  underFaults plan
    (onSnd (CommitCoordinator.openJournal o.finalName o.scope retention vaultEntropy identityEntropy o.unwrap o.initialState))
    (onSnd (CommitCoordinator.openJournal o.finalName o.scope retention vaultEntropy identityEntropy o.unwrap o.initialState))

def reopen [DurableKeyEnvelope W] (s : CoordinatorSession S W E I) (o : Installation S W) (retention : RetentionDays)
    (plan : Option FaultPlan) (vaultEntropy : E) (identityEntropy : I) : CoordinatorSession S W E I :=
  match s.coordinator with
  | some _ => s
  | none =>
    match openUnder o retention plan vaultEntropy identityEntropy ((), s.files) with
    | (.ok (c, _), _, files) => { s with files := files, coordinator := some c, inFlight := none }
    | (.error _, _, files) => { s with files := files }

/-- A step that commits nothing: uploads, the end of a process, and opening again. -/
inductive Recovers [DurableKeyEnvelope W] (o : Installation S W) :
    CoordinatorSession S W E I → CoordinatorSession S W E I → Prop
  | upload (s : CoordinatorSession S W E I) (c : CommitCoordinator S memoryHandles W E I)
      (journal : JournalStore memoryHandles W E I) (files : MemoryFileSystem) (owner : s.coordinator = some c)
      (same : c.journal.Same journal)
      (uploaded : ∀ v, model.Shows s.files v → ∃ v', model.Shows files v' ∧ Uploaded v v') :
      Recovers o s { s with files := files, coordinator := some { c with journal := journal } }
  | drop (s : CoordinatorSession S W E I) : Recovers o s s.drop
  | crash (s : CoordinatorSession S W E I) : Recovers o s s.crash
  | reopen (s : CoordinatorSession S W E I) (retention : RetentionDays) (plan : Option FaultPlan) (vaultEntropy : E)
      (identityEntropy : I) : Recovers o s (s.reopen o retention plan vaultEntropy identityEntropy)

inductive Step [DurableKeyEnvelope W] [EntropySource E] [EntropySource I] (used : BlobInventory → Prop)
    (o : Installation S W) : CoordinatorSession S W E I → CoordinatorSession S W E I → Prop
  | commit (s : CoordinatorSession S W E I) (call : CommitCall)
      (inUse : ∀ i, call.request.blobInventory = some i → used i) : Step used o s (s.commit call)
  | recovers (s s' : CoordinatorSession S W E I) (step : Recovers o s s') : Step used o s s'

/-- The entry of the commit that was interrupted, as the coordinator had prepared it on this log. -/
def Late (scope : NamespaceRef) (initial : S) (log : List Entry) (inFlight : Option TransactionRequest) (e : Entry) : Prop :=
  ∃ request, inFlight = some request ∧ ∃ (H : Handles) (W E I : Type) (c : CommitCoordinator S H W E I), c.scope = scope ∧
    replay scope initial (log.map Entry.recovered) = .ok c.toMemory ∧ UnderWay c request log e

def Remembers (memory : Memory S) (acknowledged : List (TransactionRequest × TransactionOutcome)) : Prop :=
  ∀ a ∈ acknowledged, memory.outcomes[a.1.retryKey]? = some a.2 ∧ a.2.transactionId = a.1.transactionId ∧
    a.2.requestDigest = transactionRequestDigest a.1.canonicalRequest (digestOf a.1.blobInventory)

/-- The files hold the groups whose replay the coordinator has in memory. -/
structure Inv (charter : Charter W) (used : BlobInventory → Prop) (o : Installation S W) (s : CoordinatorSession S W E I)
    (v : View EntryName memoryHandles) (log : List Entry) (memory : Memory S) : Prop where
  shows : model.Shows s.files v
  replayed : replay o.scope o.initialState (log.map Entry.recovered) = .ok memory
  live : ∀ c, s.coordinator = some c → c.scope = o.scope ∧
    Coordinated charter used o.initialState c v log (Late o.scope o.initialState log s.inFlight)
  closed : s.coordinator = none → Closed charter used v log (Late o.scope o.initialState log s.inFlight)
  certain : ∀ c, s.coordinator = some c → c.uncertain = false → s.inFlight = none
  remembers : Remembers memory s.acknowledged

variable {charter : Charter W} {used : BlobInventory → Prop} {o : Installation S W} {s : CoordinatorSession S W E I}
  {v : View EntryName memoryHandles} {log : List Entry} {memory : Memory S} {e : Entry} {scope : NamespaceRef} {initial : S}

theorem Late.of_none (h : Late scope initial log none e) : False := by
  obtain ⟨request, none, -⟩ := h
  cases none

variable {inFlight : Option TransactionRequest}

theorem Late.replayed (late : Late scope initial log inFlight e) (chain : Chain charter used (log ++ [e])) :
    ∃ request, inFlight = some request ∧ ∃ (H : Handles) (W E I : Type) (c : CommitCoordinator S H W E I) (change : _),
      c.scope = scope ∧ replay scope initial (log.map Entry.recovered) = .ok c.toMemory ∧ c.Fresh request change ∧
      CommitCoordinator.Shown e.recovered request change ∧
      replay scope initial ((log ++ [e]).map Entry.recovered) = .ok (c.publish request change).toMemory := by
  obtain ⟨request, found, H, W, E, I, c, rfl, before, change, fresh, revision, records⟩ := late
  have shown := shown_of_records chain revision records
  refine ⟨request, found, H, W, E, I, c, change, rfl, before, fresh, shown, ?_⟩
  rw [map_append, map_singleton]
  exact (replay_snoc _ before).trans (fresh.replayed shown)

variable {H : Handles}

omit [TransactionState S] in
theorem closed_chained {v : View EntryName H} {Late : Entry → Prop} (closed : Closed charter used v log Late) :
    Closed charter used v log fun e => Late e ∧ Chain charter used (log ++ [e]) := by
  obtain ⟨free, visible, durable, inv, seen, kept⟩ := closed
  refine ⟨free, visible, durable, inv, seen.imp id ?_, kept⟩
  rintro ⟨e, late, rfl⟩
  exact ⟨e, ⟨late, inv.stored.chain⟩, rfl⟩

/-- The log after an opening: with the interrupted entry or without it. -/
def Settled (o : Installation S W) (charter : Charter W) (used : BlobInventory → Prop) (log : List Entry)
    (inFlight : Option TransactionRequest) (log' : List Entry) : Prop :=
  log' = log ∨ ∃ e, (Late o.scope o.initialState log inFlight e ∧ Chain charter used (log ++ [e])) ∧ log' = log ++ [e]

theorem Settled.replayed {log' : List Entry} (settled : Settled o charter used log inFlight log')
    (before : replay o.scope o.initialState (log.map Entry.recovered) = .ok memory) :
    ∃ memory', replay o.scope o.initialState (log'.map Entry.recovered) = .ok memory' := by
  rcases settled with rfl | ⟨e, ⟨late, chain⟩, rfl⟩
  · exact ⟨memory, before⟩
  · obtain ⟨request, -, H, W, E, I, c, change, -, -, -, -, after⟩ := late.replayed chain
    exact ⟨_, after⟩

omit [TransactionState S] in
theorem closed_mono {v : View EntryName H} {Late Late' : Entry → Prop}
    (closed : Closed charter used v log Late) (wider : ∀ e, Late e → Late' e) : Closed charter used v log Late' := by
  obtain ⟨free, visible, durable, inv, seen, kept⟩ := closed
  exact ⟨free, visible, durable, inv, seen.imp id fun ⟨e, late, same⟩ => ⟨e, wider e late, same⟩, kept⟩

section Steps

variable [Primitives.Lawful] [DurableKeyEnvelope W]

section

variable {F : Type} {H : Handles} [FileSystem F H] {quiet : Prop} (M : FileModel F Kept quiet)

/-- What an opening leaves: a coordinator with the memory of the log, the interrupted entry taken or left. -/
def Reopened (charter : Charter W) (used : BlobInventory → Prop) (o : Installation S W) (log : List Entry)
    (inFlight : Option TransactionRequest) (result : CommitCoordinator S H W E I × RecoveryReport) (fs : F) : Prop :=
  ∃ v log', Settled o charter used log inFlight log' ∧ M.Shows fs v ∧ result.1.scope = o.scope ∧
    Coordinated charter used o.initialState result.1 v log' fun _ => False

def StillClosed (charter : Charter W) (used : BlobInventory → Prop) (o : Installation S W) (log : List Entry)
    (inFlight : Option TransactionRequest) (fs : F) : Prop :=
  ∃ v, M.Shows fs v ∧ Closed charter used v log (Late o.scope o.initialState log inFlight)

/-- Opening replays the log, with the interrupted entry or without it. -/
theorem openJournal_spec {fs : F} {inFlight : Option TransactionRequest} {retention : RetentionDays} {vaultEntropy : E}
    {identityEntropy : I} (closed : StillClosed M charter used o log inFlight fs)
    (fits : o.opening.Fits charter) (noCollision : Collisionless charter.toOrigin used) :
    wp (CommitCoordinator.openJournal o.finalName o.scope retention vaultEntropy identityEntropy o.unwrap o.initialState)
      (Reopened M charter used o log inFlight) (fun _ => StillClosed M charter used o log inFlight) fs := by
  obtain ⟨v, shows, closed⟩ := closed
  have opened : wp (JournalStore.openInternal charter.finalName charter.database vaultEntropy identityEntropy
      o.unwrap none (replayGroup o.scope) (Memory.initial o.initialState)) _ _ fs :=
    Closed.openInternal M (closed_chained closed) fits.unlocks noCollision shows
  rw [← fits.finalName, ← fits.database] at opened
  unfold CommitCoordinator.openJournal
  refine wp_maps opened ?_ ?_
  · rintro ⟨journal, report, memory'⟩ fs' ⟨v', log', settled, shows, live, unlimited, visited⟩
    exact ⟨v', log', settled, shows, rfl, .inl live, visited, unlimited, fun _ _ => id⟩
  · rintro err fs' ⟨v', shows, closed', -⟩
    exact ⟨v', shows, closed_mono closed' fun e late => late.1⟩

end

section

omit [Primitives.Lawful] [DurableKeyEnvelope W]

theorem Settled.remembers {inFlight : Option TransactionRequest} {log' : List Entry} {memory' : Memory S}
    {acknowledged : List (TransactionRequest × TransactionOutcome)} (settled : Settled o charter used log inFlight log')
    (before : replay o.scope o.initialState (log.map Entry.recovered) = .ok memory)
    (after : replay o.scope o.initialState (log'.map Entry.recovered) = .ok memory')
    (h : Remembers memory acknowledged) : Remembers memory' acknowledged := by
  rcases settled with rfl | ⟨e, ⟨late, chain⟩, rfl⟩
  · cases before.symm.trans after
    exact h
  · obtain ⟨request, -, H, W, E, I, c, change, -, before', fresh, -, after'⟩ := late.replayed chain
    cases before.symm.trans before'
    cases after.symm.trans after'
    intro a mem
    obtain ⟨known, same⟩ := h a mem
    exact ⟨fresh.outcomes known, same⟩

section

variable (inv : Inv charter used o s v log memory)

include inv

theorem Inv.disk : ∃ visible durable, DiskInv charter used v visible durable ∧
    (visible = log ∨ ∃ e, Late o.scope o.initialState log s.inFlight e ∧ visible = log ++ [e]) ∧
    (durable = log ∨ durable = visible) := by
  cases found : s.coordinator with
  | none => exact (inv.closed found).2
  | some c =>
    obtain ⟨-, -, visible, durable, disk, seen, kept, -⟩ := (inv.live c found).2.journaled.disk
    exact ⟨visible, durable, disk, seen, kept⟩

theorem Inv.drop : ∃ v', Inv charter used o s.drop v' log memory ∧ s.drop.coordinator = none := by
  unfold CoordinatorSession.drop
  split
  · rename_i found
    exact ⟨v, inv, found⟩
  · rename_i c found
    obtain ⟨v', shows, closed⟩ := (inv.live c found).2.journaled.drop model inv.shows
    exact ⟨v', ⟨shows, inv.replayed, nofun, fun _ => closed, nofun, inv.remembers⟩, rfl⟩

theorem Inv.crash : ∃ v', Inv charter used o s.crash v' log memory := by
  obtain ⟨visible, durable, disk, seen, kept⟩ := inv.disk
  have restarted := MemoryFileSystem.restart_shows inv.shows disk.stored.mounted
  unfold CoordinatorSession.crash
  split
  · rename_i files ran
    obtain ⟨v', shows, crashed⟩ := wp_ok restarted ran
    exact ⟨v', shows, inv.replayed, nofun, fun _ => disk.closed seen kept crashed, nofun, inv.remembers⟩
  · exact ⟨v, inv⟩

end

end

theorem openUnder_spec (retention : RetentionDays) (plan : Option FaultPlan) (vaultEntropy : E) (identityEntropy : I)
    (inv : Inv charter used o s v log memory) (ended : s.coordinator = none) (fits : o.opening.Fits charter)
    (noCollision : Collisionless charter.toOrigin used) :
    wp (openUnder o retention plan vaultEntropy identityEntropy) (fun result t => Reopened model charter used o log s.inFlight result t.2)
      (fun _ t => StillClosed model charter used o log s.inFlight t.2) ((), s.files) := by
  refine underFaults_spec (fun _ => ?_) fun plan' given => ?_
  · rw [wp_onSnd]
    exact openJournal_spec model ⟨v, inv.shows, inv.closed ended⟩ fits noCollision
  · rw [wp_onSnd]
    exact openJournal_spec (FaultFileSystem.model model) ⟨v, inv.shows, inv.closed ended⟩ fits noCollision

section

omit [Primitives.Lawful] [DurableKeyEnvelope W]

variable {files : MemoryFileSystem}

theorem Inv.reopened {c : CommitCoordinator S memoryHandles W E I} {report : RecoveryReport}
    (inv : Inv charter used o s v log memory) (opened : Reopened model charter used o log s.inFlight (c, report) files) :
    ∃ v' log', Settled o charter used log s.inFlight log' ∧
      Inv charter used o { s with files := files, coordinator := some c, inFlight := none } v' log' c.toMemory := by
  obtain ⟨v', log', settled, shows, scope, coordinated⟩ := opened
  have after := coordinated.replayed
  rw [scope] at after
  refine ⟨v', log', settled, shows, after, ?_, nofun, fun _ _ _ => rfl, settled.remembers inv.replayed after inv.remembers⟩
  rintro _ ⟨⟩
  exact ⟨scope, coordinated.journaled.mono nofun, coordinated.replayed, coordinated.unlimited, fun _ _ => Late.of_none⟩

theorem Inv.unopened (inv : Inv charter used o s v log memory) (ended : s.coordinator = none)
    (closed : StillClosed model charter used o log s.inFlight files) :
    ∃ v', Inv charter used o { s with files := files } v' log memory := by
  obtain ⟨v', shows, closed⟩ := closed
  exact ⟨v', shows, inv.replayed, by rw [ended]; exact nofun, fun _ => closed, by rw [ended]; exact nofun, inv.remembers⟩

end

theorem Recovers.inv {s' : CoordinatorSession S W E I} (step : Recovers o s s')
    (inv : Inv charter used o s v log memory) (fits : o.opening.Fits charter)
    (noCollision : Collisionless charter.toOrigin used) :
    ∃ v' log' memory', Inv charter used o s' v' log' memory' ∧ s'.acknowledged = s.acknowledged ∧
      (log' = log ∧ s'.inFlight = s.inFlight ∨ Settled o charter used log s.inFlight log' ∧ s'.inFlight = none) := by
  cases step with
  | upload c journal files owner same uploaded =>
    obtain ⟨v', shows, up⟩ := uploaded v inv.shows
    obtain ⟨scope, coordinated⟩ := inv.live c owner
    refine ⟨v', log, memory, ⟨shows, inv.replayed, ?_, nofun, ?_, inv.remembers⟩, rfl, .inl ⟨rfl, rfl⟩⟩
    swap
    · rintro _ ⟨⟩
      exact inv.certain c owner
    rintro _ ⟨⟩
    refine ⟨scope, up.journaled same coordinated.journaled, coordinated.replayed, ?_, coordinated.certain⟩
    obtain ⟨_, _, -, rfl⟩ := same
    exact coordinated.unlimited
  | drop =>
    obtain ⟨v', inv', -⟩ := inv.drop
    refine ⟨v', log, memory, inv', ?_, .inl ⟨rfl, ?_⟩⟩ <;> unfold CoordinatorSession.drop <;> split <;> rfl
  | crash =>
    obtain ⟨v', inv'⟩ := inv.crash
    refine ⟨v', log, memory, inv', ?_, .inl ⟨rfl, ?_⟩⟩ <;> unfold CoordinatorSession.crash <;> split <;> rfl
  | reopen retention plan vaultEntropy identityEntropy =>
    unfold CoordinatorSession.reopen
    cases ended : s.coordinator with
    | some c => exact ⟨v, log, memory, inv, rfl, .inl ⟨rfl, rfl⟩⟩
    | none =>
      have ran := openUnder_spec retention plan vaultEntropy identityEntropy inv ended fits noCollision
      dsimp only
      split
      · rename_i c report _ files' result
        have opened := wp_ok ran result
        obtain ⟨v', log', settled, inv'⟩ := inv.reopened opened
        exact ⟨v', log', c.toMemory, inv', rfl, .inr ⟨settled, rfl⟩⟩
      · rename_i err files' result
        have closed := wp_error ran result
        obtain ⟨v', inv'⟩ := inv.unopened ended closed
        exact ⟨v', log, memory, ended ▸ inv', rfl, .inl ⟨rfl, rfl⟩⟩

end Steps

section Runs

variable [Primitives.Lawful] [DurableKeyEnvelope W] [EntropySource E] [EntropySource I]
  {c : CommitCoordinator S memoryHandles W E I} {files : MemoryFileSystem}

omit [DurableKeyEnvelope W] in
theorem run_spec {Late : Entry → Prop} {initial : S}
    (call : CommitCall) (coordinated : Coordinated charter used initial c v log Late)
    (noCollision : Collisionless charter.toOrigin used) (inUse : ∀ i, call.request.blobInventory = some i → used i)
    (shows : model.Shows files v) : wp call.run (Committed model charter used initial log call.request c files)
      (Refused model charter used initial log Late call.request c) (c, files) := by
  refine underFaults_spec (fun _ => ?_) fun plan given => ?_
  · exact commit_spec model coordinated noCollision inUse shows
  · refine wp_mono (commit_spec (FaultFileSystem.model model) coordinated noCollision inUse shows) ?_ fun _ _ h => h
    rintro outcome t (⟨rfl, known⟩ | fresh)
    · exact .inl ⟨rfl, known⟩
    · exact .inr fresh

section

omit [Primitives.Lawful] [DurableKeyEnvelope W] [EntropySource E] [EntropySource I]

variable {c : CommitCoordinator S memoryHandles W E I}

theorem Inv.memory_eq (inv : Inv charter used o s v log memory)
    (owner : s.coordinator = some c) : c.toMemory = memory := by
  obtain ⟨scope, coordinated⟩ := inv.live c owner
  have replayed := coordinated.replayed
  rw [scope, inv.replayed] at replayed
  exact (Except.ok.inj replayed).symm

variable {c' : CommitCoordinator S memoryHandles W E I} {request : TransactionRequest} {error : TransactionError}

section

variable (inv : Inv charter used o s v log memory) (owner : s.coordinator = some c)

include inv owner

theorem Late.noted (after : c'.uncertain = (c.uncertain || error = .outcomeUnknown))
    (h : Late o.scope o.initialState log s.inFlight e ∨ error = .outcomeUnknown ∧ UnderWay c request log e) :
    Late o.scope o.initialState log
      (if c.uncertain = false ∧ c'.uncertain = true then some request else s.inFlight) e := by
  obtain ⟨scope, coordinated⟩ := inv.live c owner
  rcases h with late | ⟨rfl, underWay⟩
  · rw [if_neg fun both => coordinated.certain both.1 e late]
    exact late
  · obtain ⟨change, fresh, -⟩ := underWay.change
    have certain := fresh.certain
    rw [if_pos ⟨certain, by rw [after]; simp⟩]
    exact ⟨request, rfl, _, _, _, _, c, scope, scope ▸ coordinated.replayed, underWay⟩

theorem Inv.refused {files' : MemoryFileSystem}
    (refused : Refused model charter used o.initialState log (Late o.scope o.initialState log s.inFlight) request c error
      (c', files')) :
    ∃ v', Inv charter used o { s with
      files := files'
      coordinator := some c'
      inFlight := if c.uncertain = false ∧ c'.uncertain = true then some request else s.inFlight } v' log memory := by
  obtain ⟨journal, v', after, shows, coordinated'⟩ := refused
  dsimp only at after shows coordinated'
  have noted : c'.uncertain = (c.uncertain || error = .outcomeUnknown) := by rw [after]
  have quietly : c'.uncertain = false →
      (if c.uncertain = false ∧ c'.uncertain = true then some request else s.inFlight) = none := by
    intro certain
    rw [if_neg (by simp [certain])]
    exact inv.certain c owner (by rw [noted, Bool.or_eq_false_iff] at certain; exact certain.1)
  refine ⟨v', shows, inv.replayed, ?_, nofun, ?_, inv.remembers⟩
  · rintro _ ⟨⟩
    refine ⟨by rw [after]; exact (inv.live c owner).1, coordinated'.journaled.mono fun e => Late.noted inv owner noted,
      coordinated'.replayed, coordinated'.unlimited, fun certain e late => ?_⟩
    rw [quietly certain] at late
    exact late.of_none
  · rintro _ ⟨⟩
    exact quietly

end

end

omit [DurableKeyEnvelope W] in
theorem Inv.commit {call : CommitCall} (inv : Inv charter used o s v log memory)
    (noCollision : Collisionless charter.toOrigin used) (inUse : ∀ i, call.request.blobInventory = some i → used i) :
    ∃ v' log' memory', Inv charter used o (s.commit call) v' log' memory' ∧ log <+: log' := by
  unfold CoordinatorSession.commit
  cases owner : s.coordinator with
  | none => exact ⟨v, log, memory, inv, prefix_refl log⟩
  | some c =>
    obtain ⟨scope, coordinated⟩ := inv.live c owner
    obtain rfl := inv.memory_eq owner
    have ran := run_spec call coordinated noCollision inUse inv.shows
    dsimp only
    split
    · rename_i outcome c' files' result
      rcases wp_ok ran result with ⟨same, known, transaction, digest⟩ |
          ⟨change, journal, v', e, fresh, rfl, rfl, shows, shown, coordinated'⟩
      · cases same
        refine ⟨v, log, _, ⟨inv.shows, inv.replayed, ?_, nofun, ?_, ?_⟩, prefix_refl log⟩
        · rintro _ ⟨⟩
          exact ⟨scope, coordinated⟩
        · rintro _ ⟨⟩
          exact inv.certain c owner
        · exact forall_mem_append.mpr ⟨inv.remembers, forall_mem_singleton.mpr ⟨known, transaction, digest⟩⟩
      · have quietly := inv.certain c owner fresh.certain
        refine ⟨v', log ++ [e], (c.publish call.request change).toMemory,
          ⟨shows, ?_, ?_, nofun, fun _ _ _ => quietly, ?_⟩, prefix_append log [e]⟩
        · rw [← scope]
          exact coordinated'.replayed
        · rintro _ ⟨⟩
          refine ⟨scope, coordinated'.journaled.mono nofun, coordinated'.replayed, coordinated'.unlimited, fun _ e late => ?_⟩
          rw [quietly] at late
          exact late.of_none
        · refine forall_mem_append.mpr ⟨fun a mem => ?_, forall_mem_singleton.mpr ?_⟩
          · obtain ⟨known, same⟩ := inv.remembers a mem
            exact ⟨fresh.outcomes known, same⟩
          · exact ⟨CommitCoordinator.publish_outcome, fresh.transaction, fresh.digest⟩
    · rename_i error c' files' result
      obtain ⟨v', inv'⟩ := inv.refused owner (wp_error ran result)
      exact ⟨v', log, _, inv', prefix_refl log⟩

def Reachable (used : BlobInventory → Prop) (o : Installation S W) (s : CoordinatorSession S W E I) : Prop :=
  ∃ (retention : RetentionDays) (vault : KeyVault W E) (identityEntropy : I) (files files' : MemoryFileSystem)
    (c : CommitCoordinator S memoryHandles W E I),
    Storage.Session.Environment ⟨o.scope.database, o.finalName⟩ vault o.unwrap used ∧ MemoryFileSystem.Sound files ∧
    (CommitCoordinator.create o.scope retention o.finalName vault identityEntropy o.initialState).run files =
      (.ok c, files') ∧
    Relation.ReflTransGen (Step used o) ⟨files', some c, [], none⟩ s

omit [Primitives.Lawful] in
theorem Reachable.drop (reachable : Reachable used o s) : Reachable used o s.drop := by
  obtain ⟨retention, vault, identityEntropy, files, files', c, environment, sound, created, reached⟩ := reachable
  exact ⟨retention, vault, identityEntropy, files, files', c, environment, sound, created,
    reached.tail (.recovers _ _ (.drop _))⟩

omit [Primitives.Lawful] [DurableKeyEnvelope W] [EntropySource E] [EntropySource I] in
theorem Settled.continues {inFlight : Option TransactionRequest} {log' : List Entry}
    (settled : Settled o charter used log inFlight log') : log <+: log' := by
  rcases settled with rfl | ⟨e, -, rfl⟩
  · exact prefix_refl _
  · exact prefix_append log [e]

variable {s' : CoordinatorSession S W E I}

/-- Nothing is taken back from the log. -/
theorem Step.inv (step : Step used o s s') (fits : o.opening.Fits charter)
    (noCollision : Collisionless charter.toOrigin used) (inv : Inv charter used o s v log memory) :
    ∃ v' log' memory', Inv charter used o s' v' log' memory' ∧ log <+: log' := by
  cases step with
  | commit call inUse => exact inv.commit noCollision inUse
  | recovers _ step =>
    obtain ⟨v', log', memory', inv', -, ⟨rfl, -⟩ | ⟨settled, -⟩⟩ := step.inv inv fits noCollision
    · exact ⟨v', log', memory', inv', prefix_refl log'⟩
    · exact ⟨v', log', memory', inv', settled.continues⟩

theorem created_inv {retention : RetentionDays} {vault : KeyVault W E} {identityEntropy : I} {files' : MemoryFileSystem}
    (environment : Storage.Session.Environment ⟨o.scope.database, o.finalName⟩ vault o.unwrap used)
    (sound : MemoryFileSystem.Sound files)
    (created : (CommitCoordinator.create o.scope retention o.finalName vault identityEntropy o.initialState).run files =
      (.ok c, files')) :
    ∃ charter, o.opening.Fits charter ∧ Collisionless charter.toOrigin used ∧
      ∃ v, Inv charter used o ⟨files', some c, [], none⟩ v [] (Memory.initial o.initialState) := by
  have spec : wp (CommitCoordinator.create o.scope retention o.finalName vault identityEntropy o.initialState)
      (fun (c : CommitCoordinator S memoryHandles W E I) fs' => ∃ charter v, model.Shows fs' v ∧
        LiveInv charter used c.journal v [] ∧ Founds charter ⟨o.scope.database, o.finalName⟩ vault ∧
        c.journal.certificateReadLimits = none ∧ c.toMemory = Memory.initial o.initialState ∧ c.scope = o.scope)
      (fun _ _ => True) files := by
    unfold CommitCoordinator.create
    refine wp_maps (create_spec model used sound) ?_ fun _ _ _ => trivial
    rintro journal fs' ⟨charter, v, shows, live, founds, unlimited⟩
    exact ⟨charter, v, shows, live, founds, unlimited, rfl, rfl⟩
  obtain ⟨charter, v, shows, live, founds, unlimited, fresh, scope⟩ := wp_ok spec created
  refine ⟨charter, ?_, environment.noCollision charter.toOrigin founds.database founds.key, v, shows, rfl, ?_, nofun,
    fun _ _ _ => rfl, fun _ mem => (not_mem_nil mem).elim⟩
  · refine ⟨founds.finalName.symm, founds.database.symm, founds.nonempty, founds.bounded, ?_, ?_⟩
    · rw [founds.wrapped]
      exact environment.decodes _ (founds.wrapped ▸ founds.keyBytes)
    · rw [founds.database, founds.wrapped]
      exact environment.unwraps _ founds.key
  · rintro _ ⟨⟩
    exact ⟨scope, .inl live, by rw [fresh]; rfl, unlimited, fun _ _ => Late.of_none⟩

theorem Reachable.inv (reachable : Reachable used o s) :
    ∃ charter, o.opening.Fits charter ∧ Collisionless charter.toOrigin used ∧
      ∃ v log memory, Inv charter used o s v log memory := by
  obtain ⟨retention, vault, identityEntropy, files, files', c, environment, sound, created, reached⟩ := reachable
  obtain ⟨charter, fits, noCollision, v, start⟩ := created_inv environment sound created
  refine ⟨charter, fits, noCollision, ?_⟩
  induction reached with
  | refl => exact ⟨v, [], _, start⟩
  | tail _ step ih =>
    obtain ⟨v₁, log₁, memory₁, inv₁⟩ := ih
    obtain ⟨v₂, log₂, memory₂, inv₂, -⟩ := step.inv fits noCollision inv₁
    exact ⟨v₂, log₂, memory₂, inv₂⟩

omit [EntropySource E] [EntropySource I] in
theorem recovers_inv (recovered : Relation.ReflTransGen (Recovers o) s s')
    (inv : Inv charter used o s v log memory) (fits : o.opening.Fits charter)
    (noCollision : Collisionless charter.toOrigin used) :
    ∃ v' log' memory', Inv charter used o s' v' log' memory' ∧ s'.acknowledged = s.acknowledged ∧
      (log' = log ∧ s'.inFlight = s.inFlight ∨ Settled o charter used log s.inFlight log' ∧ s'.inFlight = none) := by
  induction recovered with
  | refl => exact ⟨v, log, memory, inv, rfl, .inl ⟨rfl, rfl⟩⟩
  | tail _ step ih =>
    obtain ⟨v₁, log₁, memory₁, inv₁, acknowledged, settled⟩ := ih
    obtain ⟨v₂, log₂, memory₂, inv₂, acknowledged', settled'⟩ := step.inv inv₁ fits noCollision
    refine ⟨v₂, log₂, memory₂, inv₂, acknowledged'.trans acknowledged, ?_⟩
    rcases settled with ⟨rfl, same⟩ | ⟨settled, none⟩
    · rw [same] at settled'
      exact settled'
    · rcases settled' with ⟨rfl, same⟩ | ⟨settled', none'⟩
      · exact .inr ⟨settled, same.trans none⟩
      · rw [none] at settled'
        rcases settled' with rfl | ⟨e, ⟨late, -⟩, -⟩
        · exact .inr ⟨settled, none'⟩
        · exact late.of_none.elim

end Runs

end CoordinatorSession

end

end Uste.Txn
