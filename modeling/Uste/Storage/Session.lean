import Uste.Storage.Create
import Uste.Storage.FaultModel

/-!
The life of a journal on a memory file system: appends, with injected faults, uploads between
them, the end of a process by dropping the store or by a crash, and opening again. Every state
that can be reached recovers the groups that were acknowledged.
-/

namespace Uste.Storage

open Types Crypto Program FileSystem Std List

/-! ### What an append leaves alone -/

section Limits

variable {F W E I : Type} {H : Handles}

def limitsOf (s : JournalStore H W E I × F) : Option CertificateAnchorReadLimits := s.1.certificateReadLimits

/-- The parts of a store that an append leaves alone until its certificate is durable. -/
def ledger (store : JournalStore H W E I) :
    Option CertificateAnchorReadLimits × CommittedBlobs × CommittedBlobBytes :=
  (store.certificateReadLimits, store.committedBlobs, store.committedBlobBytes)

def ledgerOf (s : JournalStore H W E I × F) : Option CertificateAnchorReadLimits × CommittedBlobs × CommittedBlobBytes :=
  ledger s.1

theorem sealed_ledger [Primitives] [EntropySource E] (context : CryptoContext) (plaintext : List UInt8) :
    Keeps ledgerOf (JournalStore.sealed context plaintext : Program (JournalStore H W E I × F) _ _) :=
  .bind (.mapError (.zoom fun _ _ => rfl)) fun _ => .pure _

theorem onFiles_ledger {α : Type} (x : Program F AdapterErrorKind α) :
    Keeps ledgerOf (JournalStore.onFiles x : Program (JournalStore H W E I × F) _ _) := .onSnd _

theorem modify_ledger {f : JournalStore H W E I → JournalStore H W E I} (h : ∀ store, ledger (f store) = ledger store) :
    Keeps ledgerOf (JournalStore.modify f : Program (JournalStore H W E I × F) _ _) := .update fun s => h s.1

variable [FileSystem F H] [Primitives] [EntropySource E] [EntropySource I]

theorem placeGroup_ledger (group encoded : List UInt8) (sequence projectedEnd : Nat) : Keeps ledgerOf
    (JournalStore.placeGroup group sequence projectedEnd encoded : Program (JournalStore H W E I × F) _ _) := by
  unfold JournalStore.placeGroup
  split
  · refine .bind (modify_ledger fun _ => rfl) fun _ => .bind ?_ fun _ => .bind .read fun _ => sealed_ledger _ _
    refine .bind (.zoom fun _ _ => rfl) fun _ => .bind .read fun _ => .bind (.ensure _ _) fun _ => ?_
    refine .bind (sealed_ledger _ _) fun _ => .bind (.lift _ _) fun _ => .bind (.onSnd _) fun _ => ?_
    exact .bind (onFiles_ledger _) fun _ => modify_ledger fun _ => rfl
  · exact .pure _

theorem appendGroupInternal_ledger (input : CommitInput) (digest : Octets 32) : Keeps ledgerOf
    (JournalStore.appendGroupInternal input digest : Program (JournalStore H W E I × F) _ _) := by
  refine .bind .read fun _ => .bind (.ensure _ _) fun _ => .bind (.ensure _ _) fun _ => .bind (.lift _ _) fun _ => ?_
  refine .bind (.lift _ _) fun _ => .bind (.lift _ _) fun _ => .bind (.ensure _ _) fun _ => ?_
  refine .bind (sealed_ledger _ _) fun _ => .bind (.lift _ _) fun _ => .bind (.lift _ _) fun _ => ?_
  refine .bind (placeGroup_ledger _ _ _ _) fun _ => ?_
  refine .bind .read fun _ => .bind (modify_ledger fun _ => rfl) fun _ => .bind (onFiles_ledger _) fun _ => ?_
  refine .bind (onFiles_ledger _) fun _ => .bind (sealed_ledger _ _) fun _ => .bind (.lift _ _) fun _ => ?_
  refine .bind (onFiles_ledger _) fun _ => .bind (onFiles_ledger _) fun _ => ?_
  exact .bind (modify_ledger fun _ => rfl) fun _ => .pure _

omit [EntropySource I] in
theorem publishBlobInventory_ledger (inventory : BlobInventory) (committed : Bool) : Keeps ledgerOf
    (JournalStore.publishBlobInventory inventory committed : Program (JournalStore H W E I × F) _ _) := by
  refine .bind .read fun _ => .bind (.forM (fun _ => .onSnd _) _) fun _ => .bind (.lift _ _) fun _ => ?_
  have written : ∀ (file : H.File) (encoded : List UInt8), Keeps ledgerOf
      (JournalStore.writeInventory file encoded : Program (JournalStore H W E I × F) _ _) := fun _ _ =>
    .bind (onFiles_ledger _) fun _ => .bind (onFiles_ledger _) fun _ => onFiles_ledger _
  refine .bind (.attempt (.onSnd _)) fun opened => ?_
  cases opened with
  | error kind =>
    refine .bind (.ensure _ _) fun _ => .bind (sealed_ledger _ _) fun _ => ?_
    exact .bind (onFiles_ledger _) fun _ => .bind (written _ _) fun _ => onFiles_ledger _
  | ok file =>
    refine .bind (.attempt (.onSnd _)) fun loaded => ?_
    cases loaded with
    | ok _ => exact .bind (onFiles_ledger _) fun _ => onFiles_ledger _
    | error _ =>
      refine .bind (.ensure _ _) fun _ => .bind (onFiles_ledger _) fun _ => ?_
      exact .bind (sealed_ledger _ _) fun _ => .bind (written _ _) fun _ => onFiles_ledger _

theorem append_limits (input : CommitInput) (inventory : Option BlobInventory) : Keeps limitsOf
    (JournalStore.append input inventory : Program (JournalStore H W E I × F) _ _) := by
  have appended (digest : Octets 32) : Keeps limitsOf
      (JournalStore.appendGroupInternal input digest : Program (JournalStore H W E I × F) _ _) :=
    (appendGroupInternal_ledger _ _).map Prod.fst
  cases inventory with
  | none => exact appended _
  | some inventory =>
    refine .bind .read fun _ => .bind (.ensure _ _) fun _ => ?_
    split
    · exact appended _
    · refine .bind (.ensure _ _) fun _ => .bind (.lift _ _) fun _ => .bind (.lift _ _) fun _ => ?_
      refine .bind (.lift _ _) fun _ => .bind ((publishBlobInventory_ledger _ _).map Prod.fst) fun _ => ?_
      refine .bind (appended _) fun _ => .bind (.forM (fun reference => ?_) _) fun _ => ?_
      · refine .bind .read fun s => ?_
        dsimp only
        split
        · exact .bind (.update fun _ => rfl) fun _ => .fail _
        · exact .update fun _ => rfl
      · exact .bind (.update fun _ => rfl) fun _ => .pure _

theorem appendGroupInternal_healthy (input : CommitInput) (digest : Octets 32) (s : JournalStore H W E I × F) :
    wp (JournalStore.appendGroupInternal input digest) (fun _ s' => s'.1.poisoned = false) (fun _ _ => True) s := by
  unfold JournalStore.appendGroupInternal
  refine wp_last fun _ _ => wp_last fun _ _ => wp_last fun _ _ => wp_last fun _ _ => wp_last fun _ _ => ?_
  rw [wp_bind, wp_lift]
  refine ⟨fun _ _ => wp_last fun _ _ => wp_last fun _ _ => wp_last fun _ _ => ?_, fun _ _ => trivial⟩
  rw [wp_bind, wp_lift]
  refine ⟨fun _ _ => wp_last fun _ _ => ?_, fun _ _ => trivial⟩
  unfold JournalStore.certifyGroup
  refine wp_last fun _ _ => wp_last fun _ _ => wp_last fun _ _ => wp_last fun _ _ => wp_last fun _ _ => ?_
  exact wp_last fun _ _ => wp_last fun _ _ => wp_last fun _ _ => rfl

end Limits

/-! ### Closing and opening -/

section Closing

variable {F W E I : Type} {H : Handles} [FileSystem F H] [Primitives] {quiet : Prop} (M : FileModel F Kept quiet)
  {fs : F} {v v' : View EntryName H} {c : Charter W} {used : BlobInventory → Prop} {log : List Entry}
  {store : JournalStore H W E I} {Late : Entry → Prop}

/-- A directory that no store owns: these entries, and perhaps the one that was under way. -/
def Closed (c : Charter W) (used : BlobInventory → Prop) (v : View EntryName H) (log : List Entry)
    (Late : Entry → Prop) : Prop :=
  v.owner = none ∧ ∃ visible durable, DiskInv c used v visible durable ∧
    (visible = log ∨ ∃ e, Late e ∧ visible = log ++ [e]) ∧ (durable = log ∨ durable = visible)

theorem Journaled.drop (journaled : Journaled c used store v log Late) (shows : M.Shows fs v) :
    ∃ v', M.Shows (release store.ownership fs) v' ∧ Closed c used v' log Late := by
  obtain ⟨owns, -, visible, durable, inv, seen, kept, -⟩ := journaled.disk
  exact ⟨_, M.release shows owns.owner, rfl, visible, durable, inv.owner none, seen, kept⟩

theorem DiskInv.closed {visible durable : List Entry} (inv : DiskInv c used v visible durable)
    (seen : visible = log ∨ ∃ e, Late e ∧ visible = log ++ [e]) (kept : durable = log ∨ durable = visible)
    (crashed : v.Crashed v') : Closed c used v' log Late := by
  refine ⟨crashed.owner, durable, durable, inv.crash crashed, ?_, .inr rfl⟩
  rcases kept with rfl | rfl
  · exact .inl rfl
  · exact seen

theorem Closed.openInternal [Primitives.Lawful] [DurableKeyEnvelope W] {V : Type}
    {visitor : V → RecoveredGroup → Except StorageError V} {init : V} {vaultEntropy : E} {identityEntropy : I}
    {unwrap : DatabaseId → W → Except CryptoError (Octets 32)} {limits : Option CertificateAnchorReadLimits}
    (closed : Closed c used v log Late) (unlocks : Unlocks c unwrap) (noCollision : Collisionless c.toOrigin used)
    (shows : M.Shows fs v) :
    wp (JournalStore.openInternal c.finalName c.database vaultEntropy identityEntropy unwrap limits visitor init)
      (fun (result : JournalStore H W E I × RecoveryReport × V) fs' => ∃ v' log',
        (log' = log ∨ ∃ e, Late e ∧ log' = log ++ [e]) ∧ M.Shows fs' v' ∧ LiveInv c used result.1 v' log' ∧
        result.1.certificateReadLimits = limits ∧ (log'.map Entry.recovered).foldlM visitor init = .ok result.2.2)
      (fun err fs' => ∃ v', M.Shows fs' v' ∧ Closed c used v' log Late ∧ (quiet → limits = none →
        ∃ log', (log' = log ∨ ∃ e, Late e ∧ log' = log ++ [e]) ∧
          (log'.map Entry.recovered).foldlM visitor init = .error err)) fs := by
  obtain ⟨free, visible, durable, inv, seen, kept⟩ := closed
  refine wp_mono (openInternal_spec M unlocks noCollision inv free shows) ?_ ?_
  · intro result fs' ⟨v', shows, live, unlimited, visited⟩
    exact ⟨v', visible, seen, shows, live, unlimited, visited⟩
  · intro err fs' ⟨⟨v', durable', shows, inv', which, owner⟩, refused⟩
    refine ⟨v', shows, ⟨owner.trans free, visible, durable', inv', seen, ?_⟩, fun q unlimited =>
      ⟨visible, seen, refused q unlimited⟩⟩
    rcases which with rfl | rfl
    · exact kept
    · exact .inr rfl

/-- Uploading adds chunks, whole and on the disk before they get their names, and nothing else. -/
structure Uploaded (v v' : View EntryName H) : Prop where
  grows : v.Grows (fun n => IsChunk n ∧ v.cells n = none) v'
  whole : ∀ n cell, IsChunk n → v'.cells n = some cell → cell.synced = cell.bytes

theorem Uploaded.disk {visible durable : List Entry} (h : Uploaded v v') (inv : DiskInv c used v visible durable) :
    DiskInv c used v' visible durable := by
  refine inv.grow h.grows (fun inside => nomatch inside.1) (inv.stored.grow h.grows ?_ ?_ ?_)
  · intro n new
    exact ⟨.chunk new.1, .chunk new.1⟩
  · intro n new chunk
    exact ⟨new.2, fun cell => h.whole n cell chunk⟩
  · intro n cell new isInventory
    exact absurd new.1 ((kinds_disjoint n).2 isInventory)

theorem Uploaded.journaled {store' : JournalStore H W E I} (h : Uploaded v v') (same : store.Same store')
    (journaled : Journaled c used store v log Late) : Journaled c used store' v' log Late := by
  rcases journaled with live | stuck
  · refine .inl ((live.grow h.grows (fun new => nomatch new.1) (fun id new => ?_) (h.disk live.disk)).same same)
    exact ((kinds_disjoint _).1 (isSegment_segmentName id)).2 new.1
  · obtain ⟨visible, durable, inv, seen, kept⟩ := stuck.disk
    exact .inr (Stuck.same { stuck with
      owns := stuck.owns.grow h.grows, disk := ⟨visible, durable, h.disk inv, seen, kept⟩ } same)

end Closing

/-! ### Sessions -/

def underFaults {σ ε α : Type} (plan : Option FaultPlan) (plain : Program (σ × MemoryFileSystem) ε α)
    (faulty : Program (σ × FaultFileSystem MemoryFileSystem) ε α) : Program (σ × MemoryFileSystem) ε α := fun s =>
  match plan with
  | none => plain s
  | some plan =>
    let (outcome, local', fs) := faulty (s.1, FaultFileSystem.new s.2 plan)
    (outcome, local', fs.inner)

theorem underFaults_spec {σ ε α : Type} {plan : Option FaultPlan} {plain : Program (σ × MemoryFileSystem) ε α}
    {faulty : Program (σ × FaultFileSystem MemoryFileSystem) ε α} {Q : α → σ × MemoryFileSystem → Prop}
    {R : ε → σ × MemoryFileSystem → Prop} {s : σ × MemoryFileSystem} (quietly : plan = none → wp plain Q R s)
    (noisily : ∀ plan', plan = some plan' → wp faulty (fun a t => Q a (t.1, t.2.inner)) (fun e t => R e (t.1, t.2.inner))
      (s.1, FaultFileSystem.new s.2 plan')) : wp (underFaults plan plain faulty) Q R s := by
  unfold wp run underFaults
  cases plan with
  | none => exact quietly rfl
  | some plan =>
    have := noisily plan rfl
    unfold wp run at this
    dsimp only
    generalize faulty (s.1, FaultFileSystem.new s.2 plan) = ran at this ⊢
    obtain ⟨_ | _, _⟩ := ran <;> exact this

structure Call where
  input : CommitInput
  inventory : Option BlobInventory

def Call.recovered [Primitives] (call : Call) (durable : DurableCommit) : RecoveredGroup :=
  ⟨durable.revision, durable.certificateDigest, call.input.encodedGroup, digestOf (recordedInventory call.inventory),
    recordedInventory call.inventory, call.input.logicalEventDigest⟩

/-- A journal, its files, and what its user knows: the groups that were acknowledged, and the call that failed
after it had begun to write. -/
structure Session (W E I : Type) where
  files : MemoryFileSystem
  store : Option (JournalStore memoryHandles W E I)
  acknowledged : List RecoveredGroup
  inFlight : Option Call

structure Opening (W : Type) where
  finalName : EntryName
  database : DatabaseId
  unwrap : DatabaseId → W → Except CryptoError (Octets 32)

structure Opening.Fits {W : Type} [DurableKeyEnvelope W] (o : Opening W) (c : Charter W) : Prop where
  finalName : o.finalName = c.finalName
  database : o.database = c.database
  unlocks : Unlocks c o.unwrap

def collect (groups : List RecoveredGroup) (group : RecoveredGroup) : Except StorageError (List RecoveredGroup) :=
  .ok (groups ++ [group])

theorem foldlM_collect (groups seen : List RecoveredGroup) : groups.foldlM collect seen = .ok (seen ++ groups) := by
  induction groups generalizing seen with
  | nil => rw [append_nil]; rfl
  | cons group rest ih =>
    rw [foldlM_cons, collect, ok_bind, ih, append_assoc]
    rfl

namespace Session

variable {W E I : Type} [Primitives]

def append [EntropySource E] [EntropySource I] (s : Session W E I) (call : Call) (plan : Option FaultPlan) : Session W E I :=
  match s.store with
  | none => s
  | some store =>
    match underFaults plan (JournalStore.append call.input call.inventory)
      (JournalStore.append call.input call.inventory) (store, s.files) with
    | (.ok durable, store', files) =>
      { s with files := files, store := some store', acknowledged := s.acknowledged ++ [call.recovered durable] }
    | (.error _, store', files) =>
      { s with
        files := files
        store := some store'
        inFlight := if store.poisoned = false ∧ store'.poisoned = true then some call else s.inFlight }

def drop (s : Session W E I) : Session W E I :=
  match s.store with
  | none => s
  | some store => { s with files := release store.ownership s.files, store := none }

def crash (s : Session W E I) : Session W E I :=
  match MemoryFileSystem.restart s.files with
  | (.ok _, files) => { s with files := files, store := none }
  | (.error _, _) => s

def reopen [DurableKeyEnvelope W] (s : Session W E I) (o : Opening W) (plan : Option FaultPlan) (vaultEntropy : E) (identityEntropy : I) :
    Session W E I :=
  match s.store with
  | some _ => s
  | none =>
    match underFaults plan
      (onSnd (JournalStore.openInternal o.finalName o.database vaultEntropy identityEntropy o.unwrap none collect []))
      (onSnd (JournalStore.openInternal o.finalName o.database vaultEntropy identityEntropy o.unwrap none collect []))
      ((), s.files) with
    | (.ok (store, _, groups), _, files) => ⟨files, some store, groups, none⟩
    | (.error _, _, files) => { s with files := files }

abbrev model : FileModel MemoryFileSystem Kept True := MemoryFileSystem.model (.inl rfl)

/-- One step of a session. A store that has to be opened again is used without further faults. -/
inductive Step [DurableKeyEnvelope W] [EntropySource E] [EntropySource I] (used : BlobInventory → Prop) (o : Opening W) : Session W E I → Session W E I → Prop
  | append (s : Session W E I) (call : Call) (plan : Option FaultPlan) (inUse : ∀ i, call.inventory = some i → used i)
      (once : plan = none ∨ ∀ store, s.store = some store → store.poisoned = false) : Step used o s (s.append call plan)
  | upload (s : Session W E I) (store store' : JournalStore memoryHandles W E I) (files : MemoryFileSystem)
      (owner : s.store = some store) (same : store.Same store')
      (uploaded : ∀ v, model.Shows s.files v → ∃ v', model.Shows files v' ∧ Uploaded v v') :
      Step used o s { s with files := files, store := some store' }
  | drop (s : Session W E I) : Step used o s s.drop
  | crash (s : Session W E I) : Step used o s s.crash
  | reopen (s : Session W E I) (plan : Option FaultPlan) (vaultEntropy : E) (identityEntropy : I) :
      Step used o s (s.reopen o plan vaultEntropy identityEntropy)

def Late (inFlight : Option Call) (e : Entry) : Prop :=
  ∃ call, inFlight = some call ∧ e.Records call.input (recordedInventory call.inventory)

/-- The files hold what was acknowledged. -/
structure Inv (c : Charter W) (used : BlobInventory → Prop) (s : Session W E I) (v : View EntryName memoryHandles)
    (log : List Entry) : Prop where
  shows : model.Shows s.files v
  groups : s.acknowledged = log.map Entry.recovered
  live : ∀ store, s.store = some store →
    Journaled c used store v log (Late s.inFlight) ∧ store.certificateReadLimits = none
  closed : s.store = none → Closed c used v log (Late s.inFlight)

variable {c : Charter W} {used : BlobInventory → Prop} {s : Session W E I} {v : View EntryName memoryHandles}
  {log : List Entry} {o : Opening W}

theorem Inv.drop (inv : Inv c used s v log) : ∃ v' log', Inv c used s.drop v' log' := by
  unfold Session.drop
  split
  · exact ⟨v, log, inv⟩
  · rename_i store found
    obtain ⟨v', shows, closed⟩ := (inv.live store found).1.drop model inv.shows
    exact ⟨v', log, shows, inv.groups, nofun, fun _ => closed⟩

theorem Inv.disk (inv : Inv c used s v log) : ∃ visible durable, DiskInv c used v visible durable ∧
    (visible = log ∨ ∃ e, Late s.inFlight e ∧ visible = log ++ [e]) ∧ (durable = log ∨ durable = visible) := by
  cases found : s.store with
  | none => exact (inv.closed found).2
  | some store =>
    obtain ⟨-, -, visible, durable, disk, seen, kept, -⟩ := (inv.live store found).1.disk
    exact ⟨visible, durable, disk, seen, kept⟩

theorem Inv.crash (inv : Inv c used s v log) : ∃ v' log', Inv c used s.crash v' log' := by
  obtain ⟨visible, durable, disk, seen, kept⟩ := inv.disk
  have restarted := MemoryFileSystem.restart_shows inv.shows disk.stored.mounted
  unfold Session.crash
  split
  · rename_i files ran
    obtain ⟨v', shows, crashed⟩ := wp_ok restarted ran
    exact ⟨v', log, shows, inv.groups, nofun, fun _ => disk.closed seen kept crashed⟩
  · exact ⟨v, log, inv⟩

section Steps

variable [Primitives.Lawful] [EntropySource E] [EntropySource I]
  {files : MemoryFileSystem} {plan : Option FaultPlan} {Late : Entry → Prop}

theorem append_under {store : JournalStore memoryHandles W E I} {call : Call}
    (journaled : Journaled c used store v log Late)
    (noCollision : Collisionless c.toOrigin used) (inUse : ∀ i, call.inventory = some i → used i)
    (safe : plan = none ∨ ∀ e, ¬ Late e) (shows : model.Shows files v) :
    wp (underFaults plan (JournalStore.append call.input call.inventory) (JournalStore.append call.input call.inventory))
      (fun durable t => (store.poisoned = false ∧ ∃ v' e, model.Shows t.2 v' ∧
        e.Records call.input (recordedInventory call.inventory) ∧
        durable = ⟨e.revision, sha256 e.encodedCertificate⟩ ∧ LiveInv c used t.1 v' (log ++ [e])) ∧
        t.1.certificateReadLimits = store.certificateReadLimits)
      (fun err t => AppendFailed model c used store log Late call.input (recordedInventory call.inventory) err t ∧
        t.1.certificateReadLimits = store.certificateReadLimits) (store, files) := by
  refine underFaults_spec (fun _ => ?_) fun plan' given => ?_
  · exact wp_and (append_spec model journaled noCollision inUse (.inl trivial) shows) ((append_limits _ _).wp _)
  · have harmless := safe.resolve_left (by rw [given]; exact nofun)
    exact wp_and (append_spec (FaultFileSystem.model model) journaled noCollision inUse (.inr harmless) shows)
      ((append_limits _ _).wp _)

theorem Inv.append {call : Call} (inv : Inv c used s v log)
    (noCollision : Collisionless c.toOrigin used) (inUse : ∀ i, call.inventory = some i → used i)
    (once : plan = none ∨ ∀ store, s.store = some store → store.poisoned = false) :
    ∃ v' log', Inv c used (s.append call plan) v' log' := by
  unfold Session.append
  cases found : s.store with
  | none => exact ⟨v, log, inv⟩
  | some store =>
    obtain ⟨journaled, unlimited⟩ := inv.live store found
    -- a healthy store has nothing under way, whatever the session has noted
    have start : ∃ Before, Journaled c used store v log Before ∧ (plan = none ∨ ∀ e, ¬ Before e) ∧
        (∀ e, Before e → Late s.inFlight e) ∧ (store.poisoned = false → ∀ e, ¬ Before e) := by
      rcases journaled with live | stuck
      · exact ⟨fun _ => False, .inl live, .inr fun _ => id, by simp, fun _ _ => id⟩
      · refine ⟨_, .inr stuck, .inl (once.resolve_right fun healthy => ?_), fun _ => id, fun healthy => ?_⟩
        · exact absurd (healthy store found) (by simp [stuck.poisoned])
        · exact absurd healthy (by simp [stuck.poisoned])
    obtain ⟨Before, journaled, safe, noted, unnoted⟩ := start
    have ran := append_under journaled noCollision inUse safe inv.shows
    dsimp only
    split
    · rename_i durable store' files' result
      obtain ⟨⟨-, v', e, shows, records, returned, live⟩, kept⟩ := wp_ok ran result
      refine ⟨v', log ++ [e], shows, ?_, ?_, by simp⟩
      · rw [map_append, ← inv.groups, returned]
        simp only [map_cons, map_nil, Call.recovered, Entry.recovered, Entry.inventoryDigest, records.inventory,
          records.group, records.logicalEventDigest]
      · rintro _ ⟨⟩
        exact ⟨.inl live, kept.trans unlimited⟩
    · rename_i err store' files' result
      obtain ⟨⟨v', shows, journaled'⟩, kept⟩ := wp_error ran result
      refine ⟨v', log, shows, inv.groups, ?_, by simp⟩
      rintro _ ⟨⟩
      refine ⟨?_, kept.trans unlimited⟩
      rcases journaled' with live | stuck
      · exact .inl live
      · refine .inr (stuck.mono fun e late => ?_)
        show Late (if _ then _ else _) e
        rcases late with before | ⟨healthy, records, -⟩
        · rw [if_neg fun both => unnoted both.1 e before]
          exact noted e before
        · rw [if_pos ⟨healthy, stuck.poisoned⟩]
          exact ⟨call, rfl, records⟩

variable [DurableKeyEnvelope W]

section

omit [EntropySource E] [EntropySource I]

theorem openInternal_collects {F : Type} {H : Handles} [FileSystem F H] {quiet : Prop} (M : FileModel F Kept quiet) {fs : F}
    {v : View EntryName H} (vaultEntropy : E) (identityEntropy : I) (closed : Closed c used v log Late) (fits : o.Fits c)
    (noCollision : Collisionless c.toOrigin used) (shows : M.Shows fs v) :
    wp (JournalStore.openInternal o.finalName o.database vaultEntropy identityEntropy o.unwrap none collect [])
      (fun (result : JournalStore H W E I × RecoveryReport × List RecoveredGroup) fs' => ∃ v' log',
        (log' = log ∨ ∃ e, Late e ∧ log' = log ++ [e]) ∧ M.Shows fs' v' ∧ LiveInv c used result.1 v' log' ∧
        result.1.certificateReadLimits = none ∧ result.2.2 = log'.map Entry.recovered)
      (fun _ fs' => ¬ quiet ∧ ∃ v', M.Shows fs' v' ∧ Closed c used v' log Late) fs := by
  rw [fits.finalName, fits.database]
  refine wp_mono (closed.openInternal M fits.unlocks noCollision shows) ?_ ?_
  · intro result fs' ⟨v', log', which, shows, live, unlimited, visited⟩
    rw [foldlM_collect] at visited
    exact ⟨v', log', which, shows, live, unlimited, (Except.ok.inj visited).symm⟩
  · intro err fs' ⟨v', shows, closed, refused⟩
    refine ⟨fun q => ?_, v', shows, closed⟩
    obtain ⟨log', -, visited⟩ := refused q rfl
    rw [foldlM_collect] at visited
    cases visited

theorem openInternal_under (plan : Option FaultPlan) (vaultEntropy : E)
    (identityEntropy : I) (closed : Closed c used v log Late) (fits : o.Fits c)
    (noCollision : Collisionless c.toOrigin used) (shows : model.Shows files v) : wp (underFaults plan
        (onSnd (JournalStore.openInternal o.finalName o.database vaultEntropy identityEntropy o.unwrap none collect []))
        (onSnd (JournalStore.openInternal o.finalName o.database vaultEntropy identityEntropy o.unwrap none collect [])))
      (fun (result : JournalStore memoryHandles W E I × RecoveryReport × List RecoveredGroup) t => ∃ v' log',
        (log' = log ∨ ∃ e, Late e ∧ log' = log ++ [e]) ∧ model.Shows t.2 v' ∧ LiveInv c used result.1 v' log' ∧
        result.1.certificateReadLimits = none ∧ result.2.2 = log'.map Entry.recovered)
      (fun _ t => ∃ v', model.Shows t.2 v' ∧ Closed c used v' log Late) ((), files) := by
  refine underFaults_spec (fun _ => ?_) fun plan' given => ?_
  · rw [wp_onSnd]
    exact wp_mono (openInternal_collects model vaultEntropy identityEntropy closed fits noCollision shows)
      (fun _ _ h => h) fun _ _ h => h.2
  · rw [wp_onSnd]
    exact wp_mono (openInternal_collects (FaultFileSystem.model model) vaultEntropy identityEntropy closed fits noCollision
      shows) (fun _ _ h => h) fun _ _ h => h.2

theorem Inv.reopen {vaultEntropy : E} {identityEntropy : I} (inv : Inv c used s v log)
    (fits : o.Fits c) (noCollision : Collisionless c.toOrigin used) :
    ∃ v' log', Inv c used (s.reopen o plan vaultEntropy identityEntropy) v' log' := by
  unfold Session.reopen
  cases found : s.store with
  | some store => exact ⟨v, log, inv⟩
  | none =>
    have ran := openInternal_under plan vaultEntropy identityEntropy (inv.closed found) fits noCollision inv.shows
    dsimp only
    split
    · rename_i store report groups files' result
      obtain ⟨v', log', -, shows, live, unlimited, visited⟩ := wp_ok ran result
      refine ⟨v', log', shows, visited, ?_, nofun⟩
      rintro _ ⟨⟩
      exact ⟨.inl live, unlimited⟩
    · rename_i err files' result
      obtain ⟨v', shows, closed⟩ := wp_error ran result
      exact ⟨v', log, shows, inv.groups, nofun, fun _ => closed⟩

end

theorem Step.inv {s' : Session W E I} (step : Step used o s s') (fits : o.Fits c)
    (noCollision : Collisionless c.toOrigin used) (inv : ∃ v log, Inv c used s v log) : ∃ v log, Inv c used s' v log := by
  obtain ⟨v, log, inv⟩ := inv
  cases step with
  | append call plan inUse once => exact inv.append noCollision inUse once
  | upload store store' files owner same uploaded =>
    obtain ⟨v', shows, up⟩ := uploaded v inv.shows
    obtain ⟨journaled, unlimited⟩ := inv.live store owner
    refine ⟨v', log, shows, inv.groups, ?_, nofun⟩
    rintro _ ⟨⟩
    refine ⟨up.journaled same journaled, ?_⟩
    obtain ⟨_, _, -, rfl⟩ := same
    exact unlimited
  | drop => exact inv.drop
  | crash => exact inv.crash
  | reopen plan vaultEntropy identityEntropy => exact inv.reopen fits noCollision

theorem Reaches.inv {s' : Session W E I} (reached : Relation.ReflTransGen (Step used o) s s') (fits : o.Fits c)
    (noCollision : Collisionless c.toOrigin used) (inv : ∃ v log, Inv c used s v log) : ∃ v log, Inv c used s' v log := by
  induction reached with
  | refl => exact inv
  | tail _ step ih => exact step.inv fits noCollision ih

/-- No step takes back what was acknowledged; opening may add the group that was in flight. -/
theorem Step.extends {s' : Session W E I} (step : Step used o s s') (fits : o.Fits c)
    (noCollision : Collisionless c.toOrigin used) (inv : Inv c used s v log) : s.acknowledged <+: s'.acknowledged := by
  cases step with
  | append call plan =>
    unfold Session.append
    split
    · exact prefix_rfl
    · split
      · exact prefix_append _ _
      · exact prefix_rfl
  | upload => exact prefix_rfl
  | drop =>
    unfold Session.drop
    split <;> exact prefix_rfl
  | crash =>
    unfold Session.crash
    split <;> exact prefix_rfl
  | reopen plan vaultEntropy identityEntropy =>
    unfold Session.reopen
    split
    · exact prefix_rfl
    · rename_i ended
      have ran := openInternal_under plan vaultEntropy identityEntropy (inv.closed ended) fits noCollision inv.shows
      split
      · rename_i opened report groups _ files' result
        obtain ⟨_, log', which, -, -, -, shown⟩ := wp_ok ran result
        rw [inv.groups, show groups = log'.map Entry.recovered from shown]
        obtain rfl | ⟨e, -, rfl⟩ := which
        · exact prefix_rfl
        · rw [map_append]
          exact prefix_append _ _
      · exact prefix_rfl

/-- What a journal relies on beyond its own code: the key envelope and the key adapter give the key back, and
neither the hash nor the derived names collide on the inventories in use. -/
structure Environment (options : CreationOptions) (vault : KeyVault W E)
    (unwrap : DatabaseId → W → Except CryptoError (Octets 32)) (used : BlobInventory → Prop) : Prop where
  decodes : ∀ bytes, DurableKeyEnvelope.encodeDurable vault.wrapped = .ok bytes →
    DurableKeyEnvelope.decodeDurable bytes = .ok vault.wrapped
  unwraps : ∀ key, vault.key = some key → unwrap options.database vault.wrapped = .ok key
  noCollision : ∀ o : Origin, o.database = options.database → vault.key = some o.key → Collisionless o used

/-- What a store knows of its journal. -/
structure SameKnowledge (opened live : JournalStore memoryHandles W E I) : Prop where
  frontier : opened.frontier = live.frontier
  previousCertificateDigest : opened.previousCertificateDigest = live.previousCertificateDigest
  currentSegmentId : opened.currentSegmentId = live.currentSegmentId
  currentSegmentOffset : opened.currentSegmentOffset = live.currentSegmentOffset
  certificateAnchors : opened.certificateAnchors = live.certificateAnchors
  committedBlobInventories : opened.committedBlobInventories = live.committedBlobInventories
  committedBlobs : opened.committedBlobs = live.committedBlobs
  committedBlobBytes : opened.committedBlobBytes = live.committedBlobBytes
  committedBlobReferenceBindings : opened.committedBlobReferenceBindings = live.committedBlobReferenceBindings

omit [Primitives] [Primitives.Lawful] [EntropySource E] [EntropySource I] [DurableKeyEnvelope W] in
theorem SameKnowledge.of_tip {tip : Tip} {opened live : JournalStore memoryHandles W E I} (a : AtTip opened tip)
    (b : AtTip live tip) (limits : opened.certificateReadLimits = live.certificateReadLimits) :
    SameKnowledge opened live where
  frontier := a.frontier.trans b.frontier.symm
  previousCertificateDigest := a.digest.trans b.digest.symm
  currentSegmentId := a.segment.trans b.segment.symm
  currentSegmentOffset := a.offset.trans b.offset.symm
  certificateAnchors := by rw [a.anchors, b.anchors, limits]
  committedBlobInventories := a.inventories.trans b.inventories.symm
  committedBlobs := a.blobs.trans b.blobs.symm
  committedBlobBytes := a.blobBytes.trans b.blobBytes.symm
  committedBlobReferenceBindings := a.bindings.trans b.bindings.symm

end Steps

end Session

/-! ### A small session -/

section Sample

/-- Primitives that hide nothing but obey the laws. -/
@[reducible] def plainPrimitives : Primitives where
  sha256 bytes := if bytes = [] then emptyBlobInventoryDigest else Octets.zero 32
  aeadSeal _ _ _ plaintext := plaintext ++ List.replicate tagBytes 0
  aeadOpen _ _ _ bytes := some (bytes.take (bytes.length - tagBytes))
  hkdf _ _ := Octets.zero 32

attribute [local instance] plainPrimitives

theorem plainPrimitives_lawful : Primitives.Lawful where
  open_seal _ _ _ plaintext := by
    show some ((plaintext ++ List.replicate tagBytes 0).take ((plaintext ++ List.replicate tagBytes 0).length - tagBytes)) =
      some plaintext
    simp
  length_seal _ _ _ plaintext := by
    show (plaintext ++ List.replicate tagBytes 0).length = plaintext.length + tagBytes
    simp

instance countingEntropy : EntropySource Nat where
  fill n counter := (some ⟨List.replicate n (UInt8.ofNat (counter + 1)), by simp⟩, counter + 1)

instance unitEnvelope : DurableKeyEnvelope Unit where
  encodeDurable _ := .ok [1]
  decodeDurable _ := .ok ()

def sampleOptions : CreationOptions := ⟨default, ⟨[100], by decide, by decide, by decide, plain_of_all (by decide)⟩⟩

def sampleVault : KeyVault Unit Nat := ⟨default, (), some (Octets.zero 32), 0, [], 100⟩

def sampleUnwrap (_ : DatabaseId) (_ : Unit) : Except CryptoError (Octets 32) := .ok (Octets.zero 32)

def sampleCall : Call := ⟨⟨[1, 2, 3], Octets.zero 32⟩, none⟩

def samplePlan : FaultPlan := ⟨[⟨.syncData, 2, .crashBefore⟩]⟩

def sampleCreation : Except StorageError (JournalStore memoryHandles Unit Nat Nat) × MemoryFileSystem :=
  (JournalStore.create sampleOptions sampleVault 7).run (MemoryFileSystem.new 100000)

def sampleLive (store : JournalStore memoryHandles Unit Nat Nat) (files : MemoryFileSystem) : Session Unit Nat Nat :=
  (Session.mk files (some store) [] none).append sampleCall none

def sampleEnd (store : JournalStore memoryHandles Unit Nat Nat) (files : MemoryFileSystem) : Session Unit Nat Nat :=
  ((sampleLive store files).append sampleCall (some samplePlan)).drop

theorem sampleCreation_ok : ∃ store files, sampleCreation = (.ok store, files) ∧
    (sampleLive store files).acknowledged.length = 1 ∧ (sampleLive store files).store.any (!·.poisoned) = true ∧
    (sampleEnd store files).store.isNone = true ∧ (sampleEnd store files).inFlight.isSome = true := by
  have evaluated : sampleCreation.1.toOption.any (fun store =>
      (sampleLive store sampleCreation.2).acknowledged.length == 1 &&
      (sampleLive store sampleCreation.2).store.any (!·.poisoned) &&
      (sampleEnd store sampleCreation.2).store.isNone && (sampleEnd store sampleCreation.2).inFlight.isSome) = true := by
    decide +kernel
  rcases created : sampleCreation with ⟨_ | store, files⟩
  · rw [created] at evaluated
    cases evaluated
  · rw [created] at evaluated
    simp only [Except.toOption, Option.any_some, Bool.and_eq_true, beq_iff_eq] at evaluated
    exact ⟨store, files, rfl, evaluated.1.1.1, evaluated.1.1.2, evaluated.1.2, evaluated.2⟩

theorem sampleEnvironment : Session.Environment sampleOptions sampleVault sampleUnwrap (fun _ => False) where
  decodes _ _ := rfl
  unwraps key found := by
    cases found
    rfl
  noCollision o _ _ := ⟨rfl, nofun, nofun, nofun⟩

end Sample

namespace Session

section Recovery

variable {W E I : Type} [Primitives] [Primitives.Lawful] [DurableKeyEnvelope W] [EntropySource E] [EntropySource I]
  {used : BlobInventory → Prop} {s : Session W E I} {options : CreationOptions} {vault : KeyVault W E} {identityEntropy : I}
  {unwrap : DatabaseId → W → Except CryptoError (Octets 32)} {files files' : MemoryFileSystem}
  {store : JournalStore memoryHandles W E I}

/-- Every session that starts with a new journal keeps what was acknowledged in its files. -/
theorem created_inv (environment : Environment options vault unwrap used) (sound : MemoryFileSystem.Sound files)
    (created : (JournalStore.create options vault identityEntropy).run files = (.ok store, files'))
    (reached : Relation.ReflTransGen (Step used ⟨options.finalName, options.database, unwrap⟩)
      ⟨files', some store, [], none⟩ s) :
    ∃ c, Opening.Fits ⟨options.finalName, options.database, unwrap⟩ c ∧ Collisionless c.toOrigin used ∧
      ∃ v log, Inv c used s v log := by
  obtain ⟨c, v, shows, live, founds, unlimited⟩ := wp_ok (create_spec model used sound) created
  have noCollision := environment.noCollision c.toOrigin founds.database founds.key
  have fits : Opening.Fits ⟨options.finalName, options.database, unwrap⟩ c := by
    refine ⟨founds.finalName.symm, founds.database.symm, founds.nonempty, founds.bounded, ?_, ?_⟩
    · rw [founds.wrapped]
      exact environment.decodes _ (founds.wrapped ▸ founds.keyBytes)
    · rw [founds.database, founds.wrapped]
      exact environment.unwraps _ founds.key
  refine ⟨c, fits, noCollision, Reaches.inv reached fits noCollision ⟨v, [], shows, rfl, ?_, nofun⟩⟩
  rintro _ ⟨⟩
  exact ⟨.inl live, unlimited⟩

/-- Whatever was appended, and wherever it was interrupted: opening the journal again succeeds and shows the
acknowledged groups in the order of their revisions, at most followed by the one that was in flight. -/
theorem reopening_recovers_acknowledged (environment : Environment options vault unwrap used)
    (sound : MemoryFileSystem.Sound files)
    (created : (JournalStore.create options vault identityEntropy).run files = (.ok store, files'))
    (reached : Relation.ReflTransGen (Step used ⟨options.finalName, options.database, unwrap⟩)
      ⟨files', some store, [], none⟩ s)
    (ended : s.store = none) (vaultEntropy : E) (entropy : I) :
    ∃ (opened : JournalStore memoryHandles W E I) (report : RecoveryReport) (groups : List RecoveredGroup)
      (files'' : MemoryFileSystem),
      (JournalStore.openInternal options.finalName options.database vaultEntropy entropy unwrap none collect []).run s.files =
        (.ok (opened, report, groups), files'') ∧
      (groups = s.acknowledged ∨ ∃ call durable, s.inFlight = some call ∧
        groups = s.acknowledged ++ [call.recovered durable]) ∧
      groups.map (·.revision.value) = List.range' 1 groups.length := by
  obtain ⟨c, fits, noCollision, v, log, inv⟩ := created_inv environment sound created reached
  obtain ⟨⟨opened, report, groups⟩, files'', ran, v', log', which, -, live, -, visited⟩ := wp_succeeds (wp_mono
    (openInternal_collects model vaultEntropy entropy (inv.closed ended) fits noCollision inv.shows)
    (fun _ _ h => h) fun _ _ h => h.1 trivial)
  refine ⟨opened, report, groups, files'', ran, ?_, ?_⟩
  · rw [show groups = log'.map Entry.recovered from visited, inv.groups]
    rcases which with rfl | ⟨e, ⟨call, found, records⟩, rfl⟩
    · exact .inl rfl
    · refine .inr ⟨call, ⟨e.revision, sha256 e.encodedCertificate⟩, found, ?_⟩
      simp only [map_append, map_cons, map_nil, Call.recovered, Entry.recovered, Entry.inventoryDigest,
        records.inventory, records.group, records.logicalEventDigest]
  · rw [show groups = log'.map Entry.recovered from visited, map_map, length_map]
    exact live.disk.stored.chain.revisions

end Recovery

section

attribute [local instance] plainPrimitives plainPrimitives_lawful

theorem sampleLive_reached (store : JournalStore memoryHandles Unit Nat Nat) (files : MemoryFileSystem) :
    Relation.ReflTransGen (Step (fun _ => False) ⟨sampleOptions.finalName, sampleOptions.database, sampleUnwrap⟩)
      ⟨files, some store, [], none⟩ (sampleLive store files) :=
  .single (.append _ sampleCall none nofun (.inl rfl))

theorem reopening_recovers_acknowledged_sample : ∃ store files, sampleCreation = (.ok store, files) ∧
    (sampleEnd store files).inFlight.isSome = true ∧
    ∃ (opened : JournalStore memoryHandles Unit Nat Nat) (report : RecoveryReport) (groups : List RecoveredGroup)
      (files'' : MemoryFileSystem),
      (JournalStore.openInternal sampleOptions.finalName sampleOptions.database 0 0 sampleUnwrap none collect []).run
        (sampleEnd store files).files = (.ok (opened, report, groups), files'') ∧
      (groups = (sampleEnd store files).acknowledged ∨ ∃ call durable, (sampleEnd store files).inFlight = some call ∧
        groups = (sampleEnd store files).acknowledged ++ [call.recovered durable]) ∧
      groups.map (·.revision.value) = List.range' 1 groups.length := by
  obtain ⟨store, files, created, -, healthy, ended, inFlight⟩ := sampleCreation_ok
  have again : Step (fun _ => False) ⟨sampleOptions.finalName, sampleOptions.database, sampleUnwrap⟩
      (sampleLive store files) ((sampleLive store files).append sampleCall (some samplePlan)) := by
    refine .append _ sampleCall _ nofun (.inr fun live found => ?_)
    rw [found] at healthy
    simpa using healthy
  have reached := ((sampleLive_reached store files).tail again).tail (.drop _)
  exact ⟨store, files, created, inFlight, reopening_recovers_acknowledged sampleEnvironment
    (MemoryFileSystem.new_sound (by decide)) created reached (Option.isNone_iff_eq_none.mp ended) 0 0⟩

end

section Rebuilding

variable {W E I : Type} [Primitives] [Primitives.Lawful] [DurableKeyEnvelope W] [EntropySource E] [EntropySource I]
  {used : BlobInventory → Prop} {s : Session W E I} {options : CreationOptions} {vault : KeyVault W E} {identityEntropy : I}
  {unwrap : DatabaseId → W → Except CryptoError (Octets 32)} {files files' : MemoryFileSystem}
  {store : JournalStore memoryHandles W E I}

/-- A store that may append is rebuilt from its files field by field, after it was dropped and after a crash. -/
theorem reopening_rebuilds_live_store (environment : Environment options vault unwrap used)
    (sound : MemoryFileSystem.Sound files)
    (created : (JournalStore.create options vault identityEntropy).run files = (.ok store, files'))
    (reached : Relation.ReflTransGen (Step used ⟨options.finalName, options.database, unwrap⟩)
      ⟨files', some store, [], none⟩ s)
    {live : JournalStore memoryHandles W E I} (owner : s.store = some live) (healthy : live.poisoned = false)
    {after : MemoryFileSystem} (ended : after = release live.ownership s.files ∨
      MemoryFileSystem.restart.run s.files = (.ok (), after))
    (vaultEntropy : E) (entropy : I) :
    ∃ (opened : JournalStore memoryHandles W E I) (report : RecoveryReport) (files'' : MemoryFileSystem),
      (JournalStore.openInternal options.finalName options.database vaultEntropy entropy unwrap none collect []).run after =
        (.ok (opened, report, s.acknowledged), files'') ∧ SameKnowledge opened live := by
  obtain ⟨c, fits, noCollision, v, log, inv⟩ := created_inv environment sound created reached
  obtain ⟨journaled, unlimited⟩ := inv.live live owner
  have live' : LiveInv c used live v log := by
    refine journaled.resolve_right fun stuck => ?_
    rw [stuck.poisoned] at healthy
    cases healthy
  have closed : ∃ v', model.Shows after v' ∧ Closed c used v' log fun _ => False := by
    rcases ended with rfl | ran
    · exact Journaled.drop model (.inl live') inv.shows
    · have restarted := MemoryFileSystem.restart_shows inv.shows live'.disk.stored.mounted
      obtain ⟨v', shows, crashed⟩ := wp_ok restarted ran
      exact ⟨v', shows, live'.disk.closed (.inl rfl) (.inl rfl) crashed⟩
  obtain ⟨v', shows, closed⟩ := closed
  obtain ⟨⟨opened, report, groups⟩, files'', ran, v'', log', which, -, reopened, unlimited', visited⟩ := wp_succeeds (wp_mono
    (openInternal_collects model vaultEntropy entropy closed fits noCollision shows) (fun _ _ h => h) fun _ _ h => h.1 trivial)
  obtain rfl : log' = log := which.resolve_right fun ⟨_, late, _⟩ => late
  obtain rfl : groups = s.acknowledged := visited.trans inv.groups.symm
  exact ⟨opened, report, files'', ran, .of_tip reopened.tip live'.tip (unlimited'.trans unlimited.symm)⟩

end Rebuilding

section

attribute [local instance] plainPrimitives plainPrimitives_lawful

theorem reopening_rebuilds_live_store_sample : ∃ store files live, sampleCreation = (.ok store, files) ∧
    (sampleLive store files).store = some live ∧ (sampleLive store files).acknowledged.length = 1 ∧
    ∃ (opened : JournalStore memoryHandles Unit Nat Nat) (report : RecoveryReport) (files'' : MemoryFileSystem),
      (JournalStore.openInternal sampleOptions.finalName sampleOptions.database 0 0 sampleUnwrap none collect []).run
        (release live.ownership (sampleLive store files).files) =
        (.ok (opened, report, (sampleLive store files).acknowledged), files'') ∧ SameKnowledge opened live := by
  obtain ⟨store, files, created, one, healthy, -, -⟩ := sampleCreation_ok
  cases owner : (sampleLive store files).store with
  | none =>
    rw [owner] at healthy
    cases healthy
  | some live =>
    rw [owner, Option.any_some, Bool.not_eq_true'] at healthy
    exact ⟨store, files, live, created, owner, one, reopening_rebuilds_live_store sampleEnvironment
      (MemoryFileSystem.new_sound (by decide)) created (sampleLive_reached store files) owner healthy (.inl rfl) 0 0⟩

end

end Session

/-! ### Accounting for blobs -/

section Accounting

variable {F W E I : Type} {H : Handles} [FileSystem F H] [Primitives] [EntropySource E] [EntropySource I]

/-- Where admission accepts an inventory, an append fails only as publishing the inventory or appending the group
fails, and leaves the blobs and totals that admission projected. -/
theorem admitted_inventory_registers (store : JournalStore H W E I) (inventory : BlobInventory)
    (accepted : checkBlobCapacity store.committedBlobs store.committedBlobBytes inventory.references = .ok ()) :
    ∃ projection after,
      Registered store.committedBlobs store.committedBlobBytes inventory.references projection after ∧
      ∀ (input : CommitInput) (fs : F), inventory.scope.database = store.database → inventory.isEmpty = false →
        store.committedBlobReferenceBindings + inventory.references.length ≤ maxBlobReferenceBindingsPerJournal →
        wp (do
            JournalStore.publishBlobInventory inventory (store.committedBlobInventories.contains inventory.digest)
            JournalStore.appendGroupInternal input inventory.digest)
          (fun durable s => s.1.poisoned = false ∧ JournalStore.appendGroupWithInventory input inventory (store, fs) =
            (.ok durable, { s.1 with
              committedBlobs := after.1
              committedBlobBytes := after.2
              committedBlobReferenceBindings :=
                store.committedBlobReferenceBindings + inventory.references.length }, s.2))
          (fun error s => JournalStore.appendGroupWithInventory input inventory (store, fs) = (.error error, s))
          (store, fs) := by
  obtain ⟨projection, after, registered⟩ := registered_of_capacity accepted
  refine ⟨projection, after, registered, fun input fs inScope nonempty few => ?_⟩
  have same : ∀ reference ∈ inventory.references, ∀ existing ∈ store.committedBlobs[reference.blobKey]?,
      existing = reference := by
    intro reference mem existing found
    have new := (registered.known reference.blobKey reference).mpr (.inr ⟨mem, rfl⟩)
    exact Option.some.inj (((registered.known _ _).mpr (.inl found)).symm.trans new)
  have small : store.committedBlobReferenceBindings + inventory.references.length < wordLimit :=
    Nat.lt_of_le_of_lt few (by decide)
  have opened : JournalStore.appendGroupWithInventory input inventory (store, fs) =
      ((do JournalStore.publishBlobInventory inventory (store.committedBlobInventories.contains inventory.digest)
           JournalStore.appendGroupInternal input inventory.digest) >>= fun durable => do
        inventory.references.forM JournalStore.registerReference
        JournalStore.modify fun s => { s with
          committedBlobReferenceBindings := store.committedBlobReferenceBindings + inventory.references.length }
        pure durable) (store, fs) := by
    rw [bind_assoc]
    show (ensure _ _ >>= _) (store, fs) = _
    rw [run_ensure inScope, nonempty]
    show (ensure _ _ >>= _) (store, fs) = _
    have limit : checkBlobReferenceBindingLimit (store.committedBlobReferenceBindings + inventory.references.length) = .ok () :=
      require_pos _ few
    rw [run_ensure same, run_lift accepted, run_lift (checked_pos small), run_lift limit]
  refine wp_iff.mpr ⟨fun durable s ran => ⟨?_, ?_⟩, fun error s ran => ?_⟩
  · exact wp_ok (Q := fun _ s' => s'.1.poisoned = false) (wp_last fun _ _ => appendGroupInternal_healthy _ _ _) ran
  · rw [opened, run_ok ran]
    have kept := wp_ok
      ((Keeps.bind (publishBlobInventory_ledger _ _) fun _ => appendGroupInternal_ledger _ _).wp (store, fs)) ran
    have blobs : s.1.committedBlobs = store.committedBlobs := congrArg (·.2.1) kept
    have bytes : s.1.committedBlobBytes = store.committedBlobBytes := congrArg (·.2.2) kept
    have done := registered.registered
    rw [← blobs, ← bytes] at done
    obtain ⟨_, _, registering, rfl⟩ := wp_succeeds (s := (s.1, s.2)) (registerReferences_spec done)
    rw [run_ok registering]
    rfl
  · rw [opened, run_error ran]

end Accounting

def sampleOnes : Octets 16 := ⟨List.replicate 16 1, by simp⟩

def sampleBlobs : BlobInventory where
  scope := ⟨default, default⟩
  references := [⟨⟨default, default⟩, sampleOnes, 0, 0, emptyBlobInventoryDigest⟩]
  valid := ⟨by decide, by decide, by decide⟩

section

attribute [local instance] plainPrimitives

theorem admitted_inventory_registers_sample : ∃ (store : JournalStore memoryHandles Unit Nat Nat) (files : MemoryFileSystem),
    (∃ projection after, Registered store.committedBlobs store.committedBlobBytes sampleBlobs.references projection after) ∧
    wp (do
        JournalStore.publishBlobInventory sampleBlobs (store.committedBlobInventories.contains sampleBlobs.digest)
        JournalStore.appendGroupInternal sampleCall.input sampleBlobs.digest)
      (fun durable _ => (JournalStore.appendGroupWithInventory sampleCall.input sampleBlobs (store, files)).1 = .ok durable)
      (fun error _ => (JournalStore.appendGroupWithInventory sampleCall.input sampleBlobs (store, files)).1 = .error error)
      (store, files) := by
  obtain ⟨store, files, -⟩ := sampleCreation_ok
  have accepted : checkBlobCapacity ∅ ∅ sampleBlobs.references = .ok () := by decide +kernel
  have few : 0 + sampleBlobs.references.length ≤ maxBlobReferenceBindingsPerJournal := by decide
  obtain ⟨projection, after, registered, appends⟩ := admitted_inventory_registers (F := MemoryFileSystem) { store with
    database := default
    committedBlobs := ∅
    committedBlobBytes := ∅
    committedBlobReferenceBindings := 0 } sampleBlobs accepted
  refine ⟨_, files, ⟨projection, after, registered⟩, ?_⟩
  refine wp_mono (appends sampleCall.input files rfl rfl few) (fun _ _ h => ?_) fun _ _ h => ?_
  · rw [h.2]
  · rw [h]

end

end Uste.Storage
