import Uste.Storage.Append

/-!
Publishing the inventory of a group, and the two ways to append. An inventory and the chunks it
refers to are on the disk before the group is, and a committed inventory is never written again.
-/

namespace Uste.Storage

open Types Crypto Program FileSystem Std List

section Publishing

variable {F W E I : Type} {H : Handles} [FileSystem F H] [Primitives] {quiet : Prop} (M : FileModel F Kept quiet)
  {fs : F} {v v' : View EntryName H} {c : Charter W} {used : BlobInventory → Prop} {visible durable : List Entry}
  {store : JournalStore H W E I} {inventory : BlobInventory} {n : EntryName} {cell : Cell}

/-- The inventory and its references are in place, now and after a crash. -/
structure Published (c : Charter W) (v : View EntryName H) (inventory : BlobInventory) : Prop where
  file : ∀ content ∈ [v.now (c.inventoryName inventory.digest), v.later (c.inventoryName inventory.digest)],
    ∃ bytes, content = some bytes ∧ InventoryOk c inventory bytes
  references : ∀ r ∈ inventory.references, c.Verified v.now r ∧ c.Verified v.later r

theorem inventoryName_apart (o : Origin) (digest : Octets 32) :
    certificatesName ≠ o.inventoryName digest ∧ ¬ IsChunk (o.inventoryName digest) :=
  ⟨by rintro ⟨⟩, (kinds_disjoint _).2 (o.isInventory_inventoryName digest)⟩

theorem Published.link (stored : Stored c used v visible) (references : ∀ r ∈ inventory.references, c.Verified v.now r)
    (found : v.cells (c.inventoryName inventory.digest) = some cell) (synced : cell.synced = cell.bytes)
    (ok : InventoryOk c inventory cell.bytes) : Published c v.link inventory where
  file := by
    rw [View.link_now, View.link_later found, synced, View.now_eq_some.mpr ⟨cell, found, rfl⟩]
    intro content mem
    exact ⟨cell.bytes, by simpa using mem, ok⟩
  references r mem := by
    refine ⟨(View.link_now (v := v)).symm ▸ references r mem, (references r mem).mono ?_⟩
    intro m bytes chunk there
    obtain ⟨held, here, rfl⟩ := View.now_eq_some.mp there
    rw [View.link_later here, stored.chunks m held chunk here]

/-- An inventory file that no entry looks at. -/
structure Loose (c : Charter W) (used : BlobInventory → Prop) (visible : List Entry) (inventory : BlobInventory) :
    Prop where
  fit : ∀ content, Fit c visible (c.inventoryName inventory.digest) content
  inUse : used inventory
  nonempty : inventory.isEmpty = false
  scope : inventory.scope.database = c.database

section

variable (loose : Loose c used visible inventory) (inv : DiskInv c used v visible durable)

include loose inv

theorem Loose.write {f : List UInt8 → List UInt8} {whole : List UInt8}
    (found : v.cells (c.inventoryName inventory.digest) = some cell)
    (ok : InventoryOk c inventory whole) (part : f cell.bytes <+: whole) :
    DiskInv c used (v.write (c.inventoryName inventory.digest) f) visible durable := by
  obtain ⟨other, chunk⟩ := inventoryName_apart c.toOrigin inventory.digest
  refine inv.grow (.write (P := (· = c.inventoryName inventory.digest)) f rfl) other
    (inv.stored.write found chunk (loose.fit _) fun _ => ?_)
  exact ⟨inventory, whole, loose.inUse, loose.nonempty, loose.scope, rfl, ok, part⟩

theorem Loose.create {file : H.File} {whole : List UInt8} (missing : v.cells (c.inventoryName inventory.digest) = none)
    (ok : InventoryOk c inventory whole) :
    DiskInv c used (v.create (c.inventoryName inventory.digest) file) visible durable := by
  obtain ⟨other, chunk⟩ := inventoryName_apart c.toOrigin inventory.digest
  refine inv.grow (.create (P := (· = c.inventoryName inventory.digest)) file rfl) other
    (inv.stored.create missing chunk fun _ => ?_)
  exact ⟨inventory, whole, loose.inUse, loose.nonempty, loose.scope, rfl, ok, nil_prefix⟩

/-- The file ends up with the inventory on the disk; on the way it holds a part of it. -/
theorem writeInventory_spec {file : H.File} {encoded : List UInt8}
    (handle : v.files file (c.inventoryName inventory.digest))
    (found : v.cells (c.inventoryName inventory.digest) = some cell) (empty : cell.bytes = [])
    (ok : InventoryOk c inventory encoded) (shows : M.Shows fs v) : wp (JournalStore.writeInventory file encoded)
      (fun _ s => s.1 = store ∧ ∃ v', M.Shows s.2 v' ∧ v.Grows (· = c.inventoryName inventory.digest) v' ∧
        DiskInv c used v' visible durable ∧ ∃ linked, v'.cells (c.inventoryName inventory.digest) =
          some ⟨encoded, encoded, linked⟩)
      (fun _ s => s.1 = store ∧ ∃ v', M.Shows s.2 v' ∧ v.Grows (· = c.inventoryName inventory.digest) v' ∧
        DiskInv c used v' visible durable) (store, fs) := by
  obtain ⟨other, chunk⟩ := inventoryName_apart c.toOrigin inventory.digest
  unfold JournalStore.writeInventory
  have write := M.writeAllAt_spec shows handle found encoded
  rw [empty, length_nil] at write
  refine onFiles_step write ?_ ?_
  swap
  · rintro _ fs' ⟨_, k, shows⟩
    refine ⟨rfl, _, shows, .write _ rfl, loose.write inv found ok ?_⟩
    rw [empty, nil_append]
    exact take_prefix k encoded
  intro _ fs' shows
  have grows : v.Grows (· = c.inventoryName inventory.digest)
      (v.write (c.inventoryName inventory.digest) (· ++ encoded)) := .write _ rfl
  have inv' := loose.write (f := (· ++ encoded)) inv found ok (by simp [empty])
  have found' := View.write_cells_self found (· ++ encoded)
  rw [empty, nil_append] at found'
  -- the length is already right
  have already : (v.write (c.inventoryName inventory.digest) (· ++ encoded)).write (c.inventoryName inventory.digest)
      (resized encoded.length) = v.write (c.inventoryName inventory.digest) (· ++ encoded) := by
    refine View.write_id _ found' ?_
    rw [resized_eq_take (Nat.le_refl _), take_length]
  have resize : wp (setLen file encoded.length) _ _ fs' := M.setLen shows handle found'
  rw [already] at resize
  refine onFiles_step resize ?_ ?_
  swap
  · rintro _ fs' ⟨after, _⟩
    exact ⟨rfl, _, after.elim id id, grows, inv'⟩
  intro _ fs' shows
  have synced := grows.trans (.sync rfl)
  have inv'' := inv'.sync chunk other
  rw [JournalStore.onFiles, wp_onSnd, wp_mapError]
  refine wp_mono (M.syncAll shows handle found') ?_ ?_
  · intro _ fs' shows
    exact ⟨rfl, _, shows, synced, inv'', _, View.sync_cells_self found'⟩
  · rintro _ fs' ⟨after, _⟩
    rcases after with shows | shows
    · exact ⟨rfl, _, shows, grows, inv'⟩
    · exact ⟨rfl, _, shows, synced, inv''⟩

end

theorem Loose.of_uncommitted (inv : DiskInv c used v visible durable) (noCollision : Collisionless c.toOrigin used)
    (inUse : used inventory) (nonempty : inventory.isEmpty = false) (scope : inventory.scope.database = c.database)
    (uncommitted : ∀ e ∈ visible, e.inventory ≠ some inventory) : Loose c used visible inventory := by
  refine ⟨fun content => ?_, inUse, nonempty, scope⟩
  have isInventory := c.isInventory_inventoryName inventory.digest
  refine { lock := ?_, key := ?_, manifest := ?_, segment := ?_, inventory := ?_ }
  iterate 3
    intro same
    cases same
  · intro header _ same
    exact absurd isInventory (same ▸ ((kinds_disjoint _).1 (isSegment_segmentName header.segmentId)).1)
  · intro e mem i found same
    obtain ⟨inUse', nonempty', scope'⟩ := inv.stored.chain.inventory_of_mem e mem i found
    have equal := noCollision.eq inUse inUse' nonempty nonempty' (scope.trans scope'.symm)
      (noCollision.names inUse inUse' same)
    exact absurd (equal ▸ found) (uncommitted e mem)

def Publishing (c : Charter W) (used : BlobInventory → Prop) (inventory : BlobInventory) (store : JournalStore H W E I)
    (v : View EntryName H) (visible durable : List Entry) (s : JournalStore H W E I × F) (v' : View EntryName H) : Prop :=
  M.Shows s.2 v' ∧ store.Same s.1 ∧ v.Grows (· = c.inventoryName inventory.digest) v' ∧ DiskInv c used v' visible durable

theorem linkInventory_spec {store' : JournalStore H W E I} {d : H.Directory} {bytes : List UInt8} {linked : Bool}
    (at' : Publishing M c used inventory store v visible durable (store', fs) v') (directory : v.directories d)
    (references : ∀ r ∈ inventory.references, c.Verified v.now r)
    (found : v'.cells (c.inventoryName inventory.digest) = some ⟨bytes, bytes, linked⟩)
    (ok : InventoryOk c inventory bytes) : wp (JournalStore.onFiles (syncDirectory d))
      (fun _ s => ∃ v', Publishing M c used inventory store v visible durable s v' ∧ Published c v' inventory)
      (fun _ s => ∃ v', Publishing M c used inventory store v visible durable s v') (store', fs) := by
  obtain ⟨shows, same, grows, inv⟩ := at'
  have references : ∀ r ∈ inventory.references, c.Verified v'.now r := by
    intro r mem
    refine (references r mem).mono fun n bytes chunk found => ?_
    rwa [grows.now]
    rintro rfl
    exact (inventoryName_apart c.toOrigin inventory.digest).2 chunk
  rw [JournalStore.onFiles, wp_onSnd, wp_mapError]
  refine wp_mono (M.syncDirectory shows (grows.directory directory)) ?_ ?_
  · intro _ fs' shows
    exact ⟨v'.link, ⟨shows, same, grows.trans (.link _ v'), inv.link⟩, .link inv.stored references found rfl ok⟩
  · rintro _ fs' ⟨after, _⟩
    rcases after with shows | shows
    · exact ⟨v', shows, same, grows, inv⟩
    · exact ⟨v'.link, shows, same, grows.trans (.link _ v'), inv.link⟩

section

variable [EntropySource E] {d : H.Directory} {file : H.File}

theorem replaceInventory_spec (loose : Loose c used visible inventory) (owns : Owns c store v)
    (inv : DiskInv c used v visible durable) (references : ∀ r ∈ inventory.references, c.Verified v.now r)
    (directory : v.directories d) (handle : v.files file (c.inventoryName inventory.digest))
    (found : v.cells (c.inventoryName inventory.digest) = some cell) (shows : M.Shows fs v) :
    wp (JournalStore.replaceInventory d file (inventoryContext c.database c.epoch c.writer inventory.digest) inventory)
      (fun _ s => ∃ v', Publishing M c used inventory store v visible durable s v' ∧ Published c v' inventory)
      (fun _ s => ∃ v', Publishing M c used inventory store v visible durable s v') (store, fs) := by
  have cut : v.Grows (· = c.inventoryName inventory.digest) (v.write (c.inventoryName inventory.digest) (resized 0)) :=
    .write _ rfl
  have empty : resized 0 cell.bytes = [] := by rw [resized_eq_take (Nat.zero_le _), take_zero]
  have inv' : DiskInv c used (v.write (c.inventoryName inventory.digest) (resized 0)) visible durable := by
    obtain ⟨other, chunk⟩ := inventoryName_apart c.toOrigin inventory.digest
    refine inv.grow cut other (inv.stored.write found chunk (loose.fit _) fun isInventory => ?_)
    obtain ⟨i, whole, inUse, nonempty, scope, named, ok, -⟩ := (inv.stored.drafts _ cell isInventory found).1
    exact ⟨i, whole, inUse, nonempty, scope, named, ok, empty ▸ nil_prefix⟩
  unfold JournalStore.replaceInventory
  refine onFiles_step (M.setLen shows handle found) ?_ ?_
  swap
  · intro _ fs' ⟨after, _⟩
    rcases after with shows | shows
    · exact ⟨v, shows, .refl store, .refl _ v, inv⟩
    · exact ⟨_, shows, .refl store, cut, inv'⟩
  intro _ fs' shows
  refine wp_step (sealed_spec owns.opens.key) ?_ ?_
  swap
  · intro _ s ⟨same, kept, _⟩
    exact ⟨_, kept ▸ shows, same, cut, inv'⟩
  intro encoded ⟨store', fs''⟩ ⟨same, kept, ok⟩
  obtain rfl : fs'' = fs' := kept
  refine wp_step (writeInventory_spec M loose inv' handle (View.write_cells_self found (resized 0)) empty ok shows) ?_ ?_
  swap
  · rintro _ ⟨_, fs'⟩ ⟨rfl, v', shows, grows, inv⟩
    exact ⟨v', shows, same, cut.trans grows, inv⟩
  rintro _ ⟨_, fs'⟩ ⟨rfl, v', shows, grows, inv, linked, found⟩
  exact linkInventory_spec M ⟨shows, same, cut.trans grows, inv⟩ directory references found ok

theorem createInventory_spec (owns : Owns c store v)
    (loose : v.cells (c.inventoryName inventory.digest) = none → Loose c used visible inventory)
    (inv : DiskInv c used v visible durable) (references : ∀ r ∈ inventory.references, c.Verified v.now r)
    (directory : v.directories d) (shows : M.Shows fs v) :
    wp (JournalStore.createInventory d (c.inventoryName inventory.digest)
        (inventoryContext c.database c.epoch c.writer inventory.digest) inventory)
      (fun _ s => ∃ v', Publishing M c used inventory store v visible durable s v' ∧ Published c v' inventory)
      (fun _ s => ∃ v', Publishing M c used inventory store v visible durable s v') (store, fs) := by
  unfold JournalStore.createInventory
  refine wp_step (sealed_spec owns.opens.key) ?_ ?_
  swap
  · intro _ s ⟨same, kept, _⟩
    exact ⟨v, kept ▸ shows, same, .refl _ v, inv⟩
  intro encoded ⟨store', fs'⟩ ⟨same, kept, ok⟩
  obtain rfl : fs' = fs := kept
  refine onFiles_step (M.createNew shows directory (kept_inventoryName _ _)) ?_ ?_
  swap
  · intro _ fs' failed
    rcases failed with shows | ⟨missing, file, shows⟩
    · exact ⟨v, shows, same, .refl _ v, inv⟩
    · exact ⟨_, shows, same, .create file rfl, (loose missing).create inv missing ok⟩
  intro file fs' ⟨missing, shows⟩
  have loose := loose missing
  have created : v.Grows (· = c.inventoryName inventory.digest) (v.create (c.inventoryName inventory.digest) file) :=
    .create file rfl
  have inv' : DiskInv c used (v.create (c.inventoryName inventory.digest) file) visible durable :=
    loose.create inv missing ok
  refine wp_step (writeInventory_spec M loose inv' (.inr ⟨rfl, rfl⟩) (View.create_cells_self file) rfl ok shows) ?_ ?_
  swap
  · rintro _ ⟨_, fs'⟩ ⟨rfl, v', shows, grows, inv⟩
    exact ⟨v', shows, same, created.trans grows, inv⟩
  rintro _ ⟨_, fs'⟩ ⟨rfl, v', shows, grows, inv, linked, found⟩
  exact linkInventory_spec M ⟨shows, same, created.trans grows, inv⟩ directory references found ok

theorem publishBlobInventory_spec [Primitives.Lawful] {committed : Bool} (owns : Owns c store v)
    (noCollision : Collisionless c.toOrigin used) (inv : DiskInv c used v visible durable) (inUse : used inventory)
    (nonempty : inventory.isEmpty = false) (scope : inventory.scope.database = c.database)
    (safe : quiet ∨ ∀ e ∈ visible, e.inventory = some inventory → committed = true) (shows : M.Shows fs v) :
    wp (JournalStore.publishBlobInventory inventory committed)
      (fun _ s => ∃ v', Publishing M c used inventory store v visible durable s v' ∧ Published c v' inventory)
      (fun _ s => ∃ v', Publishing M c used inventory store v visible durable s v') (store, fs) := by
  have untouched : ∀ {fs' : F}, M.Shows fs' v → ∃ v', Publishing M c used inventory store v visible durable (store, fs') v' :=
    fun shows => ⟨v, shows, .refl store, .refl _ v, inv⟩
  unfold JournalStore.publishBlobInventory
  rw [wp_bind, wp_read]
  dsimp only
  rw [owns.database, owns.epoch, owns.writer, forM_onSnd, wp_bind, wp_onSnd]
  refine wp_mono (verifyAll_spec M owns.opens shows owns.directory _) ?_ fun _ _ h => untouched h.1
  rintro _ fs' ⟨shows, references⟩
  apply wp_known (Origin.inventoryName_eq owns.opens inventory.digest)
  have create : ∀ {kind : AdapterErrorKind} {fs' : F}, M.Shows fs' v →
      wp (ensure (kind = .notFound) (.adapter kind) >>= fun _ => JournalStore.createInventory store.databaseDirectory
          (c.inventoryName inventory.digest) (inventoryContext c.database c.epoch c.writer inventory.digest) inventory)
        (fun _ s => ∃ v', Publishing M c used inventory store v visible durable s v' ∧ Published c v' inventory)
        (fun _ s => ∃ v', Publishing M c used inventory store v visible durable s v') (store, fs') := by
    intro kind fs' shows
    refine wp_checks (fun _ => ?_) fun _ => untouched shows
    refine createInventory_spec M owns (fun missing => ?_) inv references owns.directory shows
    refine .of_uncommitted inv noCollision inUse nonempty scope fun e mem found => ?_
    obtain ⟨bytes, there, -⟩ := (inv.stored.now _).inventory e mem inventory found rfl
    rw [View.now, missing] at there
    cases there
  rw [wp_bind, wp_attempt, wp_onSnd]
  cases found : v.cells (c.inventoryName inventory.digest) with
  | none =>
    refine wp_mono (M.openMissing shows owns.directory (kept_inventoryName _ _) found) (fun _ _ h => h.elim) ?_
    rintro kind fs' ⟨shows, _⟩
    exact create shows
  | some cell =>
    refine wp_mono (M.openExisting shows owns.directory found) ?_ fun kind fs' h => create h.1
    rintro file fs' ⟨shows, handle⟩
    rw [wp_bind, wp_attempt, wp_onSnd]
    refine wp_mono (loadBlobInventory_spec M owns.opens noCollision inUse nonempty scope inv.stored shows owns.directory true)
      ?_ ?_
    · rintro _ fs' ⟨shows, _, held⟩
      obtain ⟨bytes, there, ok⟩ := held.file
      obtain ⟨cell', found', rfl⟩ := View.now_eq_some.mp there
      obtain rfl := Option.some.inj (found.symm.trans found')
      obtain ⟨other, chunk⟩ := inventoryName_apart c.toOrigin inventory.digest
      have synced : v.Grows (· = c.inventoryName inventory.digest) (v.sync (c.inventoryName inventory.digest)) := .sync rfl
      have inv' := inv.sync chunk other
      refine onFiles_step (M.syncAll shows handle found) ?_ ?_
      · intro _ fs' shows
        exact linkInventory_spec M ⟨shows, .refl store, synced, inv'⟩ owns.directory references (View.sync_cells_self found) ok
      · rintro _ fs' ⟨after, _⟩
        rcases after with shows | shows
        · exact untouched shows
        · exact ⟨_, shows, .refl store, synced, inv'⟩
    · rintro _ fs' ⟨shows, unheld⟩
      show wp (ensure _ _ >>= fun _ => _) _ _ _
      refine wp_checks (fun uncommitted => ?_) fun _ => untouched shows
      refine replaceInventory_spec M (.of_uncommitted inv noCollision inUse nonempty scope ?_) owns inv references
        owns.directory handle found shows
      intro e mem there
      rcases safe with q | safe
      · exact unheld q (inv.stored.held mem there true)
      · exact absurd (safe e mem there) (by simp [uncommitted])

end

end Publishing

section Appending

variable {F W E I : Type} {H : Handles} [FileSystem F H] [Primitives] {quiet : Prop} (M : FileModel F Kept quiet)
  {fs : F} {v v' : View EntryName H} {c : Charter W} {used : BlobInventory → Prop} {log visible durable : List Entry}
  {store : JournalStore H W E I} {inventory : BlobInventory} {input : CommitInput} {Late : Entry → Prop}

omit [FileSystem F H] [Primitives] in
theorem registerReferences_spec {references : List BlobReference} {committed : CommittedBlobs × CommittedBlobBytes}
    (h : references.foldlM registerCommittedBlob (store.committedBlobs, store.committedBlobBytes) = .ok committed) :
    wp (references.forM JournalStore.registerReference)
      (fun _ s => s = ({ store with committedBlobs := committed.1, committedBlobBytes := committed.2 }, fs))
      (fun _ _ => False) (store, fs) := by
  induction references generalizing store with
  | nil =>
    cases h
    rfl
  | cons r rest ih =>
    obtain ⟨middle, first, h⟩ := foldlM_step h
    unfold List.forM
    rw [wp_bind, JournalStore.registerReference, wp_bind, wp_read]
    dsimp only
    rw [first]
    exact @ih { store with committedBlobs := middle.1, committedBlobBytes := middle.2 } h

theorem LiveInv.grow {P : EntryName → Prop} (live : LiveInv c used store v log) (grows : v.Grows P v')
    (certificates : ¬ P certificatesName) (segments : ∀ id, ¬ P (segmentName id)) (disk : DiskInv c used v' log log) :
    LiveInv c used store v' log where
  disk := disk
  owns := live.owns.grow grows
  tip := live.tip
  healthy := live.healthy
  certificateFile := grows.files _ _ live.certificateFile
  segmentFile := grows.files _ _ live.segmentFile
  certificates := grows.keeps_length certificates live.certificates
  current := grows.keeps_length (segments _) live.current

theorem Published.prepared {tip : Tip} {blobs : CommittedBlobs} {bytes : CommittedBlobBytes} {bindings : Nat}
    (published : Published c v inventory) (inUse : used inventory) (nonempty : inventory.isEmpty = false)
    (scope : inventory.scope.database = c.database) (committed : tip.committed = (blobs, bytes))
    (capacity : checkBlobCapacity blobs bytes inventory.references = .ok ())
    (bound : tip.bindings + inventory.references.length = bindings)
    (limit : checkBlobReferenceBindingLimit bindings = .ok ()) : Prepared c used v tip (some inventory) where
  valid i same := by
    cases same
    exact ⟨inUse, nonempty, scope⟩
  file i same := by
    cases same
    exact published.file
  references := published.references
  bindings := by
    rw [referencesOf, bound]
    exact require_ok.mp limit
  registered := by
    obtain ⟨-, after, -, registered, -⟩ := registerAll_of_capacity capacity
    rw [Tip.registered, committed, referencesOf, registered]

def recordedInventory : Option BlobInventory → Option BlobInventory :=
  Option.filter fun inventory => !inventory.isEmpty

/-- What an append leaves where it fails. -/
def AppendFailed (c : Charter W) (used : BlobInventory → Prop) (store : JournalStore H W E I) (log : List Entry)
    (Late : Entry → Prop) (input : CommitInput) (inventory : Option BlobInventory) (err : StorageError)
    (s : JournalStore H W E I × F) : Prop :=
  ∃ v', M.Shows s.2 v' ∧ Journaled c used s.1 v' log fun e =>
    Late e ∨ store.poisoned = false ∧ e.Records input inventory ∧ ∃ kind, err = .adapter kind

section

variable (h : Journaled c used store v log Late)

include h

theorem Journaled.mono {Late' : Entry → Prop} (wider : ∀ e, Late e → Late' e) : Journaled c used store v log Late' :=
  h.imp id fun stuck => stuck.mono wider

theorem Journaled.disk : Owns c store v ∧ store.committedBlobInventories = (Tip.after c log).inventories ∧
    ∃ visible durable, DiskInv c used v visible durable ∧ (visible = log ∨ ∃ e, Late e ∧ visible = log ++ [e]) ∧
      (durable = log ∨ durable = visible) ∧ (store.poisoned = false → visible = log) := by
  rcases h with live | stuck
  · exact ⟨live.owns, live.tip.inventories, log, log, live.disk, .inl rfl, .inl rfl, fun _ => rfl⟩
  · obtain ⟨visible, durable, inv, seen, kept⟩ := stuck.disk
    refine ⟨stuck.owns, stuck.inventories, visible, durable, inv, seen, kept, fun healthy => ?_⟩
    rw [stuck.poisoned] at healthy
    cases healthy

theorem Journaled.position :
    store.frontier = (Tip.after c log).frontier ∧ store.previousCertificateDigest = (Tip.after c log).digest := by
  rcases h with live | stuck
  · exact ⟨live.tip.frontier, live.tip.digest⟩
  · exact ⟨stuck.frontier, stuck.digest⟩

end

theorem Publishing.journaled {s : JournalStore H W E I × F} (owner : Journaled c used store v log Late)
    (seen : visible = log ∨ ∃ e, Late e ∧ visible = log ++ [e]) (kept : durable = log ∨ durable = visible)
    (live : store.poisoned = false → visible = log)
    (h : Publishing M c used inventory store v visible durable s v') : Journaled c used s.1 v' log Late := by
  obtain ⟨shows, same, grows, inv'⟩ := h
  rcases owner with healthy | stuck
  · obtain rfl := live healthy.healthy
    obtain rfl : durable = visible := kept.elim id id
    refine .inl ((healthy.grow grows (inventoryName_apart _ _).1 (fun id name => ?_) inv').same same)
    exact ((kinds_disjoint _).1 (isSegment_segmentName id)).1 (name ▸ c.isInventory_inventoryName _)
  · exact .inr (Stuck.same { stuck with owns := stuck.owns.grow grows, disk := ⟨visible, durable, inv', seen, kept⟩ } same)

section

variable [Primitives.Lawful] [EntropySource E] [EntropySource I]

omit [Primitives.Lawful] in
theorem appendGroupInternal_poisoned {digest : Octets 32} (poisoned : store.poisoned = true) :
    wp (JournalStore.appendGroupInternal input digest) (fun _ _ => False) (fun _ s => s = (store, fs)) (store, fs) := by
  unfold JournalStore.appendGroupInternal
  apply wp_reads
  refine wp_checks (fun healthy => ?_) fun _ => rfl
  rw [poisoned] at healthy
  cases healthy

section

variable (journaled : Journaled c used store v log Late) (noCollision : Collisionless c.toOrigin used)

include journaled noCollision

theorem appendGroup_spec (shows : M.Shows fs v) : wp (JournalStore.appendGroup input)
      (fun durable s => store.poisoned = false ∧ ∃ v' e, M.Shows s.2 v' ∧ e.Records input none ∧
        durable = ⟨e.revision, sha256 e.encodedCertificate⟩ ∧ LiveInv c used s.1 v' (log ++ [e]))
      (AppendFailed M c used store log Late input none) (store, fs) := by
  unfold JournalStore.appendGroup
  rcases journaled with live | stuck
  · have prepared : Prepared c used v (Tip.after c log) none := .none live.disk.stored.chain
    show wp (JournalStore.appendGroupInternal input (digestOf none)) _ _ _
    refine wp_mono (appendGroupInternal_spec M live noCollision prepared shows) ?_ ?_
    · rintro durable s ⟨v', e, shows, records, returned, advanced⟩
      refine ⟨live.healthy, v', e, shows, records, returned, ?_⟩
      have same : (Tip.after c (log ++ [e])).committed = (Tip.after c log).committed ∧
          (Tip.after c (log ++ [e])).bindings = (Tip.after c log).bindings := by
        rw [Tip.after_snoc, Tip.next, Entry.references_none records.inventory]
        exact ⟨rfl, rfl⟩
      have live' := advanced.live
      rw [same.1, same.2, ← live.tip.blobs, ← live.tip.blobBytes, ← live.tip.bindings, ← advanced.blobs,
        ← advanced.blobBytes, ← advanced.bindings] at live'
      exact live'
    · rintro err s ⟨v', shows, journaled⟩
      exact ⟨v', shows, journaled.mono fun e late => .inr ⟨live.healthy, late⟩⟩
  · refine wp_mono (appendGroupInternal_poisoned stuck.poisoned) (fun _ _ h => h.elim) ?_
    rintro err _ rfl
    exact ⟨v, shows, .inr (stuck.mono fun e late => .inl late)⟩

theorem appendGroupWithInventory_spec (inUse : used inventory) (safe : quiet ∨ ∀ e, ¬ Late e) (shows : M.Shows fs v) :
    wp (JournalStore.appendGroupWithInventory input inventory)
      (fun durable s => store.poisoned = false ∧ ∃ v' e, M.Shows s.2 v' ∧
        e.Records input (recordedInventory (some inventory)) ∧
        durable = ⟨e.revision, sha256 e.encodedCertificate⟩ ∧ LiveInv c used s.1 v' (log ++ [e]))
      (AppendFailed M c used store log Late input (recordedInventory (some inventory))) (store, fs) := by
  have refused : ∀ err, AppendFailed M c used store log Late input (recordedInventory (some inventory)) err (store, fs) :=
    fun err => ⟨v, shows, journaled.mono fun e late => .inl late⟩
  obtain ⟨owns, inventories, visible, durable, inv, seen, kept, live⟩ := journaled.disk
  unfold JournalStore.appendGroupWithInventory
  apply wp_reads
  refine wp_checks (fun scope => ?_) fun _ => refused _
  rw [owns.database] at scope
  split
  case isTrue empty =>
    have none : recordedInventory (some inventory) = none := by simp [recordedInventory, empty]
    rw [none]
    exact appendGroup_spec M journaled noCollision shows
  case isFalse nonempty =>
    have nonempty : inventory.isEmpty = false := by simpa using nonempty
    have recorded : recordedInventory (some inventory) = some inventory := by simp [recordedInventory, nonempty]
    rw [recorded] at refused ⊢
    refine wp_checks (fun _ => ?_) fun _ => refused _
    refine wp_lifts (fun _ capacity => ?_) fun _ _ => refused _
    refine wp_lifts (fun bindings sum => ?_) fun _ _ => refused _
    obtain ⟨-, rfl⟩ := checked_ok sum
    refine wp_lifts (fun _ limit => ?_) fun _ _ => refused _
    have known : quiet ∨ ∀ e ∈ visible, e.inventory = some inventory →
        store.committedBlobInventories.contains inventory.digest = true := by
      refine safe.imp id fun none e mem found => ?_
      rcases seen with rfl | ⟨late, impossible, -⟩
      · rw [ExtTreeSet.contains_iff_mem, inventories]
        exact inv.stored.chain.mem_inventories.mpr ⟨e, mem, inventory, found, rfl⟩
      · exact absurd impossible (none late)
    refine wp_step (publishBlobInventory_spec M owns noCollision inv inUse nonempty scope known shows) ?_ ?_
    swap
    · rintro err s ⟨v', publishing⟩
      exact ⟨v', publishing.1, (publishing.journaled M journaled seen kept live).mono fun e late => .inl late⟩
    rintro _ ⟨store', fs'⟩ ⟨v', publishing, published⟩
    have journaled' := publishing.journaled M journaled seen kept live
    obtain ⟨shows', same, -, -⟩ := publishing
    have unchanged : store'.committedBlobs = store.committedBlobs ∧ store'.committedBlobBytes = store.committedBlobBytes ∧
        store'.committedBlobReferenceBindings = store.committedBlobReferenceBindings ∧
        store'.poisoned = store.poisoned := by
      obtain ⟨_, _, -, rfl⟩ := same
      exact ⟨rfl, rfl, rfl, rfl⟩
    rcases journaled' with live' | stuck
    swap
    · refine wp_step (appendGroupInternal_poisoned stuck.poisoned) (fun _ _ h => h.elim) ?_
      rintro err _ rfl
      exact ⟨v', shows', .inr (stuck.mono fun e late => .inl late)⟩
    have healthy : store.poisoned = false := unchanged.2.2.2.symm.trans live'.healthy
    have committed : (Tip.after c log).committed = (store.committedBlobs, store.committedBlobBytes) := by
      rw [← unchanged.1, ← unchanged.2.1, live'.tip.blobs, live'.tip.blobBytes]
    have bound : (Tip.after c log).bindings = store.committedBlobReferenceBindings := by
      rw [← unchanged.2.2.1, live'.tip.bindings]
    have prepared := published.prepared inUse nonempty scope committed capacity (by rw [bound]) limit
    rw [← digestOf.eq_2]
    refine wp_step (appendGroupInternal_spec M live' noCollision prepared shows') ?_ ?_
    swap
    · rintro err s ⟨v', shows, journaled⟩
      exact ⟨v', shows, journaled.mono fun e late => .inr ⟨healthy, late⟩⟩
    rintro durable ⟨store'', fs''⟩ ⟨v'', e, shows, records, returned, advanced⟩
    have registered := prepared.registered
    rw [committed, ← unchanged.1, ← unchanged.2.1, ← advanced.blobs, ← advanced.blobBytes] at registered
    refine wp_step (registerReferences_spec registered) ?_ fun _ _ h => h.elim
    rintro _ _ rfl
    refine ⟨healthy, v'', e, shows, records, returned, ?_⟩
    have final : (Tip.after c (log ++ [e])).committed = (Tip.after c log).registered (referencesOf (some inventory)) ∧
        (Tip.after c (log ++ [e])).bindings = store.committedBlobReferenceBindings + inventory.references.length := by
      rw [Tip.after_snoc, Tip.next, Entry.references_some records.inventory, bound]
      exact ⟨rfl, rfl⟩
    have done := advanced.live
    rw [final.1, final.2] at done
    exact done

/-- An append commits what it was given, or leaves a store that is healthy and as before, or one that has to be
opened again. -/
theorem append_spec {inventory : Option BlobInventory} (inUse : ∀ i, inventory = some i → used i)
    (safe : quiet ∨ ∀ e, ¬ Late e) (shows : M.Shows fs v) : wp (JournalStore.append input inventory)
      (fun durable s => store.poisoned = false ∧ ∃ v' e, M.Shows s.2 v' ∧ e.Records input (recordedInventory inventory) ∧
        durable = ⟨e.revision, sha256 e.encodedCertificate⟩ ∧ LiveInv c used s.1 v' (log ++ [e]))
      (AppendFailed M c used store log Late input (recordedInventory inventory)) (store, fs) := by
  cases inventory with
  | none => exact appendGroup_spec M journaled noCollision shows
  | some i => exact appendGroupWithInventory_spec M journaled noCollision (inUse i rfl) safe shows

end

end

end Appending

end Uste.Storage
