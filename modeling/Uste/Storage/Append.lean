import Uste.Storage.Recovery

/-!
Appending. A group is written and brought to the disk before the certificate that commits it, so
at every point of the way a reader and a crash see the entries from before, or these and the new one.
-/

namespace Uste.Storage

open Types Crypto Program FileSystem Std List

section Store

variable {F W E I : Type} {H : Handles}

def JournalStore.Same (store store' : JournalStore H W E I) : Prop :=
  ∃ vault entropy, store.vault.Same vault ∧ store' = { store with vault := vault, identityEntropy := entropy }

namespace JournalStore.Same

variable {store store' store'' : JournalStore H W E I}

theorem refl (store : JournalStore H W E I) : store.Same store := ⟨_, _, ⟨rfl, rfl, rfl⟩, rfl⟩

theorem trans (h : store.Same store') (h' : store'.Same store'') : store.Same store'' := by
  obtain ⟨vault, entropy, ⟨database, wrapped, key⟩, rfl⟩ := h
  obtain ⟨vault', entropy', ⟨database', wrapped', key'⟩, rfl⟩ := h'
  exact ⟨vault', entropy', ⟨database'.trans database, wrapped'.trans wrapped, key'.trans key⟩, rfl⟩

end JournalStore.Same

variable {c : Charter W} {v v' : View EntryName H} {store store' : JournalStore H W E I}

theorem Owns.same (h : Owns c store v) (same : store.Same store') : Owns c store' v := by
  obtain ⟨vault, entropy, same, rfl⟩ := same
  exact { h with opens := h.opens.same same }

theorem Owns.grow {P : EntryName → Prop} (h : Owns c store v) (grows : v.Grows P v') : Owns c store v' :=
  { h with directory := grows.directory h.directory, owner := grows.owner.trans h.owner }

theorem AtTip.same {tip : Tip} (h : AtTip store tip) (same : store.Same store') : AtTip store' tip := by
  obtain ⟨vault, entropy, -, rfl⟩ := same
  exact { h with }

theorem LiveInv.same [Primitives] {used : BlobInventory → Prop} {log : List Entry} (h : LiveInv c used store v log) (same : store.Same store') : LiveInv c used store' v log := by
  have owns := h.owns.same same
  have tip := h.tip.same same
  obtain ⟨vault, entropy, -, rfl⟩ := same
  exact { h with owns := owns, tip := tip }

end Store

section Programs

variable {F W E I : Type} {H : Handles} {store : JournalStore H W E I} {fs : F}

theorem sealed_spec [Primitives] [EntropySource E] {key : Octets 32} {context : CryptoContext} {plaintext : List UInt8}
    (unlocked : store.vault.key = some key) : wp (JournalStore.sealed context plaintext)
      (fun bytes s => store.Same s.1 ∧ s.2 = fs ∧ Sealed key context plaintext bytes)
      (fun err s => store.Same s.1 ∧ s.2 = fs ∧ ∃ cause, err = .crypto cause) (store, fs) := by
  unfold JournalStore.sealed
  rw [wp_bind, wp_mapError, wp_zoom]
  refine wp_mono (KeyVault.encrypt_spec unlocked) ?_ ?_
  · intro envelope vault ⟨same, isSealed⟩
    exact ⟨⟨vault, _, same, rfl⟩, rfl, isSealed⟩
  · intro err vault same
    exact ⟨⟨vault, _, same, rfl⟩, rfl, err, rfl⟩

theorem randomNonzeroId_spec [EntropySource I] (entropy : I) (attempts : Nat) :
    wp (randomNonzeroIdLoop attempts) (fun id _ => id ≠ Octets.zero 16) (fun err _ => ∃ cause, err = .crypto cause)
      entropy := by
  induction attempts generalizing entropy with
  | zero => exact ⟨_, rfl⟩
  | succ attempts ih =>
    unfold randomNonzeroIdLoop
    refine wp_lifts (fun bytes _ => ?_) fun err failed => ?_
    · by_cases nonzero : bytes ≠ Octets.zero 16
      · rw [if_pos nonzero]
        exact nonzero
      · rw [if_neg nonzero]
        exact ih _
    · unfold orError at failed
      split at failed
      · cases failed
      · cases failed
        exact ⟨_, rfl⟩

theorem randomId_spec [EntropySource I] : wp JournalStore.randomId
      (fun id s => store.Same s.1 ∧ s.2 = fs ∧ id ≠ Octets.zero 16)
      (fun err s => store.Same s.1 ∧ s.2 = fs ∧ ∃ cause, err = .crypto cause) (store, fs) := by
  unfold JournalStore.randomId
  rw [wp_zoom]
  refine wp_mono (randomNonzeroId_spec _ _) ?_ ?_
  · intro id entropy nonzero
    exact ⟨⟨_, entropy, ⟨rfl, rfl, rfl⟩, rfl⟩, rfl, nonzero⟩
  · intro err entropy failed
    exact ⟨⟨_, entropy, ⟨rfl, rfl, rfl⟩, rfl⟩, rfl, failed⟩

theorem onFiles_step {α β : Type} {x : Program F AdapterErrorKind α}
    {f : α → Program (JournalStore H W E I × F) StorageError β} {Q : α → F → Prop} {R : AdapterErrorKind → F → Prop}
    {Q' : β → JournalStore H W E I × F → Prop} {R' : StorageError → JournalStore H W E I × F → Prop}
    (first : wp x Q R fs) (rest : ∀ a fs', Q a fs' → wp (f a) Q' R' (store, fs'))
    (error : ∀ kind fs', R kind fs' → R' (.adapter kind) (store, fs')) :
    wp (JournalStore.onFiles x >>= f) Q' R' (store, fs) := by
  rw [wp_bind, JournalStore.onFiles, wp_onSnd, wp_mapError]
  exact wp_mono first rest error

end Programs

theorem kept_segmentName (id : Octets 16) : Kept (segmentName id) := by
  simp [Kept, isSegment_segmentName id]

section Files

variable {F : Type} {H : Handles} [FileSystem F H] {quiet : Prop} (M : FileModel F Kept quiet) {fs : F}
  {v : View EntryName H} {d : H.Directory} {n : EntryName}

theorem writeNew_spec (keep : Kept n) (bytes : List UInt8) (directory : v.directories d) (shows : M.Shows fs v) :
    wp (JournalStore.writeNew d n bytes)
      (fun file fs' => ∃ v', M.Shows fs' v' ∧ v.Grows (fun m => m = n ∧ v.cells n = none) v' ∧ v.cells n = none ∧
        v'.cells n = some ⟨bytes, bytes, false⟩ ∧ v'.files file n)
      (fun _ fs' => ∃ v', M.Shows fs' v' ∧ v.Grows (fun m => m = n ∧ v.cells n = none) v') fs := by
  unfold JournalStore.writeNew
  refine wp_maps (M.createNew shows directory keep) ?_ ?_
  swap
  · intro _ fs' failed
    rcases failed with shows | ⟨missing, file, shows⟩
    · exact ⟨v, shows, .refl _ v⟩
    · exact ⟨_, shows, .create file ⟨rfl, missing⟩⟩
  intro file fs' ⟨missing, shows⟩
  have created : v.Grows (fun m => m = n ∧ v.cells n = none) (v.create n file) := .create file ⟨rfl, missing⟩
  have handle : (v.create n file).files file n := .inr ⟨rfl, rfl⟩
  have cell := v.create_cells_self (n := n) file
  refine wp_maps (M.writeAllAt_spec shows handle cell bytes) ?_ ?_
  swap
  · intro _ fs' ⟨_, k, shows⟩
    exact ⟨_, shows, created.trans (.write _ ⟨rfl, missing⟩)⟩
  intro _ fs' shows
  have written := created.trans (.write (fun held => held ++ bytes) ⟨rfl, missing⟩)
  have cell' := View.write_cells_self cell (· ++ bytes)
  refine wp_maps (M.syncAll shows handle cell') ?_ ?_
  · intro _ fs' shows
    exact ⟨_, shows, written.trans (.sync ⟨rfl, missing⟩), missing, View.sync_cells_self cell', handle⟩
  · intro _ fs' ⟨shows, _⟩
    rcases shows with shows | shows
    · exact ⟨_, shows, written⟩
    · exact ⟨_, shows, written.trans (.sync ⟨rfl, missing⟩)⟩

end Files

/-! ### Placing a group -/

section Placing

variable {F W E I : Type} {H : Handles} [FileSystem F H] [Primitives] {quiet : Prop} (M : FileModel F Kept quiet)
  {fs : F} {v v' : View EntryName H} {c : Charter W} {used : BlobInventory → Prop} {log durable : List Entry}
  {store : JournalStore H W E I}

/-- A store that has to be opened again: it has stopped on the way to a further entry, which is committed
for a reader, also after a crash, or not at all. -/
structure Stuck (c : Charter W) (used : BlobInventory → Prop) (store : JournalStore H W E I) (v : View EntryName H)
    (log : List Entry) (Late : Entry → Prop) : Prop where
  poisoned : store.poisoned = true
  owns : Owns c store v
  inventories : store.committedBlobInventories = (Tip.after c log).inventories
  frontier : store.frontier = (Tip.after c log).frontier
  digest : store.previousCertificateDigest = (Tip.after c log).digest
  disk : ∃ visible durable, DiskInv c used v visible durable ∧ (visible = log ∨ ∃ e, Late e ∧ visible = log ++ [e]) ∧
    (durable = log ∨ durable = visible)

variable {Late : Entry → Prop}

theorem Stuck.mono {Late' : Entry → Prop} (h : Stuck c used store v log Late) (wider : ∀ e, Late e → Late' e) :
    Stuck c used store v log Late' := by
  obtain ⟨visible, durable, inv, seen, kept⟩ := h.disk
  refine { h with disk := ⟨visible, durable, inv, ?_, kept⟩ }
  rcases seen with same | ⟨e, late, same⟩
  · exact .inl same
  · exact .inr ⟨e, wider e late, same⟩

theorem Stuck.same {store' : JournalStore H W E I} (h : Stuck c used store v log Late)
    (same : store.Same store') : Stuck c used store' v log Late := by
  have owns := h.owns.same same
  obtain ⟨vault, entropy, -, rfl⟩ := same
  exact { h with owns := owns }

def Fresh (v : View EntryName H) (n : EntryName) : Prop := IsSegment n ∧ v.cells n = none

theorem DiskInv.fresh (inv : DiskInv c used v log durable) (grows : v.Grows (Fresh v) v') :
    DiskInv c used v' log durable := by
  refine inv.grow grows (fun fresh => nomatch fresh.1) (inv.stored.grow grows ?_ ?_ ?_)
  · intro n fresh
    have absent := inv.stored.now n
    rw [View.now, fresh.2] at absent
    exact ⟨absent.of_none _, absent.of_none _⟩
  · intro n fresh chunk
    exact absurd chunk ((kinds_disjoint n).1 fresh.1).2
  · intro n _ fresh isInventory
    exact absurd isInventory ((kinds_disjoint n).1 fresh.1).1

/-- A segment that rolling over has opened. -/
structure NewSegment (c : Charter W) (v v' : View EntryName H) (header : SegmentHeader) (file : H.File) : Prop where
  grows : v.Grows (Fresh v) v'
  missing : v.cells (segmentName header.segmentId) = none
  nonzero : header.segmentId ≠ Octets.zero 16
  handle : v'.files file (segmentName header.segmentId)
  front : ∃ front, v'.cells (segmentName header.segmentId) = some ⟨front, front, true⟩ ∧
    Sealed c.key (segmentContext c.database c.epoch header.segmentId c.writer 0) header.encode front

theorem rollover_spec [Primitives.Lawful] [EntropySource E] [EntropySource I] {firstRevision : Nat}
    (owns : Owns c store v) (shows : M.Shows fs v) : wp (JournalStore.rollover firstRevision)
      (fun _ s => ∃ v' id file store', M.Shows s.2 v' ∧
        NewSegment c v v' ⟨c.database, id, c.writer, store.currentSegmentId, firstRevision⟩ file ∧ store.Same store' ∧
        s.1 = { store' with
          currentSegmentId := id, currentSegmentFile := file, currentSegmentOffset := smallEnvelopeBytes })
      (fun _ s => store.Same s.1 ∧ ∃ v', M.Shows s.2 v' ∧ v.Grows (Fresh v) v') (store, fs) := by
  unfold JournalStore.rollover
  refine wp_step randomId_spec ?_ ?_
  swap
  · intro _ s ⟨same, kept, _⟩
    exact ⟨same, v, kept ▸ shows, .refl _ v⟩
  intro id ⟨store', fs'⟩ ⟨same, kept, nonzero⟩
  obtain rfl : fs' = fs := kept
  apply wp_reads
  refine wp_checks (fun _ => ?_) fun _ => ⟨same, v, shows, .refl _ v⟩
  have owns' := owns.same same
  have current : store'.currentSegmentId = store.currentSegmentId := by
    obtain ⟨_, _, -, rfl⟩ := same
    rfl
  rw [owns'.database, owns'.epoch, owns'.writer, current]
  refine wp_step (sealed_spec owns'.opens.key) ?_ ?_
  swap
  · intro _ s ⟨again, kept, _⟩
    exact ⟨same.trans again, v, kept ▸ shows, .refl _ v⟩
  intro encoded ⟨store'', fs''⟩ ⟨again, kept, isSealed⟩
  obtain rfl : fs'' = fs' := kept
  have same := same.trans again
  refine wp_lifts (fun _ _ => ?_) fun _ _ => ⟨same, v, shows, .refl _ v⟩
  have fresh : ∀ m, m = segmentName id ∧ v.cells (segmentName id) = none → Fresh v m := by
    rintro _ ⟨rfl, missing⟩
    exact ⟨isSegment_segmentName id, missing⟩
  rw [wp_bind, wp_onSnd]
  refine wp_mono (writeNew_spec M (kept_segmentName id) encoded owns'.directory shows) ?_ ?_
  swap
  · intro _ fs' ⟨v', shows, grows⟩
    exact ⟨same, v', shows, grows.mono fresh⟩
  intro file fs' ⟨v', shows, grows, missing, cell, handle⟩
  have grows := grows.mono fresh
  refine onFiles_step (M.syncDirectory shows (grows.directory owns'.directory)) ?_ ?_
  · intro _ fs' shows
    exact ⟨v'.link, id, file, store'', shows, ⟨grows.trans (.link _ v'), missing, nonzero, handle, encoded,
      View.link_cells cell, isSealed⟩, same, rfl⟩
  · intro _ fs' ⟨shows, _⟩
    rcases shows with shows | shows
    · exact ⟨same, v', shows, grows⟩
    · exact ⟨same, v'.link, shows, grows.trans (.link _ v')⟩

/-- A store whose next group goes to the end of its current segment. -/
structure Placed (c : Charter W) (used : BlobInventory → Prop) (store : JournalStore H W E I) (v : View EntryName H)
    (log : List Entry) (rolled : Bool) : Prop where
  disk : DiskInv c used v log log
  owns : Owns c store v
  /-- The other fields are those of the tip. -/
  tip : AtTip { store with
    currentSegmentId := (Tip.after c log).segment, currentSegmentOffset := (Tip.after c log).offset } (Tip.after c log)
  certificateFile : v.files store.certificateFile certificatesName
  certificates : ∃ cell, v.cells certificatesName = some cell ∧
    cell.bytes.length = smallEnvelopeBytes + log.length * smallEnvelopeBytes
  segmentFile : v.files store.currentSegmentFile (segmentName store.currentSegmentId)
  current : ∃ cell, v.cells (segmentName store.currentSegmentId) = some cell ∧ cell.linked = true ∧
    cell.bytes.length = store.currentSegmentOffset ∧ (rolled = true → Sealed c.key
      (segmentContext c.database c.epoch store.currentSegmentId c.writer 0)
      (SegmentHeader.mk c.database store.currentSegmentId c.writer (Tip.after c log).segment (log.length + 1)).encode
      cell.bytes)
  stays : rolled = false → store.currentSegmentId = (Tip.after c log).segment ∧
    store.currentSegmentOffset = (Tip.after c log).offset
  moves : rolled = true → store.currentSegmentOffset = smallEnvelopeBytes ∧ store.currentSegmentId ≠ Octets.zero 16 ∧
    ∀ header ∈ (Tip.after c log).headers, header.segmentId ≠ store.currentSegmentId

variable {rolled : Bool}

section

variable (h : Placed c used store v log rolled)

include h

theorem Placed.same {store' : JournalStore H W E I} (same : store.Same store') : Placed c used store' v log rolled := by
  have owns := h.owns.same same
  obtain ⟨vault, entropy, -, rfl⟩ := same
  exact { h with owns := owns, tip := { h.tip with } }

theorem Placed.poison (poisoned : Bool) : Placed c used { store with poisoned := poisoned } v log rolled :=
  { h with owns := { h.owns with }, tip := { h.tip with } }

theorem Placed.stuck (poisoned : store.poisoned = true) : Stuck c used store v log Late :=
  ⟨poisoned, h.owns, h.tip.inventories, h.tip.frontier, h.tip.digest, log, log, h.disk, .inl rfl, .inl rfl⟩

end

theorem Stored.linked {cell : Cell} {header : SegmentHeader} (stored : Stored c used v log)
    (mem : header ∈ (Tip.after c log).headers) (found : v.cells (segmentName header.segmentId) = some cell) :
    cell.linked = true := by
  obtain ⟨bytes, there, -⟩ := (stored.later _).segment header mem rfl
  by_contra unlinked
  simp [View.later, found, Cell.crash, unlinked] at there

section

variable (live : LiveInv c used store v log)

include live

theorem LiveInv.placed : Placed c used store v log false where
  disk := live.disk
  owns := live.owns
  tip := { live.tip with segment := rfl, offset := rfl }
  certificateFile := live.certificateFile
  certificates := live.certificates
  segmentFile := by
    rw [live.tip.segment]
    exact live.segmentFile
  current := by
    obtain ⟨cell, found, length⟩ := live.current
    obtain ⟨header, mem, same⟩ := live.disk.stored.chain.current
    rw [live.tip.segment, live.tip.offset]
    exact ⟨cell, found, live.disk.stored.linked mem (same ▸ found), length, nofun⟩
  stays _ := ⟨live.tip.segment, live.tip.offset⟩
  moves := nofun

/-- A new segment takes the next group. -/
theorem Placed.roll [Primitives.Lawful] {id : Octets 16} {file : H.File}
    (opened : NewSegment c v v' ⟨c.database, id, c.writer, (Tip.after c log).segment, log.length + 1⟩ file) :
    Placed c used { store with
      currentSegmentId := id, currentSegmentFile := file, currentSegmentOffset := smallEnvelopeBytes } v' log true where
  disk := live.disk.fresh opened.grows
  owns := { live.owns.grow opened.grows with }
  tip := { live.tip with segment := rfl, offset := rfl }
  certificateFile := opened.grows.files _ _ live.certificateFile
  certificates := opened.grows.keeps_length (fun fresh => nomatch fresh.1) live.certificates
  segmentFile := opened.handle
  current := by
    obtain ⟨front, found, isSealed⟩ := opened.front
    exact ⟨_, found, rfl, small_sealed isSealed, fun _ => isSealed⟩
  stays := nofun
  moves _ := by
    refine ⟨rfl, opened.nonzero, fun header mem same => ?_⟩
    obtain ⟨bytes, there, -⟩ := (live.disk.stored.now _).segment header mem rfl
    rw [same, View.now, opened.missing] at there
    cases there

theorem placeGroup_spec [Primitives.Lawful] [EntropySource E] [EntropySource I] {group first : List UInt8}
    (shows : M.Shows fs v)
    (isSealed : Sealed c.key (segmentContext c.database c.epoch store.currentSegmentId c.writer (log.length + 1)) group first)
    (sized : validateGroupEncodedLength first.length = .ok ()) :
    wp (JournalStore.placeGroup group (log.length + 1) (store.currentSegmentOffset + first.length) first)
      (fun encoded s => ∃ v' rolled, M.Shows s.2 v' ∧ v.Grows Repairs v' ∧ Placed c used s.1 v' log rolled ∧
        encoded.length = first.length ∧
        s.1.currentSegmentOffset + first.length ≤ journalSegmentLimit ∧
        Sealed c.key (segmentContext c.database c.epoch s.1.currentSegmentId c.writer (log.length + 1)) group encoded)
      (fun _ s => ∃ v', M.Shows s.2 v' ∧ Stuck c used s.1 v' log fun _ => False) (store, fs) := by
  unfold JournalStore.placeGroup
  split
  case isFalse fits =>
    exact ⟨v, false, shows, .refl _ v, live.placed, rfl, Nat.le_of_not_lt fits, isSealed⟩
  case isTrue =>
    rw [wp_bind, JournalStore.poison, JournalStore.modify, wp_update]
    have owns : Owns c { store with poisoned := true } v := { live.owns with }
    refine wp_step (rollover_spec M owns shows) ?_ ?_
    swap
    · rintro _ s ⟨same, v', shows, grows⟩
      exact ⟨v', shows, Stuck.same ⟨rfl, owns.grow grows, live.tip.inventories, live.tip.frontier, live.tip.digest, log, log,
        live.disk.fresh grows, .inl rfl, .inl rfl⟩ same⟩
    rintro _ ⟨store', fs'⟩ ⟨v', id, file, origin, shows, opened, same, rolled⟩
    dsimp only at rolled shows
    have opened : NewSegment c v v' ⟨c.database, id, c.writer, (Tip.after c log).segment, log.length + 1⟩ file := by
      rw [← live.tip.segment]
      exact opened
    have placed : Placed c used store' v' log true := by
      rw [rolled]
      obtain ⟨vault, entropy, same, rfl⟩ := same
      exact ((Placed.roll live opened).poison true).same ⟨vault, entropy, same, rfl⟩
    have poisoned : store'.poisoned = true := by
      obtain ⟨vault, entropy, -, rfl⟩ := same
      rw [rolled]
    rw [wp_bind, wp_read]
    dsimp only
    rw [placed.owns.database, placed.owns.epoch, placed.owns.writer]
    refine wp_mono (sealed_spec placed.owns.opens.key) ?_ ?_
    · rintro encoded s ⟨again, kept, isSealed'⟩
      have still := placed.same again
      have segment : s.1.currentSegmentId = store'.currentSegmentId := by
        obtain ⟨_, _, -, same⟩ := again
        rw [same]
      have size : encoded.length = first.length := isSealed'.length.trans isSealed.length.symm
      refine ⟨v', true, kept ▸ shows, opened.grows.mono fun _ fresh => .inr fresh.1, still, size, ?_, segment ▸ isSealed'⟩
      rw [(still.moves rfl).1]
      have bounded := (require_ok.mp sized).2.1
      simp only [smallEnvelopeBytes, maxPlaintextBytes, journalSegmentLimit] at bounded ⊢
      omega
    · rintro _ s ⟨again, kept, _⟩
      exact ⟨v', kept ▸ shows, (placed.stuck poisoned).same again⟩

end

end Placing

/-! ### Committing a group -/

section Committing

variable {F W E I : Type} {H : Handles} [FileSystem F H] [Primitives] {quiet : Prop} (M : FileModel F Kept quiet)
  {fs : F} {v v' : View EntryName H} {c : Charter W} {used : BlobInventory → Prop} {log : List Entry} {e : Entry}
  {store : JournalStore H W E I} {rolled : Bool} {inventory : Option BlobInventory} {input : CommitInput}

structure Entry.Records (e : Entry) (input : CommitInput) (inventory : Option BlobInventory) : Prop where
  group : e.group = input.encodedGroup
  logicalEventDigest : e.logicalEventDigest = input.logicalEventDigest
  inventory : e.inventory = inventory

/-- Everything but the group that an entry with this inventory needs is in place, now and after a crash. -/
structure Prepared (c : Charter W) (used : BlobInventory → Prop) (v : View EntryName H) (tip : Tip)
    (inventory : Option BlobInventory) : Prop where
  valid : ∀ i, inventory = some i → used i ∧ i.isEmpty = false ∧ i.scope.database = c.database
  file : ∀ i, inventory = some i → ∀ content ∈ [v.now (c.inventoryName i.digest), v.later (c.inventoryName i.digest)],
    ∃ bytes, content = some bytes ∧ InventoryOk c i bytes
  references : ∀ r ∈ referencesOf inventory, c.Verified v.now r ∧ c.Verified v.later r
  bindings : tip.bindings + (referencesOf inventory).length ≤ maxBlobReferenceBindingsPerJournal
  registered : (referencesOf inventory).foldlM registerCommittedBlob tip.committed =
    .ok (tip.registered (referencesOf inventory))

theorem Prepared.none (chain : Chain c used log) : Prepared c used v (Tip.after c log) none where
  valid := nofun
  file := nofun
  references := nofun
  bindings := chain.bindings_le
  registered := rfl

theorem Prepared.grow {tip : Tip} (h : Prepared c used v tip inventory) (grows : v.Grows Repairs v') :
    Prepared c used v' tip inventory where
  valid := h.valid
  file i found := by
    have outside : ¬ Repairs (c.inventoryName i.digest) := by
      rintro (same | segment)
      · cases same
      · exact ((kinds_disjoint _).1 segment).1 (c.isInventory_inventoryName _)
    obtain ⟨bytes, now, ok⟩ := h.file i found (v.now (c.inventoryName i.digest)) (by simp)
    obtain ⟨bytes', later, ok'⟩ := h.file i found (v.later (c.inventoryName i.digest)) (by simp)
    simp only [mem_cons, not_mem_nil, or_false, forall_eq_or_imp, forall_eq]
    exact ⟨⟨bytes, (grows.now outside).trans now, ok⟩, bytes', grows.later outside later, ok'⟩
  references r mem := by
    have outside : ∀ n, IsChunk n → ¬ Repairs n := by
      rintro n chunk (rfl | segment)
      · cases chunk
      · exact ((kinds_disjoint n).1 segment).2 chunk
    obtain ⟨now, later⟩ := h.references r mem
    refine ⟨now.mono fun n bytes chunk found => ?_, later.mono fun n bytes chunk found => ?_⟩
    · rwa [grows.now (outside n chunk)]
    · exact grows.later (outside n chunk) found
  bindings := h.bindings
  registered := h.registered

variable {suffix : List UInt8}

theorem SegmentOk.append {header : SegmentHeader} {bytes : List UInt8} (ok : SegmentOk c log header bytes)
    (short : (bytes ++ suffix).length ≤ journalSegmentLimit) : SegmentOk c log header (bytes ++ suffix) where
  length := short
  front := by
    obtain ⟨front, isSealed, cut⟩ := ok.front
    exact ⟨front, isSealed, cut.trans (prefix_append _ _)⟩
  groups e mem same := by
    rw [drop_append]
    exact (ok.groups e mem same).trans (prefix_append _ _)

variable {cell : Cell}

section

variable (placed : Placed c used store v log rolled) (found : v.cells (segmentName store.currentSegmentId) = some cell)

include placed found

theorem Placed.fit (short : (cell.bytes ++ suffix).length ≤ journalSegmentLimit) :
    Fit c log (segmentName store.currentSegmentId) (some (cell.bytes ++ suffix)) := by
  refine Fit.of_segment fun header mem same => ?_
  obtain ⟨held, there, ok⟩ := placed.disk.stored.segment_cell mem
  rw [same, found] at there
  cases there
  exact ok.append short

theorem Placed.disk_write (short : (cell.bytes ++ suffix).length ≤ journalSegmentLimit) :
    DiskInv c used (v.write (segmentName store.currentSegmentId) (· ++ suffix)) log log := by
  have apart := (kinds_disjoint _).1 (isSegment_segmentName store.currentSegmentId)
  exact placed.disk.grow (.write (P := (· = segmentName store.currentSegmentId)) _ rfl) nofun
    (placed.disk.stored.write found apart.2 (placed.fit found short) fun isInventory => absurd isInventory apart.1)

theorem Placed.disk_sync (short : (cell.bytes ++ suffix).length ≤ journalSegmentLimit) :
    DiskInv c used ((v.write (segmentName store.currentSegmentId) (· ++ suffix)).sync
      (segmentName store.currentSegmentId)) log log := by
  have apart := (kinds_disjoint _).1 (isSegment_segmentName store.currentSegmentId)
  have written := placed.disk_write found short
  exact written.grow (.sync (P := (· = segmentName store.currentSegmentId)) rfl) nofun (written.stored.sync apart.2)

theorem Placed.stored_entry (linked : cell.linked = true) (length : cell.bytes.length = store.currentSegmentOffset)
    (front : rolled = true → Sealed c.key (segmentContext c.database c.epoch store.currentSegmentId c.writer 0)
      (SegmentHeader.mk c.database store.currentSegmentId c.writer (Tip.after c log).segment (log.length + 1)).encode
      cell.bytes)
    (segment : e.segment = store.currentSegmentId) (offset : e.offset = store.currentSegmentOffset)
    (roll : e.rolled = rolled) (admitted : Admitted c used (Tip.after c log) e)
    (prepared : Prepared c used v (Tip.after c log) e.inventory) :
    Stored c used ((v.write (segmentName store.currentSegmentId) (· ++ e.encodedGroup)).sync
      (segmentName store.currentSegmentId)) (log ++ [e]) := by
  have within := admitted.within
  have short : (cell.bytes ++ e.encodedGroup).length ≤ journalSegmentLimit := by
    rwa [length_append, length, ← offset]
  have grows : v.Grows Repairs ((v.write (segmentName store.currentSegmentId) (· ++ e.encodedGroup)).sync
      (segmentName store.currentSegmentId)) :=
    (View.Grows.write (P := Repairs) _ (.inr (isSegment_segmentName _))).trans (.sync (.inr (isSegment_segmentName _)))
  have written := View.write_cells_self found (· ++ e.encodedGroup)
  have prepared := prepared.grow grows
  refine (placed.disk_sync found short).stored.snoc admitted ?_ prepared.file prepared.references
  rw [segment, View.sync_later_self written linked, View.sync_now, View.write_now_self found]
  intro content mem
  have same : content = some (cell.bytes ++ e.encodedGroup) := by simpa using mem
  refine ⟨_, same, short, ?_, fun moved => ⟨cell.bytes, prefix_append _ _, ?_⟩⟩
  · have rest : (cell.bytes ++ e.encodedGroup).drop e.offset = e.encodedGroup := by rw [offset, ← length, drop_left]
    exact ⟨[], by rw [append_nil, rest]⟩
  · rw [Tip.header, Tip.after_count, segment]
    exact front (roll.symm.trans moved)

end

section Certificates

variable [Primitives.Lawful] {bytes part : List UInt8}

section

variable (certified : Certified c log bytes) (chain : Chain c used log) (length : bytes.length = smallEnvelopeBytes + log.length * smallEnvelopeBytes)

include certified chain length

theorem Certified.whole : ∃ front, Sealed c.key (certificateContext c.database c.epoch c.certificateLogId c.writer 0)
      (certificateHeader c.database c.certificateLogId c.writer) front ∧
      bytes = front ++ log.flatMap Entry.encodedCertificate := by
  obtain ⟨front, torn, isSealed, rfl, -, -⟩ := certified
  have size := small_sealed isSealed
  rw [length_append, length_append, size, chain.length_certificates] at length
  have none : torn = [] := length_eq_zero_iff.mp (by omega)
  exact ⟨front, isSealed, by rw [none, append_nil]⟩

theorem Certified.torn (short : part.length < smallEnvelopeBytes)
    (room : smallEnvelopeBytes * (log.length + 2) ≤ certificateLogLimit) : Certified c log (bytes ++ part) := by
  obtain ⟨front, isSealed, whole⟩ := certified.whole chain length
  refine ⟨front, part, isSealed, by rw [whole], short, ?_⟩
  rw [length_append, length]
  simp only [smallEnvelopeBytes] at *
  omega

theorem Certified.snoc (small : e.encodedCertificate.length = smallEnvelopeBytes)
    (room : smallEnvelopeBytes * (log.length + 2) ≤ certificateLogLimit) :
    Certified c (log ++ [e]) (bytes ++ e.encodedCertificate) := by
  obtain ⟨front, isSealed, whole⟩ := certified.whole chain length
  refine ⟨front, [], isSealed, by simp [whole], by decide, ?_⟩
  rw [length_append, length, small]
  simp only [smallEnvelopeBytes] at *
  omega

end

variable {cell : Cell}

section

variable (inv : DiskInv c used v log log) (stored : Stored c used v (log ++ [e])) (found : v.cells certificatesName = some cell) (length : cell.bytes.length = smallEnvelopeBytes + log.length * smallEnvelopeBytes)

include inv stored found length

theorem DiskInv.certify : DiskInv c used (v.write certificatesName (· ++ e.encodedCertificate)) (log ++ [e]) log ∧
    DiskInv c used ((v.write certificatesName (· ++ e.encodedCertificate)).sync certificatesName) (log ++ [e])
      (log ++ [e]) := by
  obtain ⟨_, found', linked, certified, certified'⟩ := inv.certificates
  obtain rfl := Option.some.inj (found'.symm.trans found)
  have grows : v.Grows (· = certificatesName) (v.write certificatesName (· ++ e.encodedCertificate)) := .write _ rfl
  have admitted := stored.chain.last
  have room := admitted.log
  rw [Tip.after_count] at room
  have written := View.write_cells_self found (· ++ e.encodedCertificate)
  have complete := certified.snoc inv.stored.chain length admitted.small room
  exact ⟨⟨stored.certificates grows, prefix_append _ _, _, written, linked, complete, certified'⟩,
    stored.certificates (grows.trans (.sync rfl)), prefix_rfl, _, View.sync_cells_self written, linked, complete,
    complete⟩

theorem DiskInv.certify_part (k : Nat) : ∃ visible, (visible = log ∨ visible = log ++ [e]) ∧
      DiskInv c used (v.write certificatesName (· ++ e.encodedCertificate.take k)) visible log := by
  obtain ⟨_, found', linked, certified, certified'⟩ := inv.certificates
  obtain rfl := Option.some.inj (found'.symm.trans found)
  have grows : v.Grows (· = certificatesName) (v.write certificatesName (· ++ e.encodedCertificate.take k)) := .write _ rfl
  have admitted := stored.chain.last
  have room := admitted.log
  rw [Tip.after_count] at room
  have written := View.write_cells_self found (· ++ e.encodedCertificate.take k)
  by_cases all : e.encodedCertificate.length ≤ k
  · rw [take_of_length_le all]
    exact ⟨log ++ [e], .inr rfl, (inv.certify stored found length).1⟩
  · have short : (e.encodedCertificate.take k).length < smallEnvelopeBytes := by
      rw [← admitted.small, length_take]
      omega
    exact ⟨log, .inl rfl, inv.stored.certificates grows, prefix_rfl, _, written, linked,
      certified.torn inv.stored.chain length short room, certified'⟩

end

end Certificates

/-- What a store is after an entry, up to the registration of its references. -/
structure Advanced (c : Charter W) (used : BlobInventory → Prop) (store store' : JournalStore H W E I)
    (v : View EntryName H) (log : List Entry) : Prop where
  live : LiveInv c used { store' with
    committedBlobs := (Tip.after c log).committed.1
    committedBlobBytes := (Tip.after c log).committed.2
    committedBlobReferenceBindings := (Tip.after c log).bindings } v log
  blobs : store'.committedBlobs = store.committedBlobs
  blobBytes : store'.committedBlobBytes = store.committedBlobBytes
  bindings : store'.committedBlobReferenceBindings = store.committedBlobReferenceBindings

variable {revision : CommitRevision}

section

variable (placed : Placed c used store v log rolled) (noCollision : Collisionless c.toOrigin used)

include placed noCollision

theorem Placed.advance {groupLength : Nat} {digest : Octets 32}
    (admitted : Admitted c used (Tip.after c log) e) (segment : e.segment = store.currentSegmentId)
    (offset : e.offset = store.currentSegmentOffset) (number : e.revision = revision)
    (length : e.encodedGroup.length = groupLength) (named : digest = e.inventoryDigest) : AtTip { store with
      currentSegmentOffset := store.currentSegmentOffset + groupLength
      frontier := some revision
      previousCertificateDigest := sha256 e.encodedCertificate
      certificateAnchors :=
        if store.certificateReadLimits.isNone then store.certificateAnchors.insert revision (sha256 e.encodedCertificate)
        else store.certificateAnchors
      committedBlobInventories :=
        if digest ≠ emptyBlobInventoryDigest then store.committedBlobInventories.insert digest
        else store.committedBlobInventories
      poisoned := false
      committedBlobs := (Tip.after c (log ++ [e])).committed.1
      committedBlobBytes := (Tip.after c (log ++ [e])).committed.2
      committedBlobReferenceBindings := (Tip.after c (log ++ [e])).bindings } (Tip.after c (log ++ [e])) := by
  have anchors := placed.tip.anchors
  have inventories := placed.tip.inventories
  rw [Tip.after_snoc]
  refine ⟨segment.symm, ?_, by rw [← number]; rfl, rfl, ?_, ?_, rfl, rfl, rfl⟩
  · rw [← offset, ← length]
    rfl
  · rw [anchors, ← number]
    split
    · rfl
    · rfl
  · rw [inventories, named]
    unfold Tip.next
    cases found : e.inventory with
    | none => rw [Entry.inventoryDigest_none found, if_neg (not_not_intro rfl)]
    | some i =>
      obtain ⟨inUse, nonempty, -⟩ := admitted.inventory i found
      rw [Entry.inventoryDigest_some found, if_pos (noCollision.ne_empty inUse nonempty)]

theorem certifyGroup_spec [Primitives.Lawful] [EntropySource E] {encoded : List UInt8}
    (prepared : Prepared c used v (Tip.after c log) inventory) (number : revision.value = log.length + 1)
    (isSealed : Sealed c.key (segmentContext c.database c.epoch store.currentSegmentId c.writer (log.length + 1))
      input.encodedGroup encoded)
    (sized : validateGroupEncodedLength encoded.length = .ok ())
    (within : store.currentSegmentOffset + encoded.length ≤ journalSegmentLimit)
    (room : smallEnvelopeBytes * (log.length + 2) ≤ certificateLogLimit) (shows : M.Shows fs v) :
    wp (JournalStore.certifyGroup input (digestOf inventory) revision
        (smallEnvelopeBytes + log.length * smallEnvelopeBytes) encoded.length encoded)
      (fun durable s => ∃ v' e, M.Shows s.2 v' ∧ e.Records input inventory ∧
        durable = ⟨e.revision, sha256 e.encodedCertificate⟩ ∧ Advanced c used store s.1 v' (log ++ [e]))
      (fun err s => ∃ v', M.Shows s.2 v' ∧ Stuck c used s.1 v' log fun e => e.Records input inventory ∧
        ∃ kind, err = .adapter kind) (store, fs) := by
  obtain ⟨cell, found, linked, length, front⟩ := placed.current
  have short {part : List UInt8} (le : part.length ≤ encoded.length) : (cell.bytes ++ part).length ≤ journalSegmentLimit := by
    rw [length_append, length]
    omega
  have halted : Placed c used { store with poisoned := true } v log rolled := placed.poison true
  have stuck : ∀ {v' : View EntryName H} {Late : Entry → Prop}, v.Grows Repairs v' → DiskInv c used v' log log →
      Stuck c used { store with poisoned := true } v' log Late := fun grows inv =>
    ⟨rfl, halted.owns.grow grows, placed.tip.inventories, placed.tip.frontier, placed.tip.digest, log, log, inv, .inl rfl, .inl rfl⟩
  have segment : Repairs (segmentName store.currentSegmentId) := .inr (isSegment_segmentName _)
  unfold JournalStore.certifyGroup
  have write := M.writeAllAt_spec shows placed.segmentFile found encoded
  rw [length] at write
  refine onFiles_step write ?_ ?_
  swap
  · intro _ fs' ⟨_, k, shows⟩
    exact ⟨_, shows, stuck (.write _ segment) (placed.disk_write found (short (length_take_le' k encoded)))⟩
  intro _ fs' shows
  have written' := View.write_cells_self found (· ++ encoded)
  have short := short (Nat.le_refl encoded.length)
  have grows : v.Grows Repairs (v.write (segmentName store.currentSegmentId) (· ++ encoded)) := .write _ segment
  have grows' := grows.trans (.sync segment)
  have inv' := placed.disk_sync found short
  refine onFiles_step (M.syncData shows placed.segmentFile written') ?_ ?_
  swap
  · intro _ fs' ⟨after, _⟩
    rcases after with shows | shows
    · exact ⟨_, shows, stuck grows (placed.disk_write found short)⟩
    · exact ⟨_, shows, stuck grows' inv'⟩
  intro _ fs' shows
  refine wp_step (sealed_spec halted.owns.opens.key) ?_ ?_
  swap
  · intro _ s ⟨same, kept, _⟩
    exact ⟨_, kept ▸ shows, (stuck grows' inv').same same⟩
  intro encodedCertificate ⟨store', fs''⟩ ⟨same, kept, isSealed'⟩
  obtain rfl : fs'' = fs' := kept
  have digest := placed.tip.digest
  rw [placed.owns.database, placed.owns.epoch, placed.owns.writer, placed.owns.certificateLogId, number, digest] at isSealed'
  -- the entry these bytes stand for
  let e : Entry := ⟨revision, input.encodedGroup, input.logicalEventDigest, inventory, store.currentSegmentId, rolled,
    store.currentSegmentOffset, encoded, encodedCertificate⟩
  have admitted : Admitted c used (Tip.after c log) e := {
    revision := by rw [Tip.after_count]; exact number
    placed := placed.stays
    rolled := placed.moves
    group := by rw [Tip.after_count]; exact isSealed
    length := sized
    within := within
    log := by rw [Tip.after_count]; exact room
    certificate := by
      unfold Tip.certificate
      rw [Tip.after_count]
      exact isSealed'
    bindings := prepared.bindings
    registered := prepared.registered
    inventory := prepared.valid }
  have stored := placed.stored_entry (e := e) found linked length front rfl rfl rfl admitted prepared
  refine wp_lifts (fun _ _ => ?_) fun _ _ => ⟨_, shows, (stuck grows' inv').same same⟩
  obtain ⟨held, there, exactly⟩ := placed.certificates
  have apart : certificatesName ≠ segmentName store.currentSegmentId := nofun
  have there' : ((v.write (segmentName store.currentSegmentId) (· ++ encoded)).sync
      (segmentName store.currentSegmentId)).cells certificatesName = some held := by
    rw [View.sync_cells_of_ne apart, View.write_cells_of_ne apart, there]
  have owns' := (halted.owns.grow grows').same same
  have halting : Stuck c used store' _ log fun _ => False := (stuck grows' inv').same same
  have records : e.Records input inventory := ⟨rfl, rfl, rfl⟩
  have write := M.writeAllAt_spec shows placed.certificateFile there' encodedCertificate
  rw [exactly] at write
  refine onFiles_step write ?_ ?_
  swap
  · intro kind fs' ⟨_, k, shows⟩
    obtain ⟨visible, which, inv⟩ := inv'.certify_part stored there' exactly k
    refine ⟨_, shows, { halting with owns := { owns' with }, disk := ⟨visible, log, inv, ?_, .inl rfl⟩ }⟩
    exact which.imp id fun same => ⟨e, ⟨records, kind, rfl⟩, same⟩
  intro _ fs' shows
  obtain ⟨written, committed⟩ := inv'.certify stored there' exactly
  have cell' := View.write_cells_self there' (· ++ encodedCertificate)
  refine onFiles_step (M.syncData shows placed.certificateFile cell') ?_ ?_
  swap
  · intro kind fs' ⟨after, _⟩
    rcases after with shows | shows
    · exact ⟨_, shows, { halting with
        owns := { owns' with }, disk := ⟨_, _, written, .inr ⟨e, ⟨records, kind, rfl⟩, rfl⟩, .inl rfl⟩ }⟩
    · exact ⟨_, shows, { halting with
        owns := { owns' with }, disk := ⟨_, _, committed, .inr ⟨e, ⟨records, kind, rfl⟩, rfl⟩, .inr rfl⟩ }⟩
  intro _ fs' shows
  have advanced := placed.advance (e := e) noCollision admitted rfl rfl rfl rfl rfl
  have final : (Tip.after c (log ++ [e])).segment = store.currentSegmentId := by rw [Tip.after_snoc]; rfl
  have ending : (Tip.after c (log ++ [e])).offset = store.currentSegmentOffset + encoded.length := by
    rw [Tip.after_snoc]
    rfl
  obtain ⟨vault, entropy, -, rfl⟩ := same
  refine ⟨_, e, shows, records, rfl, ?_, rfl, rfl, rfl⟩
  exact {
    disk := committed
    owns := { owns' with }
    tip := { advanced with }
    healthy := rfl
    certificateFile := placed.certificateFile
    segmentFile := by
      rw [final]
      exact placed.segmentFile
    certificates := by
      refine ⟨_, View.sync_cells_self cell', ?_⟩
      rw [length_append, exactly, admitted.small, length_append, length_singleton, Nat.succ_mul,
        Nat.add_assoc]
    current := by
      rw [final, ending, View.sync_cells_of_ne apart.symm, View.write_cells_of_ne apart.symm]
      refine ⟨_, View.sync_cells_self written', ?_⟩
      rw [length_append, length] }

end

theorem nextRevision_ok {tip : Tip} (chain : Chain c used log) (here : tip = Tip.after c log)
    (h : JournalStore.nextRevision tip.frontier = .ok revision) : revision.value = log.length + 1 := by
  rcases chain.frontier_eq with ⟨frontier, size⟩ | ⟨last, frontier, size⟩
  · rw [here, frontier] at h
    cases h
    rw [size]
    rfl
  · rw [here, frontier, JournalStore.nextRevision] at h
    cases next : last.checkedNext with
    | error _ =>
      rw [next] at h
      cases h
    | ok following =>
      rw [next] at h
      cases h
      rw [CommitRevision.checkedNext_ok next, size]

omit [Primitives] in
theorem certificateOffset_ok {n offset : Nat} (h : certificateOffset (n + 1) = .ok offset) :
    offset = smallEnvelopeBytes + n * smallEnvelopeBytes := by
  obtain ⟨before, first, h⟩ := bind_ok h
  rw [(checked_ok h).2, (checked_ok first).2, Nat.add_sub_cancel]

def Journaled (c : Charter W) (used : BlobInventory → Prop) (store : JournalStore H W E I) (v : View EntryName H)
    (log : List Entry) (Late : Entry → Prop) : Prop :=
  LiveInv c used store v log ∨ Stuck c used store v log Late

theorem appendGroupInternal_spec [Primitives.Lawful] [EntropySource E] [EntropySource I]
    (live : LiveInv c used store v log) (noCollision : Collisionless c.toOrigin used)
    (prepared : Prepared c used v (Tip.after c log) inventory) (shows : M.Shows fs v) :
    wp (JournalStore.appendGroupInternal input (digestOf inventory))
      (fun durable s => ∃ v' e, M.Shows s.2 v' ∧ e.Records input inventory ∧
        durable = ⟨e.revision, sha256 e.encodedCertificate⟩ ∧ Advanced c used store s.1 v' (log ++ [e]))
      (fun err s => ∃ v', M.Shows s.2 v' ∧ Journaled c used s.1 v' log fun e => e.Records input inventory ∧
        ∃ kind, err = .adapter kind) (store, fs) := by
  have refused : ∀ {err : StorageError} {store' : JournalStore H W E I}, store.Same store' →
      ∃ v', M.Shows fs v' ∧ Journaled c used store' v' log fun e => e.Records input inventory ∧
        ∃ kind, err = .adapter kind := fun same => ⟨v, shows, .inl (live.same same)⟩
  have chain := live.disk.stored.chain
  unfold JournalStore.appendGroupInternal
  apply wp_pass live.healthy
  refine wp_checks (fun _ => ?_) fun _ => refused (.refl store)
  refine wp_lifts (fun revision next => ?_) fun _ _ => refused (.refl store)
  have number : revision.value = log.length + 1 := by
    rw [live.tip.frontier] at next
    exact nextRevision_ok chain rfl next
  refine wp_lifts (fun offset place => ?_) fun _ _ => refused (.refl store)
  rw [number] at place
  obtain rfl := certificateOffset_ok place
  rw [wp_bind, wp_lift]
  refine ⟨fun certificateEnd sum => ?_, fun _ _ => refused (.refl store)⟩
  obtain ⟨-, rfl⟩ := checked_ok sum
  rw [wp_bind, wp_ensure]
  refine ⟨fun room => ?_, fun _ => refused (.refl store)⟩
  have room : smallEnvelopeBytes * (log.length + 2) ≤ certificateLogLimit := by
    rw [Nat.mul_add, Nat.mul_comm]
    omega
  refine wp_step (sealed_spec live.owns.opens.key) ?_ ?_
  swap
  · intro _ s ⟨same, kept, _⟩
    rw [kept]
    exact refused same
  intro first ⟨store', fs'⟩ ⟨same, kept, isSealed⟩
  obtain rfl : fs' = fs := kept
  refine wp_lifts (fun _ sized => ?_) fun _ _ => refused same
  refine wp_lifts (fun projectedEnd sum => ?_) fun _ _ => refused same
  obtain ⟨-, rfl⟩ := checked_ok sum
  rw [live.owns.database, live.owns.epoch, live.owns.writer, number] at isSealed
  rw [number]
  obtain ⟨vault, entropy, same, rfl⟩ := same
  refine wp_step (placeGroup_spec M (live.same ⟨vault, entropy, same, rfl⟩) shows isSealed sized) ?_ ?_
  swap
  · intro _ s ⟨v', shows, stuck⟩
    exact ⟨v', shows, .inr (stuck.mono nofun)⟩
  intro encoded ⟨store', fs''⟩ ⟨v', rolled, shows, grows, placed, size, within, isSealed'⟩
  rw [← size] at sized within ⊢
  have certified := certifyGroup_spec M placed noCollision (prepared.grow grows) number isSealed' sized within room shows
  refine wp_mono certified ?_ fun _ s ⟨v', shows, stuck⟩ => ⟨v', shows, .inr stuck⟩
  intro durable s ⟨v', e, shows, records, returned, advanced⟩
  refine ⟨v', e, shows, records, returned, advanced.live, ?_, ?_, ?_⟩
  · exact advanced.blobs.trans (placed.tip.blobs.trans live.tip.blobs.symm)
  · exact advanced.blobBytes.trans (placed.tip.blobBytes.trans live.tip.blobBytes.symm)
  · exact advanced.bindings.trans (placed.tip.bindings.trans live.tip.bindings.symm)

end Committing

end Uste.Storage
