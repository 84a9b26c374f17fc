import Uste.Storage.Ledger

/-!
What the directory of a journal holds for a list of entries, now and after a crash. Everything but
the certificate log is said name by name (`Fit`), so that an operation on one file has to be
looked at for that file only.
-/

namespace Uste.Storage

open Types Crypto Program FileSystem Std List

namespace Origin

variable [Primitives]

def inventoryName (o : Origin) (digest : Octets 32) : EntryName :=
  taggedName 105 inventory_letter (derivePublicToken o.key (inventoryNameContext o.database o.epoch o.writer) digest).bytes
    (by simp)

theorem inventoryName_eq {W E : Type} {o : Origin} {vault : KeyVault W E} (opens : o.Opens vault) (digest : Octets 32) :
    Storage.inventoryName vault o.database o.epoch o.writer digest = .ok (o.inventoryName digest) := by
  rw [Storage.inventoryName, KeyVault.deriveOpaqueIdentifier, require_pos _ ⟨opens.database.symm, .inl rfl⟩, ok_bind,
    opens.key]
  rfl

theorem isInventory_inventoryName (o : Origin) (digest : Octets 32) : IsInventory (o.inventoryName digest) := by
  refine ⟨rfl, ?_⟩
  simp [inventoryName, taggedName, EntryName.ofTag]

end Origin

theorem Collisionless.names [Primitives] {o : Origin} {used : BlobInventory → Prop} (d : Collisionless o used)
    {a b : BlobInventory} (ha : used a) (hb : used b) (same : o.inventoryName a.digest = o.inventoryName b.digest) :
    a.digest = b.digest :=
  d.tokens a b ha hb (Octets.ext (taggedName_injective same))

section

variable {W : Type} [Primitives] (c : Charter W) (used : BlobInventory → Prop)

def Charter.manifest (c : Charter W) : Manifest := ⟨c.database, c.writer, c.epoch, c.certificateLogId, c.initialSegmentId⟩

/-- The bytes of a segment: its header, and every group of its entries at its offset. -/
structure SegmentOk (log : List Entry) (header : SegmentHeader) (bytes : List UInt8) : Prop where
  length : bytes.length ≤ journalSegmentLimit
  front : ∃ front, Sealed c.key (segmentContext c.database c.epoch header.segmentId c.writer 0) header.encode front ∧
    front <+: bytes
  groups : ∀ e ∈ log, e.segment = header.segmentId → e.encodedGroup <+: bytes.drop e.offset

def InventoryOk (inventory : BlobInventory) (bytes : List UInt8) : Prop :=
  Sealed c.key (inventoryContext c.database c.epoch c.writer inventory.digest) inventory.encoded bytes

/-- What a name has to hold for the entries of a log. -/
structure Fit (log : List Entry) (n : EntryName) (content : Option (List UInt8)) : Prop where
  lock : n = lockName → ∃ bytes, content = some bytes
  key : n = keyName → content = some c.keyBytes
  manifest : n = manifestName → ∃ bytes, content = some bytes ∧
    Sealed c.key (manifestContext c.database c.epoch) c.manifest.encode bytes
  segment : ∀ header ∈ (Tip.after c log).headers, n = segmentName header.segmentId →
    ∃ bytes, content = some bytes ∧ SegmentOk c log header bytes
  inventory : ∀ e ∈ log, ∀ inventory, e.inventory = some inventory → n = c.inventoryName inventory.digest →
    ∃ bytes, content = some bytes ∧ InventoryOk c inventory bytes

def Draft (n : EntryName) (bytes : List UInt8) : Prop :=
  ∃ inventory whole, used inventory ∧ inventory.isEmpty = false ∧ inventory.scope.database = c.database ∧
    n = c.inventoryName inventory.digest ∧ InventoryOk c inventory whole ∧ bytes <+: whole

/-- The directory holds what the entries need, now and after a crash; the certificates apart. -/
structure Stored {H : Handles} (v : View EntryName H) (log : List Entry) : Prop where
  chain : Chain c used log
  now : ∀ n, Fit c log n (v.now n)
  later : ∀ n, Fit c log n (v.later n)
  references : ∀ e ∈ log, ∀ r ∈ e.references, c.Verified v.now r ∧ c.Verified v.later r
  chunks : ∀ n cell, IsChunk n → v.cells n = some cell → cell.synced = cell.bytes
  drafts : ∀ n cell, IsInventory n → v.cells n = some cell → Draft c used n cell.bytes ∧ Draft c used n cell.synced
  mounted : v.mounted = true
  mount : v.mount = c.finalName

/-- A certificate log: its header, the certificates of the entries, and perhaps a torn one. -/
def Certified (log : List Entry) (bytes : List UInt8) : Prop :=
  ∃ front torn, Sealed c.key (certificateContext c.database c.epoch c.certificateLogId c.writer 0)
      (certificateHeader c.database c.certificateLogId c.writer) front ∧
    bytes = front ++ log.flatMap Entry.encodedCertificate ++ torn ∧ torn.length < smallEnvelopeBytes ∧
    bytes.length ≤ certificateLogLimit

/-- The directory of a journal whose certificates make `visible` committed for a reader, and
`durable` after a crash. -/
structure DiskInv {H : Handles} (v : View EntryName H) (visible durable : List Entry) : Prop where
  stored : Stored c used v visible
  ahead : durable <+: visible
  certificates : ∃ cell, v.cells certificatesName = some cell ∧ cell.linked = true ∧
    Certified c visible cell.bytes ∧ Certified c durable cell.synced

end

section

variable {W : Type} [Primitives] {c : Charter W} {used : BlobInventory → Prop} {log : List Entry} {n : EntryName}
  {content : Option (List UInt8)} {e : Entry}

namespace Fit

theorem of_none (h : Fit c log n none) (content : Option (List UInt8)) : Fit c log n content where
  lock same := by
    obtain ⟨_, impossible⟩ := h.lock same
    cases impossible
  key same := nomatch h.key same
  manifest same := by
    obtain ⟨_, impossible, -⟩ := h.manifest same
    cases impossible
  segment header mem same := by
    obtain ⟨_, impossible, -⟩ := h.segment header mem same
    cases impossible
  inventory e mem inventory found same := by
    obtain ⟨_, impossible, -⟩ := h.inventory e mem inventory found same
    cases impossible

theorem of_head (lock : n ≠ lockName) (key : n ≠ keyName) (manifest : n ≠ manifestName)
    (segment : n.text.head? ≠ some 106) (inventory : n.text.head? ≠ some 105) : Fit c log n content where
  lock same := absurd same lock
  key same := absurd same key
  manifest same := absurd same manifest
  segment header _ same := absurd (same ▸ isSegment_segmentName header.segmentId) segment
  inventory _ _ i _ same := absurd (same ▸ (c.isInventory_inventoryName i.digest).1) inventory

theorem certificates : Fit c log certificatesName content := by
  apply of_head <;> decide

theorem chunk (h : IsChunk n) : Fit c log n content := by
  apply of_head
  · rintro rfl
    cases h
  · rintro rfl
    cases h
  · rintro rfl
    cases h
  all_goals
    rw [h]
    decide

theorem of_segment {id : Octets 16} {bytes : List UInt8}
    (ok : ∀ header ∈ (Tip.after c log).headers, header.segmentId = id → SegmentOk c log header bytes) :
    Fit c log (segmentName id) (some bytes) where
  lock same := nomatch same
  key same := nomatch same
  manifest same := nomatch same
  segment header mem same := ⟨bytes, rfl, ok header mem (segmentName_injective same).symm⟩
  inventory _ _ i _ same :=
    absurd (same ▸ c.isInventory_inventoryName i.digest) ((kinds_disjoint _).1 (isSegment_segmentName id)).1

end Fit

theorem Tip.headers_mono (c : Charter W) (log rest : List Entry) : ∀ header ∈ (after c log).headers,
    header ∈ (after c (log ++ rest)).headers := by
  intro header mem
  induction rest using List.reverseRecOn with
  | nil => rwa [append_nil]
  | append_singleton rest e ih =>
    rw [← append_assoc, after_snoc]
    exact mem_headers_next.mpr (.inl ih)

theorem SegmentOk.of_append {rest : List Entry} {header : SegmentHeader} {bytes : List UInt8}
    (h : SegmentOk c (log ++ rest) header bytes) : SegmentOk c log header bytes :=
  { h with groups := fun e mem => h.groups e (mem_append_left rest mem) }

theorem Fit.of_append {rest : List Entry} (h : Fit c (log ++ rest) n content) : Fit c log n content where
  lock := h.lock
  key := h.key
  manifest := h.manifest
  segment header mem same := by
    obtain ⟨bytes, found, ok⟩ := h.segment header (Tip.headers_mono c log rest header mem) same
    exact ⟨bytes, found, ok.of_append⟩
  inventory e mem := h.inventory e (mem_append_left rest mem)

variable {H : Handles} {v : View EntryName H}

theorem Stored.of_initial {short : List Entry} (h : Stored c used v log)
    (cut : short <+: log) : Stored c used v short := by
  obtain ⟨rest, rfl⟩ := cut
  exact {
    chain := h.chain.of_append
    now := fun n => (h.now n).of_append
    later := fun n => (h.later n).of_append
    references := fun e mem => h.references e (mem_append_left rest mem)
    chunks := h.chunks
    drafts := h.drafts
    mounted := h.mounted
    mount := h.mount }

theorem Fit.snoc (h : Fit c log n content) (chain : Chain c used log) (admitted : Admitted c used (Tip.after c log) e)
    (group : n = segmentName e.segment → ∃ bytes, content = some bytes ∧ bytes.length ≤ journalSegmentLimit ∧
      e.encodedGroup <+: bytes.drop e.offset ∧ (e.rolled = true → ∃ front, front <+: bytes ∧
        Sealed c.key (segmentContext c.database c.epoch e.segment c.writer 0) ((Tip.after c log).header c e).encode front))
    (inventory : ∀ inventory, e.inventory = some inventory → n = c.inventoryName inventory.digest →
      ∃ bytes, content = some bytes ∧ InventoryOk c inventory bytes) : Fit c (log ++ [e]) n content where
  lock := h.lock
  key := h.key
  manifest := h.manifest
  segment header mem same := by
    rw [Tip.after_snoc] at mem
    rcases Tip.mem_headers_next.mp mem with mem | ⟨rolled, rfl⟩
    · obtain ⟨bytes, rfl, ok⟩ := h.segment header mem same
      refine ⟨bytes, rfl, { ok with groups := ?_ }⟩
      intro e' there here
      rcases mem_append.mp there with there | there
      · exact ok.groups e' there here
      · obtain rfl := mem_singleton.mp there
        obtain ⟨_, found, -, written, -⟩ := group (by rw [same, here])
        rwa [Option.some.inj found]
    · obtain ⟨bytes, rfl, short, written, front⟩ := group same
      obtain ⟨front, cut, isSealed⟩ := front rolled
      refine ⟨bytes, rfl, short, ⟨front, isSealed, cut⟩, ?_⟩
      intro e' there here
      rcases mem_append.mp there with there | there
      · obtain ⟨header, mem, named⟩ := chain.segments e' there
        exact absurd (named.trans here) ((admitted.rolled rolled).2.2 header mem)
      · rwa [mem_singleton.mp there]
  inventory e' mem i found same := by
    rcases mem_append.mp mem with mem | mem
    · exact h.inventory e' mem i found same
    · rw [mem_singleton.mp mem] at found
      exact inventory i found same

namespace Stored

variable {H : Handles} {v v' : View EntryName H} {P : EntryName → Prop}

section

variable (h : Stored c used v log)

include h

theorem grow (grows : v.Grows P v') (inside : ∀ n, P n → Fit c log n (v'.now n) ∧ Fit c log n (v'.later n))
    (chunks : ∀ n, P n → IsChunk n → v.cells n = none ∧ ∀ cell, v'.cells n = some cell → cell.synced = cell.bytes)
    (drafts : ∀ n cell, P n → IsInventory n → v'.cells n = some cell →
      Draft c used n cell.bytes ∧ Draft c used n cell.synced) : Stored c used v' log where
  chain := h.chain
  now n := by
    by_cases changed : P n
    · exact (inside n changed).1
    · rw [grows.now changed]
      exact h.now n
  later n := by
    by_cases changed : P n
    · exact (inside n changed).2
    · have before := h.later n
      cases kept : v.later n with
      | none =>
        rw [kept] at before
        exact before.of_none _
      | some data =>
        rw [kept] at before
        rwa [grows.later changed kept]
  references e mem r there := by
    obtain ⟨now, later⟩ := h.references e mem r there
    have missing : ∀ n, P n → IsChunk n → v.cells n = none := fun n changed chunk => (chunks n changed chunk).1
    refine ⟨now.mono ?_, later.mono ?_⟩
    · intro n bytes chunk found
      rwa [grows.now fun changed => by simp [View.now, missing n changed chunk] at found]
    · intro n bytes chunk found
      exact grows.later (fun changed => by simp [View.later, missing n changed chunk] at found) found
  chunks n cell chunk found := by
    by_cases changed : P n
    · exact (chunks n changed chunk).2 cell found
    · obtain ⟨cell', found', bytes, synced, -⟩ := grows.cell changed found
      rw [bytes, synced]
      exact h.chunks n cell' chunk found'
  drafts n cell isInventory found := by
    by_cases changed : P n
    · exact drafts n cell changed isInventory found
    · obtain ⟨cell', found', bytes, synced, -⟩ := grows.cell changed found
      rw [bytes, synced]
      exact h.drafts n cell' isInventory found'
  mounted := grows.mounted.trans h.mounted
  mount := grows.mount.trans h.mount

theorem link : Stored c used v.link log :=
  h.grow (View.Grows.link (fun _ => False) v) nofun nofun nofun

theorem sync (chunk : ¬ IsChunk n) : Stored c used (v.sync n) log := by
  refine h.grow (View.Grows.sync (P := (· = n)) rfl) ?_ ?_ ?_
  · rintro _ rfl
    refine ⟨by rw [View.sync_now]; exact h.now _, ?_⟩
    rcases v.sync_later_cases _ with same | same
    · rw [same]
      exact h.now _
    · rw [same]
      exact h.later _
  · rintro _ rfl isChunk
    exact absurd isChunk chunk
  · intro m cell same isInventory found
    subst same
    cases before : v.cells m with
    | none => simp [View.sync, before] at found
    | some cell' =>
      rw [View.sync_cells_self before] at found
      cases found
      exact ⟨(h.drafts _ cell' isInventory before).1, (h.drafts _ cell' isInventory before).1⟩

theorem write {f : List UInt8 → List UInt8} {cell : Cell} (found : v.cells n = some cell)
    (chunk : ¬ IsChunk n) (fit : Fit c log n (some (f cell.bytes)))
    (draft : IsInventory n → Draft c used n (f cell.bytes)) : Stored c used (v.write n f) log := by
  refine h.grow (View.Grows.write (P := (· = n)) f rfl) ?_ ?_ ?_
  · rintro _ rfl
    rw [View.write_now_self found, View.write_later]
    exact ⟨fit, h.later _⟩
  · rintro _ rfl isChunk
    exact absurd isChunk chunk
  · rintro _ cell' rfl isInventory found'
    rw [View.write_cells_self found] at found'
    cases found'
    exact ⟨draft isInventory, (h.drafts _ cell isInventory found).2⟩

theorem create {f : H.File} (missing : v.cells n = none) (chunk : ¬ IsChunk n)
    (draft : IsInventory n → Draft c used n []) : Stored c used (v.create n f) log := by
  refine h.grow (View.Grows.create (P := (· = n)) f rfl) ?_ ?_ ?_
  · intro m same
    subst same
    have absent := h.now m
    rw [View.now, missing] at absent
    exact ⟨absent.of_none _, absent.of_none _⟩
  · rintro _ rfl isChunk
    exact absurd isChunk chunk
  · rintro _ cell rfl isInventory found
    rw [View.create_cells_self] at found
    cases found
    exact ⟨draft isInventory, draft isInventory⟩

theorem certificates (grows : v.Grows (· = certificatesName) v') : Stored c used v' log := by
  refine h.grow grows ?_ ?_ ?_
  · rintro _ rfl
    exact ⟨.certificates, .certificates⟩
  · rintro _ rfl chunk
    cases chunk
  · rintro _ _ rfl isInventory
    exact absurd isInventory nofun

theorem crash (crashed : v.Crashed v') : Stored c used v' log where
  chain := h.chain
  now n := by
    rw [crashed.now]
    exact h.later n
  later n := by
    rw [crashed.later]
    exact h.later n
  references e mem r there := by
    have later := (h.references e mem r there).2
    refine ⟨later.mono ?_, later.mono ?_⟩
    · intro n bytes _ found
      rwa [crashed.now]
    · intro n bytes _ found
      rwa [crashed.later]
  chunks n cell chunk found := by
    rw [crashed.cells] at found
    obtain ⟨cell', -, left⟩ := Option.bind_eq_some_iff.mp found
    unfold Cell.crash at left
    split at left
    · cases left
      rfl
    · cases left
  drafts n cell isInventory found := by
    rw [crashed.cells] at found
    obtain ⟨cell', found', left⟩ := Option.bind_eq_some_iff.mp found
    unfold Cell.crash at left
    split at left
    · cases left
      exact ⟨(h.drafts n cell' isInventory found').2, (h.drafts n cell' isInventory found').2⟩
    · cases left
  mounted := crashed.mounted
  mount := crashed.mount.trans h.mount

theorem snoc (admitted : Admitted c used (Tip.after c log) e)
    (group : ∀ content ∈ [v.now (segmentName e.segment), v.later (segmentName e.segment)],
      ∃ bytes, content = some bytes ∧ bytes.length ≤ journalSegmentLimit ∧
      e.encodedGroup <+: bytes.drop e.offset ∧ (e.rolled = true → ∃ front, front <+: bytes ∧
        Sealed c.key (segmentContext c.database c.epoch e.segment c.writer 0) ((Tip.after c log).header c e).encode front))
    (inventory : ∀ inventory, e.inventory = some inventory →
      ∀ content ∈ [v.now (c.inventoryName inventory.digest), v.later (c.inventoryName inventory.digest)],
      ∃ bytes, content = some bytes ∧ InventoryOk c inventory bytes)
    (references : ∀ r ∈ e.references, c.Verified v.now r ∧ c.Verified v.later r) :
    Stored c used v (log ++ [e]) := by
  refine { h with chain := h.chain.snoc admitted, now := fun n => ?_, later := fun n => ?_, references := ?_ }
  · refine (h.now n).snoc h.chain admitted ?_ ?_
    · rintro rfl
      exact group _ (by simp)
    · rintro i found rfl
      exact inventory i found _ (by simp)
  · refine (h.later n).snoc h.chain admitted ?_ ?_
    · rintro rfl
      exact group _ (by simp)
    · rintro i found rfl
      exact inventory i found _ (by simp)
  · intro e' mem
    rcases mem_append.mp mem with mem | mem
    · exact h.references e' mem
    · obtain rfl := mem_singleton.mp mem
      exact references

end

end Stored

variable {visible durable : List Entry}

section

variable (h : DiskInv c used v visible durable)

include h

theorem DiskInv.grow {v' : View EntryName H} {P : EntryName → Prop}
    (grows : v.Grows P v') (certificates : ¬ P certificatesName)
    (stored : Stored c used v' visible) : DiskInv c used v' visible durable where
  stored := stored
  ahead := h.ahead
  certificates := by
    obtain ⟨cell, found, linked, certified, certified'⟩ := h.certificates
    rcases grows.cells _ certificates with same | same
    · exact ⟨cell, same.trans found, linked, certified, certified'⟩
    · exact ⟨cell.link, by rw [same, found]; rfl, rfl, certified, certified'⟩

theorem DiskInv.link : DiskInv c used v.link visible durable :=
  h.grow (.link (fun _ => False) v) id h.stored.link

theorem DiskInv.sync (chunk : ¬ IsChunk n) (other : certificatesName ≠ n) : DiskInv c used (v.sync n) visible durable :=
  h.grow (.sync (P := (· = n)) rfl) other (h.stored.sync chunk)

theorem DiskInv.owner (owner : Option H.Guard) : DiskInv c used { v with owner := owner } visible durable :=
  ⟨{ h.stored with }, h.ahead, h.certificates⟩

/-- After a crash a reader sees what was durable. -/
theorem DiskInv.crash {v' : View EntryName H} (crashed : v.Crashed v') : DiskInv c used v' durable durable where
  stored := (h.stored.crash crashed).of_initial h.ahead
  ahead := prefix_rfl
  certificates := by
    obtain ⟨cell, found, linked, -, certified⟩ := h.certificates
    refine ⟨⟨cell.synced, cell.synced, true⟩, ?_, rfl, certified, certified⟩
    rw [crashed.cells, found]
    simp [Cell.crash, linked]

end

/-! ### The store of a journal -/

section

variable {H : Handles} {E I : Type} (c : Charter W) (used : BlobInventory → Prop) (store : JournalStore H W E I)
  (v : View EntryName H)

/-- The store holds the journal's identities, its key and the lock of its directory. -/
structure Owns : Prop where
  database : store.database = c.database
  epoch : store.epoch = c.epoch
  writer : store.writer = c.writer
  certificateLogId : store.certificateLogId = c.certificateLogId
  opens : c.Opens store.vault
  directory : v.directories store.databaseDirectory
  owner : v.owner = some store.ownership

/-- The fields of the store that follow from the entries. -/
structure AtTip (tip : Tip) : Prop where
  segment : store.currentSegmentId = tip.segment
  offset : store.currentSegmentOffset = tip.offset
  frontier : store.frontier = tip.frontier
  digest : store.previousCertificateDigest = tip.digest
  anchors : store.certificateAnchors = if store.certificateReadLimits.isNone then tip.anchors else ∅
  inventories : store.committedBlobInventories = tip.inventories
  blobs : store.committedBlobs = tip.committed.1
  blobBytes : store.committedBlobBytes = tip.committed.2
  bindings : store.committedBlobReferenceBindings = tip.bindings

/-- A store that may append: the directory ends exactly where the store will write next. -/
structure LiveInv (log : List Entry) : Prop where
  disk : DiskInv c used v log log
  owns : Owns c store v
  tip : AtTip store (Tip.after c log)
  healthy : store.poisoned = false
  certificateFile : v.files store.certificateFile certificatesName
  segmentFile : v.files store.currentSegmentFile (segmentName (Tip.after c log).segment)
  certificates : ∃ cell, v.cells certificatesName = some cell ∧
    cell.bytes.length = smallEnvelopeBytes + log.length * smallEnvelopeBytes
  current : ∃ cell, v.cells (segmentName (Tip.after c log).segment) = some cell ∧
    cell.bytes.length = (Tip.after c log).offset

end

end

end Uste.Storage
