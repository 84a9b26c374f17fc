import Uste.Storage.Disk

/-!
Reading a journal back. On a directory that holds a list of entries a pass over the certificates
rebuilds the tip of that list and hands its groups to the visitor in order. Where the file system
is quiet nothing but the visitor can make it fail.
-/

namespace Uste.Storage

open Types Crypto Program FileSystem Std List

section Reading

variable {F W E : Type} {H : Handles} [FileSystem F H] [Primitives] [Primitives.Lawful] {quiet : Prop}
  (M : FileModel F Kept quiet) {fs : F} {v : View EntryName H} {f : H.File} {d : H.Directory} {n : EntryName}
  {vault : KeyVault W E} {c : Charter W} {used : BlobInventory → Prop} {log : List Entry}

abbrev Faulted {ε : Type} (v : View EntryName H) : ε → F → Prop := fun _ fs' => M.Shows fs' v ∧ ¬ quiet

section

omit [Primitives] [Primitives.Lawful]

variable {cell : Cell}

theorem readBounded_spec {offset length : Nat} (shows : M.Shows fs v) (handle : v.files f n)
    (found : v.cells n = some cell) (within : offset + length ≤ cell.bytes.length) : wp (readBounded f offset length)
      (fun data fs' => M.Shows fs' v ∧ data = slice cell.bytes offset length) (Faulted M v) fs := by
  unfold readBounded
  rw [wp_mapError]
  refine wp_mono (M.readExactAt_spec handle found shows) (fun _ _ h => ⟨h.1, h.2.1⟩) ?_
  intro _ _ h
  exact ⟨h.1, fun q => absurd (h.2.2 q) (by omega)⟩

theorem openRequired_spec {ε : Type} {e : AdapterErrorKind → ε} {content : List UInt8} (shows : M.Shows fs v)
    (directory : v.directories d) (found : v.now n = some content) : wp (mapError e (openExisting d n))
      (fun f fs' => M.Shows fs' v ∧ v.files f n) (Faulted M v) fs := by
  obtain ⟨cell, found, -⟩ := View.now_eq_some.mp found
  rw [wp_mapError]
  exact M.openExisting shows directory found

theorem metadata_spec {ε : Type} {e : AdapterErrorKind → ε} (shows : M.Shows fs v) (handle : v.files f n)
    (found : v.cells n = some cell) : wp (mapError e (metadata f))
      (fun length fs' => M.Shows fs' v ∧ length = cell.bytes.length) (Faulted M v) fs := by
  rw [wp_mapError]
  exact M.metadata shows handle found

end

variable {plaintext bytes : List UInt8}

theorem decrypt_sealed (opens : c.Opens vault) {context : CryptoContext}
    (scope : context.database = c.database) (isSealed : Sealed c.key context plaintext bytes) :
    ∃ envelope, EncryptedEnvelope.decode bytes = .ok envelope ∧ envelope.epoch = context.epoch ∧
      vault.decrypt context envelope = .ok plaintext :=
  KeyVault.decrypt_sealed opens.key (scope.trans opens.database.symm) isSealed

omit [Primitives.Lawful] in
theorem small_sealed [Primitives.Lawful] {key : Octets 32} {database : DatabaseId} {epoch : KeyEpoch} {role : ObjectRole}
    {object writer : Octets 16} {sequence : Nat}
    (isSealed : Sealed key (journalContext database epoch role object writer sequence) plaintext bytes)
    (short : plaintext.length ≤ 4088 := by simp; decide) : bytes.length = smallEnvelopeBytes := by
  have padded : paddedLength .small4KiB plaintext.length = 4096 := by
    simp only [paddedLength, innerLengthBytes, FrameClass.bytes]
    omega
  rw [isSealed.length, journalContext, padded]
  rfl

theorem verifySegmentHeader_spec {content : List UInt8} {header : SegmentHeader} (opens : c.Opens vault)
    (shows : M.Shows fs v) (handle : v.files f (segmentName header.segmentId))
    (found : v.now (segmentName header.segmentId) = some content) (ok : SegmentOk c log header content)
    (chain : Chain c used log) (mem : header ∈ (Tip.after c log).headers) :
    wp (verifySegmentHeader vault f c.database c.epoch header.segmentId c.writer)
      (fun header' fs' => M.Shows fs' v ∧ header' = header) (Faulted M v) fs := by
  obtain ⟨cell, held, rfl⟩ := View.now_eq_some.mp found
  obtain ⟨front, isSealed, cut⟩ := ok.front
  obtain ⟨database, writer, segment, first, fits⟩ := chain.headers_valid header mem
  have size := small_sealed isSealed
  have long : smallEnvelopeBytes ≤ cell.bytes.length := size ▸ cut.length_le
  obtain ⟨envelope, decoded, -, opened⟩ := decrypt_sealed opens rfl isSealed
  unfold verifySegmentHeader
  refine wp_next (metadata_spec M shows handle held) ?_
  intro length fs' ⟨shows, same⟩
  subst same
  apply wp_pass ⟨long, ok.length⟩
  refine wp_next (readBounded_spec M shows handle held (by omega)) ?_
  intro encoded fs' ⟨shows, same⟩
  have whole : encoded = front := by
    rw [same, ← size]
    exact slice_eq_of_initial (by simpa using cut)
  subst whole
  apply wp_known decoded
  apply wp_known opened
  apply wp_known (SegmentHeader.decode_encode segment (writer ▸ c.writer_ne) first fits)
  apply wp_pass ⟨database, rfl, writer⟩
  exact ⟨shows, rfl⟩

omit [Primitives.Lawful] in
theorem verifyAll_spec (opens : c.Opens vault) (shows : M.Shows fs v) (directory : v.directories d)
    (references : List BlobReference) : wp (references.forM (verifyReference d vault c.database c.epoch c.writer))
      (fun _ fs' => M.Shows fs' v ∧ ∀ r ∈ references, c.Verified v.now r)
      (fun _ fs' => M.Shows fs' v ∧ (quiet → ¬ ∀ r ∈ references, c.Verified v.now r)) fs := by
  -- every reference that is not still to come has been verified
  let Inv : List BlobReference → F → Prop := fun rest fs => M.Shows fs v ∧
    (∀ r ∈ rest, r ∈ references) ∧ ∀ r ∈ references, r ∈ rest ∨ c.Verified v.now r
  refine wp_mono (wp_forM Inv ⟨shows, fun _ h => h, fun _ h => .inl h⟩ ?_) ?_ fun _ _ h => h
  · intro r rest fs ⟨shows, sub, done⟩
    refine wp_mono (verifyReference_spec M opens shows directory) ?_ ?_
    · intro _ fs' ⟨shows, verified⟩
      refine ⟨shows, fun q mem => sub q (mem_cons_of_mem r mem), fun q mem => ?_⟩
      rcases done q mem with here | there
      · rcases mem_cons.mp here with rfl | later
        · exact .inr verified
        · exact .inl later
      · exact .inr there
    · intro _ fs' ⟨shows, failed⟩
      exact ⟨shows, fun q all => failed q (all r (sub r mem_cons_self))⟩
  · intro _ fs' ⟨shows, _, done⟩
    exact ⟨shows, fun r mem => (done r mem).resolve_left (by simp)⟩

/-- What a reader needs to find for an inventory. -/
structure Held (c : Charter W) (v : View EntryName H) (inventory : BlobInventory) (verify : Bool) : Prop where
  file : ∃ bytes, v.now (c.inventoryName inventory.digest) = some bytes ∧ InventoryOk c inventory bytes
  references : verify = true → ∀ r ∈ inventory.references, c.Verified v.now r

omit [Primitives.Lawful] in
theorem kept_inventoryName (o : Origin) (digest : Octets 32) : Kept (o.inventoryName digest) := by
  simp [Kept, o.isInventory_inventoryName digest]

variable {inventory : BlobInventory}

theorem inventory_fits (nonempty : inventory.isEmpty = false)
    (ok : InventoryOk c inventory bytes) : bytes.length ≠ 0 ∧ bytes.length ≤ maxEncodedBlobInventoryBytes := by
  have long : inventory.encoded.length ≤ 32 + 100000 * 64 := by
    rw [BlobInventory.length_encoded nonempty]
    exact Nat.add_le_add_left (Nat.mul_le_mul_right 64 inventory.valid.bounded) 32
  have size := ok.length
  have bound := (paddedLength_bounds .small4KiB inventory.encoded.length).2
  have limit : maxEncodedBlobInventoryBytes = 16785408 := rfl
  simp only [inventoryContext, FrameClass.bytes, headerBytes, tagBytes, innerLengthBytes] at size bound
  omega

theorem loadBlobInventory_spec (opens : c.Opens vault) (noCollision : Collisionless c.toOrigin used)
    (inUse : used inventory) (nonempty : inventory.isEmpty = false) (scope : inventory.scope.database = c.database)
    (stored : Stored c used v log) (shows : M.Shows fs v) (directory : v.directories d) (verify : Bool) :
    wp (loadBlobInventory vault d c.database c.epoch c.writer inventory.digest verify)
      (fun inventory' fs' => M.Shows fs' v ∧ inventory' = inventory ∧ Held c v inventory verify)
      (fun _ fs' => M.Shows fs' v ∧ (quiet → ¬ Held c v inventory verify)) fs := by
  unfold loadBlobInventory
  apply wp_pass (noCollision.ne_empty inUse nonempty)
  apply wp_known (Origin.inventoryName_eq opens inventory.digest)
  rw [wp_bind, wp_mapError]
  cases found : v.cells (c.inventoryName inventory.digest) with
  | none =>
    refine wp_mono (M.openMissing shows directory (kept_inventoryName _ _) found) (fun _ _ h => h.elim) ?_
    rintro _ fs' ⟨shows, _⟩
    refine ⟨shows, fun _ held => ?_⟩
    obtain ⟨bytes, there, -⟩ := held.file
    simp [View.now, found] at there
  | some cell =>
    have here : v.now (c.inventoryName inventory.digest) = some cell.bytes := by simp [View.now, found]
    have only (held : Held c v inventory verify) : InventoryOk c inventory cell.bytes := by
      obtain ⟨bytes, there, ok⟩ := held.file
      rwa [Option.some.inj (here.symm.trans there)]
    refine wp_mono (M.openExisting shows directory found) ?_ fun _ _ h => ⟨h.1, fun q => absurd q h.2⟩
    rintro file fs' ⟨shows, handle⟩
    refine wp_step (metadata_spec M shows handle found) ?_ fun _ _ h => ⟨h.1, fun q => absurd q h.2⟩
    rintro length fs' ⟨shows, same⟩
    subst same
    refine wp_checks (fun bounds => ?_) fun outside => ⟨shows, fun _ held => outside (inventory_fits nonempty (only held))⟩
    refine wp_step (readBounded_spec M shows handle found (by omega)) ?_ fun _ _ h => ⟨h.1, fun q => absurd q h.2⟩
    rintro encoded fs' ⟨shows, whole⟩
    rw [slice_all (Nat.le_refl _)] at whole
    subst whole
    -- the file is a draft of an inventory in use with this name, and that is the one looked for
    obtain ⟨other, sealedBytes, inUse', nonempty', scope', name, isSealed, cut⟩ :=
      (stored.drafts _ cell (c.isInventory_inventoryName _) found).1
    obtain rfl := noCollision.eq inUse inUse' nonempty nonempty' (scope.trans scope'.symm)
      (noCollision.names inUse inUse' name)
    refine wp_lifts (fun envelope decoded => ?_) fun _ failed => ⟨shows, fun _ held => ?_⟩
    swap
    · obtain ⟨envelope, decoded, -⟩ := decrypt_sealed opens rfl (only held)
      rw [decoded] at failed
      cases failed
    obtain rfl := isSealed.eq_of_initial cut decoded
    obtain ⟨envelope', decoded', -, opened⟩ := decrypt_sealed opens rfl isSealed
    obtain rfl := Except.ok.inj (decoded.symm.trans decoded')
    apply wp_known opened
    have plain := BlobInventory.decode_encoded nonempty
    rw [scope] at plain
    apply wp_known plain
    apply wp_pass rfl
    have file : ∃ bytes, v.now (c.inventoryName inventory.digest) = some bytes ∧ InventoryOk c inventory bytes :=
      ⟨_, here, isSealed⟩
    cases verify with
    | false => exact ⟨shows, rfl, file, by simp⟩
    | true =>
      refine wp_step (verifyAll_spec M opens shows directory inventory.references) ?_ ?_
      · rintro _ fs' ⟨shows, all⟩
        exact ⟨shows, rfl, file, fun _ => all⟩
      · rintro _ fs' ⟨shows, failed⟩
        exact ⟨shows, fun q held => failed q (held.references rfl)⟩

end Reading

section Scanning

variable {F W E : Type} {H : Handles} [FileSystem F H] [Primitives] [Primitives.Lawful] {quiet : Prop}
  (M : FileModel F Kept quiet) {fs : F} {v : View EntryName H} {c : Charter W} {used : BlobInventory → Prop}
  {log done rest : List Entry} {e : Entry} {scan : Scan H W E} {tip : Tip}

theorem Admitted.small (admitted : Admitted c used tip e) : e.encodedCertificate.length = smallEnvelopeBytes :=
  small_sealed admitted.certificate

theorem Chain.length_certificates (chain : Chain c used log) :
    (log.flatMap Entry.encodedCertificate).length = log.length * smallEnvelopeBytes := by
  refine chain.grown (by simp) ?_
  intro log e _ admitted ih
  simp [flatMap_append, ih, admitted.small, Nat.succ_mul]

omit [Primitives.Lawful] in
theorem Chain.at (chain : Chain c used log) (split : log = done ++ e :: rest) : Admitted c used (Tip.after c done) e :=
  chain done e rest split

omit [Primitives.Lawful] in
theorem certificateOffset_eq (admitted : Admitted c used tip e) :
    certificateOffset e.revision.value = .ok (smallEnvelopeBytes + tip.count * smallEnvelopeBytes) := by
  have room := admitted.log
  have word : smallEnvelopeBytes + tip.count * smallEnvelopeBytes < wordLimit := by
    simp only [smallEnvelopeBytes, certificateLogLimit, wordLimit] at room ⊢
    omega
  rw [certificateOffset, admitted.revision, Nat.add_sub_cancel, checked_pos (by omega), ok_bind, checked_pos word]

variable {bytes : List UInt8}

theorem Certified.slice_eq (certified : Certified c log bytes) (chain : Chain c used log)
    (split : log = done ++ e :: rest) :
    slice bytes (smallEnvelopeBytes + done.length * smallEnvelopeBytes) smallEnvelopeBytes = e.encodedCertificate ∧
    smallEnvelopeBytes + done.length * smallEnvelopeBytes + smallEnvelopeBytes ≤ bytes.length := by
  obtain ⟨front, torn, isSealed, whole, -, -⟩ := certified
  have size := small_sealed isSealed
  have before := (chain.of_initial ⟨e :: rest, split.symm⟩).length_certificates
  have small := (chain.at split).small
  have place : front ++ log.flatMap Entry.encodedCertificate ++ torn =
      (front ++ done.flatMap Entry.encodedCertificate) ++ (e.encodedCertificate ++
        (rest.flatMap Entry.encodedCertificate ++ torn)) := by
    rw [split]
    simp
  have offset : (front ++ done.flatMap Entry.encodedCertificate).length =
      smallEnvelopeBytes + done.length * smallEnvelopeBytes := by
    rw [length_append, size, before]
  rw [whole, place]
  constructor
  · rw [← offset, slice_skip (Nat.le_refl _), Nat.sub_self, slice_here small]
  · rw [length_append, offset, length_append, small]
    omega

/-- A scan of the journal, with the handles it reads through. -/
structure Scanning (c : Charter W) (v : View EntryName H) (scan : Scan H W E) : Prop where
  opens : c.Opens scan.vault
  directory : v.directories scan.databaseDirectory
  certificates : v.files scan.certificateFile certificatesName
  manifest : scan.manifest = c.manifest
  epoch : scan.epoch = c.epoch
  writer : scan.writer = c.writer

variable {cell : Cell}

theorem readCertificate_spec (scanning : Scanning c v scan) (found : v.cells certificatesName = some cell)
    (certified : Certified c log cell.bytes) (chain : Chain c used log) (split : log = done ++ e :: rest)
    (shows : M.Shows fs v) : wp (scan.readCertificate e.revision)
      (fun read fs' => M.Shows fs' v ∧ read = (e.encodedCertificate, (Tip.after c done).certificate e))
      (Faulted M v) fs := by
  have admitted := chain.at split
  obtain ⟨here, inside⟩ := certified.slice_eq chain split
  have offset := certificateOffset_eq admitted
  rw [Tip.after_count] at offset
  obtain ⟨envelope, decoded, -, opened⟩ := decrypt_sealed scanning.opens rfl admitted.certificate
  have fits := admitted.within
  have segment : journalSegmentLimit = 268435456 := rfl
  have number := admitted.revision
  have revision := e.revision.fits
  have plain : Certificate.decode ((Tip.after c done).certificate e).encode = .ok ((Tip.after c done).certificate e) := by
    apply Certificate.decode_encode <;> simp only [Tip.certificate] <;> omega
  unfold Scan.readCertificate
  apply wp_known offset
  refine wp_next (readBounded_spec M shows scanning.certificates found inside) ?_
  intro encoded fs' ⟨shows, same⟩
  rw [here] at same
  subst same
  have read : decodeCertificate scan.vault scan.manifest.database scan.epoch scan.manifest.certificateLogId scan.writer
      e.revision e.encodedCertificate = .ok ((Tip.after c done).certificate e) := by
    rw [decodeCertificate, decoded, mapError_ok, ok_bind, scanning.manifest, scanning.epoch, scanning.writer, number,
      Charter.manifest, opened, mapError_ok, ok_bind, plain]
  refine wp_known read ?_
  exact ⟨shows, rfl⟩

/-- A tail that may be cut: it lies behind the committed end of its segment. -/
structure TailOk (c : Charter W) (v : View EntryName H) (done : List Entry) (tail : SegmentTail) : Prop where
  segment : ∃ header ∈ (Tip.after c done).headers, header.segmentId = tail.segmentId
  committed : tail.committedEnd = (Tip.after c done).ends tail.segmentId
  inside : ∃ bytes, v.now (segmentName tail.segmentId) = some bytes ∧ tail.committedEnd ≤ bytes.length
  extra : tail.extraBytes ≤ journalSegmentLimit

omit [Primitives.Lawful] in
theorem TailOk.next {tail : SegmentTail} (h : TailOk c v done tail) (other : tail.segmentId ≠ e.segment) :
    TailOk c v (done ++ [e]) tail := by
  obtain ⟨header, mem, named⟩ := h.segment
  refine { h with segment := ⟨header, Tip.headers_mono c done [e] header mem, named⟩, committed := ?_ }
  rw [h.committed, Tip.after_snoc, Tip.ends_next_of_ne _ _ other]

/-- The state a pass has reached after some of the entries. -/
structure Scanned (c : Charter W) (v : View EntryName H) (scan : Scan H W E) (done : List Entry)
    (state : ScanState H) : Prop where
  segment : state.currentSegmentId = (Tip.after c done).segment
  file : v.files state.currentSegmentFile (segmentName (Tip.after c done).segment)
  offset : state.currentSegmentOffset = (Tip.after c done).offset
  frontier : state.frontier = (Tip.after c done).frontier
  digest : state.previousCertificateDigest = (Tip.after c done).digest
  anchors : state.certificateAnchors = if scan.retainCertificateAnchors then (Tip.after c done).anchors else ∅
  inventories : state.committedBlobInventories = (Tip.after c done).inventories
  blobs : state.committedBlobs = (Tip.after c done).committed.1
  blobBytes : state.committedBlobBytes = (Tip.after c done).committed.2
  bindings : state.committedBlobReferenceBindings = (Tip.after c done).bindings
  verified : state.verifiedBlobInventories = if scan.invokeVisitor then ∅ else (Tip.after c done).verified
  tails : ∀ tail ∈ state.uncommittedTails, TailOk c v done tail ∧ tail.segmentId ≠ (Tip.after c done).segment
  few : state.uncommittedTails.length ≤ done.length

variable {header : SegmentHeader}

omit [Primitives.Lawful] in
theorem Stored.segment_cell (stored : Stored c used v log) (mem : header ∈ (Tip.after c log).headers) :
    ∃ cell, v.cells (segmentName header.segmentId) = some cell ∧ SegmentOk c log header cell.bytes := by
  obtain ⟨bytes, found, ok⟩ := (stored.now _).segment header mem rfl
  obtain ⟨cell, held, rfl⟩ := View.now_eq_some.mp found
  exact ⟨cell, held, ok⟩

theorem SegmentOk.ends_le (chain : Chain c used log)
    (mem : header ∈ (Tip.after c log).headers) (ok : SegmentOk c log header bytes) :
    (Tip.after c log).ends header.segmentId ≤ bytes.length := by
  revert mem ok
  refine chain.grown ?_ ?_
  · intro _ ok
    obtain ⟨front, isSealed, cut⟩ := ok.front
    have size := small_sealed isSealed
    exact Nat.le_trans (Nat.le_of_eq size.symm) cut.length_le
  · intro log e chain admitted ih mem ok
    rw [Tip.after_snoc]
    by_cases same : header.segmentId = e.segment
    · have written := (ok.groups e (by simp) same.symm).length_le
      have long := (require_ok.mp admitted.length).1
      rw [length_drop] at written
      rw [same, Tip.ends_next_self]
      simp only [smallEnvelopeBytes] at long
      omega
    · rw [Tip.ends_next_of_ne _ _ same]
      rw [Tip.after_snoc] at mem
      rcases Tip.mem_headers_next.mp mem with mem | ⟨_, rfl⟩
      · exact ih mem ok.of_append
      · exact absurd rfl same

variable {state : ScanState H}

theorem recordUncommittedTail_spec (stored : Stored c used v done) (scanned : Scanned c v scan done state)
    (shows : M.Shows fs v) :
    wp (recordUncommittedTail state.currentSegmentFile state.currentSegmentId state.currentSegmentOffset state.uncommittedTails)
      (fun tails fs' => M.Shows fs' v ∧ (∀ tail ∈ tails, TailOk c v done tail) ∧ tails.length ≤ done.length + 1 ∧
        ((∃ tail ∈ tails, tail.segmentId = (Tip.after c done).segment) ∨
          ∃ current, v.cells (segmentName (Tip.after c done).segment) = some current ∧
            current.bytes.length = (Tip.after c done).offset))
      (Faulted M v) fs := by
  obtain ⟨header, mem, named⟩ := stored.chain.current
  obtain ⟨current, found, ok⟩ := stored.segment_cell mem
  have reached := ok.ends_le stored.chain mem
  rw [named] at found reached
  rw [← stored.chain.offset_eq] at reached
  have older : ∀ tail ∈ state.uncommittedTails, TailOk c v done tail := fun tail mem => (scanned.tails tail mem).1
  have few := scanned.few
  unfold recordUncommittedTail
  rw [scanned.segment, scanned.offset]
  refine wp_next (metadata_spec M shows scanned.file found) ?_
  intro length fs' ⟨shows, same⟩
  subst same
  apply wp_pass ⟨reached, ok.length⟩
  by_cases longer : current.bytes.length > (Tip.after c done).offset
  · rw [if_pos longer]
    refine ⟨shows, fun tail mem' => ?_, by simpa using few, .inl ⟨_, mem_append_right _ (mem_singleton_self _), rfl⟩⟩
    rcases mem_append.mp mem' with mem' | mem'
    · exact older tail mem'
    · obtain rfl := mem_singleton.mp mem'
      exact ⟨⟨header, mem, named⟩, stored.chain.offset_eq, ⟨current.bytes, by simp [View.now, found], reached⟩,
        Nat.le_trans (Nat.sub_le _ _) ok.length⟩
  · rw [if_neg longer]
    exact ⟨shows, older, Nat.le_succ_of_le few, .inr ⟨current, found, by omega⟩⟩

omit [Primitives.Lawful] in
theorem Admitted.rolled_iff (admitted : Admitted c used tip e)
    (current : ∃ header ∈ tip.headers, header.segmentId = tip.segment) : e.segment = tip.segment ↔ e.rolled = false := by
  constructor
  · intro same
    by_contra rolled
    obtain ⟨header, mem, named⟩ := current
    exact (admitted.rolled (by simpa using rolled)).2.2 header mem (named.trans same.symm)
  · intro placed
    exact (admitted.placed placed).1

section

variable (scanning : Scanning c v scan) (stored : Stored c used v log) (split : log = done ++ e :: rest)

include scanning stored split

theorem enterSegment_spec (scanned : Scanned c v scan done state) (shows : M.Shows fs v) :
    wp (scan.enterSegment state e.revision.value e.segment)
      (fun state' fs' => M.Shows fs' v ∧ ∃ file tails,
        state' = { state with currentSegmentId := e.segment, currentSegmentFile := file, currentSegmentOffset := e.offset,
                              uncommittedTails := tails } ∧
        v.files file (segmentName e.segment) ∧ tails.length ≤ done.length + 1 ∧
        ∀ tail ∈ tails, TailOk c v done tail ∧ tail.segmentId ≠ e.segment)
      (Faulted M v) fs := by
  have chain := stored.chain
  have before : Chain c used done := chain.of_initial ⟨e :: rest, split.symm⟩
  have admitted := chain.at split
  have storedDone : Stored c used v done := stored.of_initial ⟨e :: rest, split.symm⟩
  unfold Scan.enterSegment
  cases rolled : e.rolled with
  | false =>
    obtain ⟨segment, place⟩ := admitted.placed rolled
    rw [if_pos (segment.trans scanned.segment.symm), wp_pure]
    refine ⟨shows, state.currentSegmentFile, state.uncommittedTails, ?_, segment ▸ scanned.file,
      Nat.le_succ_of_le scanned.few, segment ▸ scanned.tails⟩
    rw [segment, place, ← scanned.segment, ← scanned.offset]
  | true =>
    have apart : e.segment ≠ state.currentSegmentId := fun same => by
      rw [scanned.segment, admitted.rolled_iff before.current, rolled] at same
      cases same
    rw [if_neg apart]
    obtain ⟨place, -, new⟩ := admitted.rolled rolled
    refine wp_next (recordUncommittedTail_spec M storedDone scanned shows) ?_
    intro tails fs' ⟨shows, tailsOk, few, _⟩
    have left : ∀ tail ∈ tails, TailOk c v done tail ∧ tail.segmentId ≠ e.segment := by
      intro tail mem
      obtain ⟨header, there, named⟩ := (tailsOk tail mem).segment
      exact ⟨tailsOk tail mem, named ▸ new header there⟩
    -- the segment that is entered
    have next : (Tip.after c done).header c e ∈ (Tip.after c (done ++ [e])).headers := by
      rw [Tip.after_snoc]
      exact Tip.mem_headers_next.mpr (.inr ⟨rolled, rfl⟩)
    have storedNext : Stored c used v (done ++ [e]) := stored.of_initial ⟨rest, by rw [split]; simp⟩
    obtain ⟨bytes, foundNext, okNext⟩ := (storedNext.now _).segment _ next rfl
    refine wp_next (openRequired_spec M shows scanning.directory foundNext) ?_
    intro file fs' ⟨shows, handle⟩
    have entered := verifySegmentHeader_spec M scanning.opens shows handle foundNext okNext storedNext.chain next
    rw [scanning.manifest, scanning.epoch, scanning.writer, Charter.manifest]
    refine wp_next entered ?_
    intro header' fs' ⟨shows, same⟩
    subst same
    apply wp_pass ⟨scanned.segment.symm, admitted.revision.symm⟩
    exact ⟨shows, file, tails, by rw [place], handle, few, left⟩

theorem readGroup_spec (segment : state.currentSegmentId = e.segment)
    (handle : v.files state.currentSegmentFile (segmentName e.segment)) (offset : state.currentSegmentOffset = e.offset)
    (shows : M.Shows fs v) : wp (scan.readGroup state e.revision.value ((Tip.after c done).certificate e))
      (fun read fs' => M.Shows fs' v ∧ read = (e.group, e.offset + e.encodedGroup.length)) (Faulted M v) fs := by
  have admitted := stored.chain.at split
  obtain ⟨header, mem, named⟩ := stored.chain.segments e (by rw [split]; simp)
  obtain ⟨cell, found, ok⟩ := stored.segment_cell mem
  rw [named] at found
  have written := ok.groups e (by rw [split]; simp) named.symm
  have long := (require_ok.mp admitted.length).1
  have inside : e.offset + e.encodedGroup.length ≤ cell.bytes.length := by
    have := written.length_le
    rw [length_drop] at this
    simp only [smallEnvelopeBytes] at long
    omega
  have within := admitted.within
  have word : e.offset + e.encodedGroup.length < wordLimit := Nat.lt_of_le_of_lt within (by decide)
  obtain ⟨envelope, decoded, -, opened⟩ := decrypt_sealed scanning.opens rfl admitted.group
  unfold Scan.readGroup
  apply wp_pass ⟨admitted.revision.symm, offset.symm⟩
  refine wp_known admitted.length ?_
  refine wp_known (checked_pos word) ?_
  apply wp_pass within
  refine wp_next (metadata_spec M shows handle found) ?_
  rintro length fs' ⟨shows, same⟩
  subst same
  apply wp_pass inside
  refine wp_next (readBounded_spec M shows handle found inside) ?_
  rintro encoded fs' ⟨shows, same⟩
  have whole : encoded = e.encodedGroup := same.trans (slice_eq_of_initial written)
  subst whole
  apply wp_pass rfl
  refine wp_known decoded ?_
  rw [scanning.manifest, scanning.epoch, scanning.writer, segment, admitted.revision, Charter.manifest]
  refine wp_known opened ?_
  apply wp_pass admitted.group.1
  exact ⟨shows, rfl⟩

end

/-- What a pass knows of the inventories before it starts: nothing, or all of them verified. -/
def Trusts (c : Charter W) (log : List Entry) (scan : Scan H W E) : Prop :=
  scan.trustedBlobInventories = if scan.invokeVisitor then (Tip.after c log).verified else ∅

variable {inventory : BlobInventory}

omit [Primitives.Lawful] in
theorem Stored.held (stored : Stored c used v log) (mem : e ∈ log)
    (found : e.inventory = some inventory) (verify : Bool) : Held c v inventory verify where
  file := (stored.now _).inventory e mem inventory found rfl
  references _ r there := (stored.references e mem r (by rwa [Entry.references_some found])).1

section

variable (scanning : Scanning c v scan) (trusts : Trusts c log scan) (noCollision : Collisionless c.toOrigin used) (stored : Stored c used v log) (split : log = done ++ e :: rest)

include scanning trusts noCollision stored split

theorem readInventory_spec (found : e.inventory = some inventory)
    (verified : state.verifiedBlobInventories = if scan.invokeVisitor then ∅ else (Tip.after c done).verified)
    (shows : M.Shows fs v) : wp (scan.readInventory state inventory.digest)
      (fun read fs' => M.Shows fs' v ∧ read.2.1 = inventory.references.length ∧
        read.2.2 = (if scan.invokeVisitor then ∅ else (Tip.after c (done ++ [e])).verified) ∧
        (read.1 = some inventory ∨ read.1 = none ∧ scan.invokeVisitor = false ∧
          ∃ e' ∈ done, e'.inventory = some inventory))
      (Faulted M v) fs := by
  have chain := stored.chain
  have before : Chain c used done := chain.of_initial ⟨e :: rest, split.symm⟩
  have here : e ∈ log := by rw [split]; simp
  obtain ⟨inUse, nonempty, scope⟩ := chain.inventory_of_mem e here inventory found
  have next : (Tip.after c (done ++ [e])).verified =
      (Tip.after c done).verified.insert inventory.digest inventory.references.length := by
    rw [Tip.after_snoc]
    simp only [Tip.next, found]
  unfold Scan.readInventory
  rw [trusts, verified]
  cases visiting : scan.invokeVisitor with
  | true =>
    have known : (Tip.after c log).verified[inventory.digest]? = some inventory.references.length :=
      (chain.verified_eq noCollision _ _).mpr ⟨e, here, inventory, found, rfl, rfl⟩
    simp only [if_true, known, Option.or]
    rw [scanning.manifest, scanning.epoch, scanning.writer, Charter.manifest]
    refine wp_step (loadBlobInventory_spec M scanning.opens noCollision inUse nonempty scope stored shows
      scanning.directory false) ?_ fun _ _ h => ⟨h.1, fun q => h.2 q (stored.held here found false)⟩
    rintro loaded fs' ⟨shows, same, _⟩
    subst same
    apply wp_pass rfl
    exact ⟨shows, rfl, rfl, .inl rfl⟩
  | false =>
    simp only [Bool.false_eq_true, if_false, ExtTreeMap.getElem?_empty, Option.none_or]
    cases known : (Tip.after c done).verified[inventory.digest]? with
    | none =>
      rw [scanning.manifest, scanning.epoch, scanning.writer, Charter.manifest]
      refine wp_step (loadBlobInventory_spec M scanning.opens noCollision inUse nonempty scope stored shows
        scanning.directory true) ?_ fun _ _ h => ⟨h.1, fun q => h.2 q (stored.held here found true)⟩
      rintro loaded fs' ⟨shows, same, _⟩
      subst same
      have few : loaded.references.length < 2 ^ 32 := Nat.lt_of_le_of_lt loaded.valid.bounded (by decide)
      apply wp_pass few
      exact ⟨shows, rfl, next.symm, .inl rfl⟩
    | some count =>
      obtain ⟨e', mem, other, there, digest, counted⟩ := (before.verified_eq noCollision _ _).mp known
      obtain ⟨inUse', nonempty', scope'⟩ := before.inventory_of_mem e' mem other there
      obtain rfl := noCollision.eq inUse inUse' nonempty nonempty' (scope.trans scope'.symm) digest.symm
      refine ⟨shows, counted.symm, ?_, .inr ⟨rfl, trivial, e', mem, there⟩⟩
      rw [next, insert_same (by rw [known, counted])]

theorem bindInventory_spec (scanned : Scanned c v scan done state) (shows : M.Shows fs v)
    {id : Octets 16} {file : H.File} {offset : Nat} {tails : List SegmentTail} :
    wp (scan.bindInventory { state with currentSegmentId := id, currentSegmentFile := file, currentSegmentOffset := offset,
                                        uncommittedTails := tails } e.inventoryDigest)
      (fun bound fs' => M.Shows fs' v ∧ (scan.invokeVisitor = true → bound.1 = e.inventory) ∧
        bound.2 = { state with
          currentSegmentId := id, currentSegmentFile := file, currentSegmentOffset := offset, uncommittedTails := tails
          committedBlobInventories := (Tip.after c (done ++ [e])).inventories
          committedBlobs := (Tip.after c (done ++ [e])).committed.1
          committedBlobBytes := (Tip.after c (done ++ [e])).committed.2
          committedBlobReferenceBindings := (Tip.after c (done ++ [e])).bindings
          verifiedBlobInventories := if scan.invokeVisitor then ∅ else (Tip.after c (done ++ [e])).verified })
      (Faulted M v) fs := by
  have chain := stored.chain
  have before : Chain c used done := chain.of_initial ⟨e :: rest, split.symm⟩
  have admitted := chain.at split
  have next := Tip.after_snoc c done e
  unfold Scan.bindInventory
  cases found : e.inventory with
  | none =>
    have same : (Tip.after c done).registered [] = (Tip.after c done).committed := rfl
    rw [if_pos (Entry.inventoryDigest_none found), wp_pure]
    refine ⟨shows, fun _ => rfl, ?_⟩
    simp only [next, Tip.next, found, Entry.references_none found, same, length_nil, Nat.add_zero, ← scanned.inventories, ← scanned.blobs,
      ← scanned.blobBytes, ← scanned.bindings, ← scanned.verified]
  | some inventory =>
    obtain ⟨inUse, nonempty, -⟩ := admitted.inventory inventory found
    have references := Entry.references_some found
    have limit := admitted.bindings
    rw [references] at limit
    rw [Entry.inventoryDigest_some found, if_neg (noCollision.ne_empty inUse nonempty)]
    refine wp_next (readInventory_spec M scanning trusts noCollision stored split found scanned.verified shows) ?_
    rintro ⟨loaded, count, verified⟩ fs' ⟨shows, counted, verifiedEq, known⟩
    subst counted verifiedEq
    have word : state.committedBlobReferenceBindings + inventory.references.length < wordLimit := by
      rw [scanned.bindings]
      exact Nat.lt_of_le_of_lt limit (by decide)
    refine wp_known (checked_pos word) ?_
    refine wp_known (r := checkBlobReferenceBindingLimit _) (require_pos _ (by rw [scanned.bindings]; exact limit)) ?_
    refine wp_known (a := (Tip.after c done).registered e.references) ?_ ?_
    -- an inventory that was not loaded again has all its references registered
    · rw [scanned.blobs, scanned.blobBytes]
      rcases known with rfl | ⟨rfl, -, e', mem, there⟩
      · rw [← admitted.registered, references]
      · have existing : ∀ r ∈ e.references, (Tip.after c done).committed.1[r.blobKey]? = some r := by
          intro r mem'
          exact before.blobs e' mem r (by rwa [Entry.references_some there, ← references])
        rw [← admitted.registered, registerAll_existing existing]
        rfl
    refine ⟨shows, fun visiting => ?_, ?_⟩
    · rcases known with rfl | ⟨-, silent, -⟩
      · rfl
      · rw [silent] at visiting
        cases visiting
    · simp only [next, Tip.next, found, references, scanned.inventories, scanned.bindings]

end

theorem step_spec {V : Type} {visitor : V → RecoveredGroup → Except StorageError V} {acc : ScanState H × V}
    (silent : scan.invokeVisitor = false → ∀ s g, visitor s g = .ok s) (scanning : Scanning c v scan)
    (trusts : Trusts c log scan) (noCollision : Collisionless c.toOrigin used) (stored : Stored c used v log)
    (found : v.cells certificatesName = some cell) (certified : Certified c log cell.bytes)
    (split : log = done ++ e :: rest) (scanned : Scanned c v scan done acc.1) (shows : M.Shows fs v) :
    wp (scan.step visitor acc (done.length + 1))
      (fun acc' fs' => M.Shows fs' v ∧ Scanned c v scan (done ++ [e]) acc'.1 ∧ visitor acc.2 e.recovered = .ok acc'.2)
      (fun err fs' => M.Shows fs' v ∧ (quiet → visitor acc.2 e.recovered = .error err)) fs := by
  have admitted := stored.chain.at split
  have number : done.length + 1 = e.revision.value := by rw [admitted.revision, Tip.after_count]
  have faulted : ∀ (err : StorageError) (fs' : F), Faulted M v err fs' →
      M.Shows fs' v ∧ (quiet → visitor acc.2 e.recovered = .error err) := fun _ _ h => ⟨h.1, fun q => absurd q h.2⟩
  unfold Scan.step
  rw [number]
  refine wp_known (CommitRevision.new_value e.revision) ?_
  refine wp_step (readCertificate_spec M scanning found certified stored.chain split shows) ?_ faulted
  rintro _ fs' ⟨shows, rfl⟩
  apply wp_pass ⟨admitted.revision.symm, scanned.digest.symm⟩
  refine wp_step (enterSegment_spec M scanning stored split scanned shows) ?_ faulted
  rintro _ fs' ⟨shows, file, tails, rfl, handle, few, tailsOk⟩
  refine wp_step (readGroup_spec M scanning stored split rfl handle rfl shows) ?_ faulted
  rintro _ fs' ⟨shows, rfl⟩
  refine wp_step (bindInventory_spec M scanning trusts noCollision stored split scanned shows) ?_ faulted
  rintro ⟨inventory, state⟩ fs' ⟨shows, visible, bound⟩
  dsimp only at visible bound
  have seen : scan.visit visitor acc.2 ⟨e.revision, sha256 e.encodedCertificate, e.group,
      e.inventoryDigest, inventory, e.logicalEventDigest⟩ = visitor acc.2 e.recovered := by
    unfold Scan.visit
    split
    · rename_i visiting
      rw [visible visiting]
      rfl
    · rename_i quietly
      rw [silent (by simpa using quietly)]
  simp only [Tip.certificate, seen]
  rw [wp_bind, wp_lift]
  refine ⟨fun visited accepted => ⟨shows, ?_, accepted⟩, fun err refused => ⟨shows, fun _ => refused⟩⟩
  subst bound
  have next := Tip.after_snoc c done e
  constructor
  all_goals dsimp only
  case segment => rw [next]; rfl
  case file => rw [next]; exact handle
  case offset => rw [next]; rfl
  case frontier => rw [next]; rfl
  case digest => rw [next]; rfl
  case anchors =>
    rw [scanned.anchors, next]
    split <;> rfl
  case tails =>
    intro tail mem
    obtain ⟨tailOk, other⟩ := tailsOk tail mem
    exact ⟨tailOk.next other, by rw [next]; exact other⟩
  case few => rwa [length_append]

/-- A whole pass rebuilds the tip of the entries and shows their groups to the visitor in order. -/
theorem scanCertificates_spec {V : Type} {visitor : V → RecoveredGroup → Except StorageError V} {init : V}
    {initialSegmentFile : H.File} (silent : scan.invokeVisitor = false → ∀ s g, visitor s g = .ok s)
    (scanning : Scanning c v scan) (trusts : Trusts c log scan) (noCollision : Collisionless c.toOrigin used)
    (stored : Stored c used v log) (found : v.cells certificatesName = some cell)
    (certified : Certified c log cell.bytes) (handle : v.files initialSegmentFile (segmentName c.initialSegmentId))
    (shows : M.Shows fs v) : wp (scan.scanCertificates initialSegmentFile log.length visitor init)
      (fun result fs' => M.Shows fs' v ∧ (log.map Entry.recovered).foldlM visitor init = .ok result.2 ∧
        ∃ state tails, Scanned c v scan log state ∧ result.1 = { state with uncommittedTails := tails } ∧
          (∀ tail ∈ tails, TailOk c v log tail) ∧ tails.length ≤ log.length + 1 ∧
          ((∃ tail ∈ tails, tail.segmentId = (Tip.after c log).segment) ∨
            ∃ current, v.cells (segmentName (Tip.after c log).segment) = some current ∧
              current.bytes.length = (Tip.after c log).offset))
      (fun err fs' => M.Shows fs' v ∧ (quiet → (log.map Entry.recovered).foldlM visitor init = .error err)) fs := by
  unfold Scan.scanCertificates
  -- the entries still to come are those whose sequences are still to come
  let Inv : List Nat → ScanState H × V → F → Prop := fun items acc fs => M.Shows fs v ∧ ∃ done rest,
    log = done ++ rest ∧ items = List.range' (done.length + 1) rest.length ∧ Scanned c v scan done acc.1 ∧
    (done.map Entry.recovered).foldlM visitor init = .ok acc.2
  have start : Inv (List.range' 1 log.length) (Scan.start scan.manifest initialSegmentFile, init) fs := by
    refine ⟨shows, [], log, rfl, rfl, ?_, rfl⟩
    rw [scanning.manifest]
    constructor
    case anchors => simp [Scan.start, Tip.after, Tip.start]
    case verified => simp [Scan.start, Tip.after, Tip.start]
    case file => exact handle
    case tails => simp [Scan.start]
    all_goals rfl
  refine wp_next (wp_foldlM Inv start ?_) ?_
  · rintro sequence items acc fs ⟨shows, done, rest, split, items_eq, scanned, visited⟩
    cases rest with
    | nil => cases items_eq
    | cons e rest =>
      obtain ⟨rfl, rfl⟩ := List.cons.inj items_eq
      refine wp_mono (step_spec M silent scanning trusts noCollision stored found certified split scanned shows) ?_ ?_
      · rintro acc' fs' ⟨shows, scanned, accepted⟩
        refine ⟨shows, done ++ [e], rest, by rw [split]; simp, by simp, scanned, ?_⟩
        rw [map_append, foldlM_append, visited, ok_bind]
        simp [accepted]
      · rintro err fs' ⟨shows, refused⟩
        refine ⟨shows, fun q => ?_⟩
        rw [split, map_append, foldlM_append, visited, ok_bind, map_cons, foldlM_cons, refused q]
        rfl
  · rintro ⟨state, visited⟩ fs' ⟨shows, done, rest, split, items_eq, scanned, accepted⟩
    obtain rfl : rest = [] := by
      cases rest with
      | nil => rfl
      | cons e rest => cases items_eq
    obtain rfl : log = done := by rw [split, append_nil]
    dsimp only at scanned accepted ⊢
    refine wp_step (recordUncommittedTail_spec M stored scanned shows) ?_ fun _ _ h => ⟨h.1, fun q => absurd q h.2⟩
    rintro tails fs' ⟨shows, tailsOk⟩
    exact ⟨shows, accepted, state, tails, scanned, rfl, tailsOk⟩

end Scanning

end Uste.Storage
