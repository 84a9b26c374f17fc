import Uste.Storage.Scan

/-!
Opening a journal. Between the two passes over the certificates the repair makes what a reader sees
durable; a failure at any step leaves the entries as they were.
-/

namespace Uste.Storage

open Types Crypto Program FileSystem Std List

section Repairing

variable {F W : Type} {H : Handles} [FileSystem F H] [Primitives] [Primitives.Lawful] {quiet : Prop}
  (M : FileModel F Kept quiet) {fs : F} {v v' : View EntryName H} {c : Charter W} {used : BlobInventory → Prop}
  {visible durable : List Entry} {d : H.Directory} {f : H.File} {n : Nat} {bytes : List UInt8}

omit [Primitives] [Primitives.Lawful] in
theorem resized_eq_take (short : n ≤ bytes.length) : resized n bytes = bytes.take n := by
  simp [resized, MemoryFileSystem.resize, Nat.sub_eq_zero_of_le short]

variable {log : List Entry}

theorem SegmentOk.cut {header : SegmentHeader} (chain : Chain c used log)
    (ok : SegmentOk c log header bytes) (behind : (Tip.after c log).ends header.segmentId ≤ n) :
    SegmentOk c log header (bytes.take n) := by
  obtain ⟨ends, small⟩ := chain.ends_le
  obtain ⟨front, isSealed, cut⟩ := ok.front
  have size := small_sealed isSealed
  have kept : ∀ {part : List UInt8} {offset : Nat}, part <+: bytes.drop offset → offset + part.length ≤ n →
      part <+: (bytes.take n).drop offset := by
    intro part offset held inside
    rw [drop_take]
    exact prefix_take_iff.mpr ⟨held, by omega⟩
  refine ⟨Nat.le_trans (length_take_le' _ _) ok.length, ⟨front, isSealed, ?_⟩, fun e mem same => ?_⟩
  · have := small header.segmentId
    exact @kept front 0 cut (by omega)
  · have := ends e mem
    rw [same] at this
    exact kept (ok.groups e mem same) (by omega)

def Repairs (n : EntryName) : Prop := n = certificatesName ∨ IsSegment n

variable {tail : SegmentTail} {cell : Cell}

theorem Stored.cut (stored : Stored c used v visible)
    (committed : tail.committedEnd = (Tip.after c visible).ends tail.segmentId)
    (found : v.cells (segmentName tail.segmentId) = some cell) (inside : tail.committedEnd ≤ cell.bytes.length) :
    Stored c used (v.write (segmentName tail.segmentId) (resized tail.committedEnd)) visible := by
  have apart := kinds_disjoint (segmentName tail.segmentId)
  refine stored.write found (apart.1 rfl).2 ?_ fun isInventory => absurd isInventory (apart.1 rfl).1
  rw [resized_eq_take inside]
  refine Fit.of_segment fun header mem same => ?_
  obtain ⟨held, there, ok⟩ := stored.segment_cell mem
  rw [same, found] at there
  cases there
  exact ok.cut stored.chain (by rw [committed, same])

theorem cutTail_spec (inv : DiskInv c used v visible durable) (tailOk : TailOk c v visible tail)
    (directory : v.directories d) (shows : M.Shows fs v) : wp (JournalStore.cutTail d tail)
      (fun _ fs' => ∃ v', M.Shows fs' v' ∧ v.Grows (· = segmentName tail.segmentId) v' ∧
        DiskInv c used v' visible durable ∧
        ∃ cell, v'.cells (segmentName tail.segmentId) = some cell ∧ cell.bytes.length = tail.committedEnd)
      (fun _ fs' => ∃ v', M.Shows fs' v' ∧ v.Grows (· = segmentName tail.segmentId) v' ∧
        DiskInv c used v' visible durable ∧ ¬ quiet) fs := by
  obtain ⟨bytes, held, inside⟩ := tailOk.inside
  obtain ⟨cell, found, rfl⟩ := View.now_eq_some.mp held
  have apart : ¬ certificatesName = segmentName tail.segmentId := nofun
  have chunk := ((kinds_disjoint _).1 (isSegment_segmentName tail.segmentId)).2
  have cut := inv.stored.cut tailOk.committed found inside
  have grows : v.Grows (· = segmentName tail.segmentId) (v.write (segmentName tail.segmentId) (resized tail.committedEnd)) :=
    .write _ rfl
  have inv' := inv.grow grows apart cut
  have found' := View.write_cells_self found (resized tail.committedEnd)
  unfold JournalStore.cutTail
  refine wp_step (openRequired_spec M shows directory held) ?_ ?_
  swap
  · intro _ fs' ⟨shows, noisy⟩
    exact ⟨v, shows, .refl _ _, inv, noisy⟩
  intro file fs' ⟨shows, handle⟩
  refine wp_maps (M.setLen shows handle found) ?_ ?_
  swap
  · intro _ fs' ⟨after, quietly⟩
    have noisy : ¬ quiet := fun q => absurd (quietly q) (by omega)
    rcases after with shows | shows
    · exact ⟨v, shows, .refl _ _, inv, noisy⟩
    · exact ⟨_, shows, grows, inv', noisy⟩
  intro _ fs' shows
  rw [wp_mapError]
  have synced := grows.trans (.sync rfl)
  have inv'' := inv.grow synced apart (cut.sync chunk)
  refine wp_mono (M.syncData shows handle found') ?_ ?_
  · intro _ fs' shows
    refine ⟨_, shows, synced, inv'', _, View.sync_cells_self found', ?_⟩
    show (resized tail.committedEnd cell.bytes).length = tail.committedEnd
    rw [resized_eq_take inside, length_take_of_le inside]
  · intro _ fs' ⟨after, noisy⟩
    rcases after with shows | shows
    · exact ⟨_, shows, grows, inv', noisy⟩
    · exact ⟨_, shows, synced, inv'', noisy⟩

theorem Certified.lengths (certified : Certified c log bytes) (chain : Chain c used log) :
    smallEnvelopeBytes ≤ bytes.length ∧ (bytes.length - smallEnvelopeBytes) / smallEnvelopeBytes = log.length ∧
    smallEnvelopeBytes + log.length * smallEnvelopeBytes ≤ bytes.length := by
  obtain ⟨front, torn, isSealed, rfl, short, -⟩ := certified
  have size := small_sealed isSealed
  rw [length_append, length_append, size, chain.length_certificates]
  simp only [smallEnvelopeBytes] at *
  omega

theorem Certified.cut (certified : Certified c log bytes) (chain : Chain c used log) :
    Certified c log (bytes.take (smallEnvelopeBytes + log.length * smallEnvelopeBytes)) := by
  obtain ⟨front, torn, isSealed, rfl, short, limit⟩ := certified
  have size := small_sealed isSealed
  have whole : (front ++ log.flatMap Entry.encodedCertificate).length =
      smallEnvelopeBytes + log.length * smallEnvelopeBytes := by
    rw [length_append, size, chain.length_certificates]
  refine ⟨front, [], isSealed, ?_, by decide, Nat.le_trans (length_take_le' _ _) limit⟩
  rw [← whole, take_left, append_nil]

variable {repaired : Nat}

theorem adoptCertificates_spec (inv : DiskInv c used v visible durable)
    (found : v.cells certificatesName = some cell) (handle : v.files f certificatesName) (shows : M.Shows fs v)
    (torn : repaired = cell.bytes.length - smallEnvelopeBytes - visible.length * smallEnvelopeBytes) :
    wp (JournalStore.adoptCertificates f repaired (visible.length * smallEnvelopeBytes))
      (fun _ fs' => ∃ v', M.Shows fs' v' ∧ v.Grows (· = certificatesName) v' ∧ DiskInv c used v' visible visible ∧
        ∃ cell, v'.cells certificatesName = some cell ∧
          cell.bytes.length = smallEnvelopeBytes + visible.length * smallEnvelopeBytes)
      (fun _ fs' => ∃ v' durable', M.Shows fs' v' ∧ v.Grows (· = certificatesName) v' ∧
        DiskInv c used v' visible durable' ∧ (durable' = durable ∨ durable' = visible) ∧ ¬ quiet) fs := by
  obtain ⟨cell', found', linked, certified, certified'⟩ := inv.certificates
  obtain rfl := Option.some.inj (found.symm.trans found')
  have chain := inv.stored.chain
  obtain ⟨-, -, long⟩ := certified.lengths chain
  have cut := certified.cut chain
  -- the log as the cut leaves it
  have reached : wp (JournalStore.cutCertificates f repaired (visible.length * smallEnvelopeBytes))
      (fun _ fs' => ∃ v', M.Shows fs' v' ∧ v.Grows (· = certificatesName) v' ∧ ∃ bytes,
        v'.cells certificatesName = some ⟨bytes, cell.synced, true⟩ ∧ Certified c visible bytes ∧
        bytes.length = smallEnvelopeBytes + visible.length * smallEnvelopeBytes)
      (fun _ fs' => ∃ v' durable', M.Shows fs' v' ∧ v.Grows (· = certificatesName) v' ∧
        DiskInv c used v' visible durable' ∧ (durable' = durable ∨ durable' = visible) ∧ ¬ quiet) fs := by
    unfold JournalStore.cutCertificates
    split
    · have written := View.write_cells_self found (resized (smallEnvelopeBytes + visible.length * smallEnvelopeBytes))
      rw [resized_eq_take long, linked] at written
      have grows : v.Grows (· = certificatesName)
          (v.write certificatesName (resized (smallEnvelopeBytes + visible.length * smallEnvelopeBytes))) := .write _ rfl
      rw [wp_mapError]
      refine wp_mono (M.setLen shows handle found) ?_ ?_
      · intro _ fs' shows
        exact ⟨_, shows, grows, _, written, cut, length_take_of_le long⟩
      · intro _ fs' ⟨after, quietly⟩
        have noisy : ¬ quiet := fun q => absurd (quietly q) (by omega)
        rcases after with shows | shows
        · exact ⟨v, durable, shows, .refl _ _, inv, .inl rfl, noisy⟩
        · refine ⟨_, durable, shows, grows, ⟨?_, inv.ahead, _, written, rfl, cut, certified'⟩, .inl rfl, noisy⟩
          exact inv.stored.certificates grows
    · rename_i whole
      have exactly : cell.bytes.length = smallEnvelopeBytes + visible.length * smallEnvelopeBytes := by
        omega
      exact ⟨v, shows, .refl _ _, cell.bytes, by rw [found, ← linked], certified, exactly⟩
  unfold JournalStore.adoptCertificates
  refine wp_next reached ?_
  intro _ fs' ⟨v', shows, grows, bytes, found', certified, exactly⟩
  have synced : v.Grows (· = certificatesName) (v'.sync certificatesName) := grows.trans (.sync rfl)
  have inv' : DiskInv c used (v'.sync certificatesName) visible visible :=
    ⟨inv.stored.certificates synced, prefix_rfl, _, View.sync_cells_self found', rfl, certified, certified⟩
  rw [wp_mapError]
  refine wp_mono (M.syncData shows (grows.files _ _ handle) found') ?_ ?_
  · intro _ fs' shows
    exact ⟨_, shows, synced, inv', _, View.sync_cells_self found', exactly⟩
  · intro _ fs' ⟨after, noisy⟩
    rcases after with shows | shows
    · refine ⟨v', durable, shows, grows, ⟨?_, inv.ahead, _, found', rfl, certified, certified'⟩, .inl rfl, noisy⟩
      exact inv.stored.certificates grows
    · exact ⟨_, visible, shows, synced, inv', .inr rfl, noisy⟩

omit [Primitives.Lawful] in
theorem TailOk.grow {P : EntryName → Prop} (h : TailOk c v visible tail) (grows : v.Grows P v')
    (outside : ¬ P (segmentName tail.segmentId)) : TailOk c v' visible tail := by
  obtain ⟨bytes, held, inside⟩ := h.inside
  exact { h with inside := ⟨bytes, by rw [grows.now outside, held], inside⟩ }

/-- After the repair every entry a reader sees is durable, and nothing lies behind the last one. -/
theorem repairTails_spec {tails : List SegmentTail}
    (inv : DiskInv c used v visible durable) (found : v.cells certificatesName = some cell)
    (handle : v.files f certificatesName) (directory : v.directories d) (shows : M.Shows fs v)
    (torn : repaired = cell.bytes.length - smallEnvelopeBytes - visible.length * smallEnvelopeBytes)
    (tailsOk : ∀ tail ∈ tails, TailOk c v visible tail) (few : tails.length ≤ visible.length + 1)
    (last : (∃ tail ∈ tails, tail.segmentId = (Tip.after c visible).segment) ∨
      ∃ current, v.cells (segmentName (Tip.after c visible).segment) = some current ∧
        current.bytes.length = (Tip.after c visible).offset) :
    wp (JournalStore.repairTails d f repaired (visible.length * smallEnvelopeBytes) tails)
      (fun _ fs' => ∃ v', M.Shows fs' v' ∧ v.Grows Repairs v' ∧ DiskInv c used v' visible visible ∧
        (∃ cell, v'.cells certificatesName = some cell ∧
          cell.bytes.length = smallEnvelopeBytes + visible.length * smallEnvelopeBytes) ∧
        ∃ current, v'.cells (segmentName (Tip.after c visible).segment) = some current ∧
          current.bytes.length = (Tip.after c visible).offset)
      (fun _ fs' => ∃ v' durable', M.Shows fs' v' ∧ v.Grows Repairs v' ∧
        DiskInv c used v' visible durable' ∧ (durable' = durable ∨ durable' = visible) ∧ ¬ quiet) fs := by
  have log : ∀ n, n = certificatesName → Repairs n := fun _ same => .inl same
  have segment : ∀ id n, n = segmentName id → Repairs n := fun id n same => .inr (same ▸ isSegment_segmentName id)
  unfold JournalStore.repairTails
  refine wp_step (adoptCertificates_spec M inv found handle shows torn) ?_ ?_
  swap
  · rintro _ fs' ⟨v', durable', shows, grows, rest⟩
    exact ⟨v', durable', shows, grows.mono log, rest⟩
  rintro _ fs' ⟨v', shows, grows, inv', cell', found', exactly⟩
  have apart : ∀ id, ¬ segmentName id = certificatesName := fun _ => by rintro ⟨⟩
  let Inv : List SegmentTail → Nat → F → Prop := fun rest ignored fs => ∃ w, M.Shows fs w ∧ v.Grows Repairs w ∧
    DiskInv c used w visible visible ∧
    (∃ cell, w.cells certificatesName = some cell ∧
      cell.bytes.length = smallEnvelopeBytes + visible.length * smallEnvelopeBytes) ∧
    (∀ tail ∈ rest, TailOk c w visible tail) ∧
    ((∃ tail ∈ rest, tail.segmentId = (Tip.after c visible).segment) ∨
      ∃ current, w.cells (segmentName (Tip.after c visible).segment) = some current ∧
        current.bytes.length = (Tip.after c visible).offset) ∧
    ignored + rest.length * journalSegmentLimit ≤ tails.length * journalSegmentLimit
  have start : Inv tails 0 fs' := by
    refine ⟨v', shows, grows.mono log, inv', ⟨cell', found', exactly⟩, ?_, ?_, by omega⟩
    · intro tail mem
      exact (tailsOk tail mem).grow grows (apart _)
    · exact last.imp id (grows.keeps_length (apart _))
  have limit : tails.length * journalSegmentLimit < wordLimit := by
    have room := inv.stored.chain.room
    simp only [journalSegmentLimit, wordLimit, smallEnvelopeBytes, certificateLogLimit] at room ⊢
    omega
  refine wp_mono (wp_foldlM Inv start ?_) ?_ fun _ _ h => h
  · rintro tail rest ignored fs ⟨w, shows, grows, inv, certificates, tailsOk, last, sum⟩
    have tailOk := tailsOk tail mem_cons_self
    refine wp_step (cutTail_spec M inv tailOk (grows.directory directory) shows) ?_ ?_
    swap
    · rintro _ fs' ⟨w', shows, cut, inv', noisy⟩
      exact ⟨w', visible, shows, grows.trans (cut.mono (segment _)), inv', .inr rfl, noisy⟩
    rintro _ fs' ⟨w', shows, cut, inv', current, held, length⟩
    have extra := tailOk.extra
    have shorter : ignored + tail.extraBytes + rest.length * journalSegmentLimit ≤ tails.length * journalSegmentLimit := by
      rw [length_cons, Nat.succ_mul] at sum
      omega
    have word : ignored + tail.extraBytes < wordLimit := by omega
    rw [checked_pos word, wp_lift]
    refine ⟨?_, by simp⟩
    rintro _ ⟨⟩
    refine ⟨w', shows, grows.trans (cut.mono (segment _)), inv', ?_, ?_, ?_, shorter⟩
    · exact cut.keeps_length (fun same => apart _ same.symm) certificates
    · intro other mem
      have before := tailsOk other (mem_cons_of_mem _ mem)
      by_cases same : other.segmentId = tail.segmentId
      · refine { before with inside := ⟨current.bytes, ?_, ?_⟩ }
        · rw [same]
          simp [View.now, held]
        · rw [length, before.committed, tailOk.committed, same]
      · exact before.grow cut fun named => same (segmentName_injective named)
    · by_cases same : tail.segmentId = (Tip.after c visible).segment
      · refine .inr ⟨current, same ▸ held, ?_⟩
        rw [length, tailOk.committed, same, inv.stored.chain.offset_eq]
      · rcases last with ⟨other, mem, named⟩ | held'
        · rcases mem_cons.mp mem with rfl | mem
          · exact absurd named same
          · exact .inl ⟨other, mem, named⟩
        · exact .inr (cut.keeps_length (fun named => same (segmentName_injective named).symm) held')
  · rintro _ fs' ⟨w, shows, grows, inv, certificates, _, last, _⟩
    refine ⟨w, shows, grows, inv, certificates, last.resolve_left ?_⟩
    rintro ⟨_, mem, -⟩
    cases mem

end Repairing

section Opening

variable {F W E I : Type} {H : Handles} [FileSystem F H] [Primitives] [Primitives.Lawful] [DurableKeyEnvelope W]
  {quiet : Prop} (M : FileModel F Kept quiet) {fs : F} {v : View EntryName H} {c : Charter W}
  {used : BlobInventory → Prop} {visible durable : List Entry} {d : H.Directory} {g : H.Guard}
  {unwrap : DatabaseId → W → Except CryptoError (Octets 32)}

/-- The key adapter opens the envelope that creation stored. -/
structure Unlocks (c : Charter W) (unwrap : DatabaseId → W → Except CryptoError (Octets 32)) : Prop where
  nonempty : c.keyBytes.length ≠ 0
  bounded : c.keyBytes.length ≤ maxKeyEnvelopeBytes
  decodes : DurableKeyEnvelope.decodeDurable c.keyBytes = .ok c.wrapped
  unwraps : unwrap c.database c.wrapped = .ok c.key

variable {vaultEntropy : E}

omit [Primitives.Lawful] in
theorem openVault_spec (unlocks : Unlocks c unwrap) (stored : Stored c used v visible)
    (directory : v.directories d) (shows : M.Shows fs v) : wp (JournalStore.openVault d c.database vaultEntropy unwrap)
      (fun vault fs' => M.Shows fs' v ∧ c.Opens vault) (Faulted M v) fs := by
  have there := (stored.now _).key rfl
  obtain ⟨cell, found, bytes⟩ := View.now_eq_some.mp there
  unfold JournalStore.openVault
  refine wp_next (openRequired_spec M shows directory there) ?_
  intro file fs' ⟨shows, handle⟩
  refine wp_next (metadata_spec M shows handle found) ?_
  intro length fs' ⟨shows, same⟩
  rw [bytes] at same
  subst same
  apply wp_pass ⟨unlocks.nonempty, unlocks.bounded⟩
  refine wp_next (readBounded_spec M shows handle found (by rw [bytes]; omega)) ?_
  intro read fs' ⟨shows, same⟩
  rw [bytes, slice_all (Nat.le_refl _)] at same
  subst same
  refine wp_known unlocks.decodes ?_
  rw [KeyVault.unlock, KeyVault.fromLocked, unlocks.unwraps, ok_bind, wp_lift]
  refine ⟨?_, nofun⟩
  rintro _ ⟨⟩
  exact ⟨shows, rfl, rfl⟩

section

omit [DurableKeyEnvelope W]

variable {vault : KeyVault W E}

theorem openManifest_spec (opens : c.Opens vault) (stored : Stored c used v visible)
    (directory : v.directories d) (shows : M.Shows fs v) : wp (JournalStore.openManifest d c.database vault)
      (fun read fs' => M.Shows fs' v ∧ read = (c.manifest, c.epoch)) (Faulted M v) fs := by
  obtain ⟨bytes, there, isSealed⟩ := (stored.now _).manifest rfl
  obtain ⟨cell, found, rfl⟩ := View.now_eq_some.mp there
  have size := small_sealed isSealed
  obtain ⟨envelope, decoded, epoch, opened⟩ := decrypt_sealed opens rfl isSealed
  unfold JournalStore.openManifest
  refine wp_next (openRequired_spec M shows directory there) ?_
  intro file fs' ⟨shows, handle⟩
  unfold requireExactLen
  rw [wp_bind]
  refine wp_next (metadata_spec M shows handle found) ?_
  intro length fs' ⟨shows, same⟩
  refine wp_ensure.mpr ⟨fun _ => ?_, fun outside => absurd (same.trans size) outside⟩
  refine wp_next (readBounded_spec M shows handle found (by rw [size]; omega)) ?_
  intro read fs' ⟨shows, same⟩
  rw [slice_all (Nat.le_of_eq size)] at same
  subst same
  refine wp_known decoded ?_
  rw [epoch]
  refine wp_known opened ?_
  refine wp_known (Manifest.decode_encode c.writer_ne c.log_ne c.segment_ne) ?_
  apply wp_pass ⟨rfl, rfl⟩
  exact ⟨shows, rfl⟩

theorem openCertificates_spec {cell : Cell} (opens : c.Opens vault)
    (found : v.cells certificatesName = some cell) (certified : Certified c visible cell.bytes)
    (directory : v.directories d) (shows : M.Shows fs v) :
    wp (JournalStore.openCertificates d c.database vault c.manifest c.epoch)
      (fun read fs' => M.Shows fs' v ∧ v.files read.1 certificatesName ∧ read.2 = cell.bytes.length) (Faulted M v) fs := by
  obtain ⟨front, torn, isSealed, whole, -, limit⟩ := certified
  have size := small_sealed isSealed
  obtain ⟨envelope, decoded, -, opened⟩ := decrypt_sealed opens rfl isSealed
  have long : smallEnvelopeBytes ≤ cell.bytes.length := by
    rw [whole, append_assoc, length_append, size]
    omega
  have verified : verifyCertificateHeader vault c.database c.epoch c.manifest.certificateLogId c.manifest.writer front =
      .ok () := by
    unfold verifyCertificateHeader
    rw [decoded, mapError_ok, ok_bind, Charter.manifest, opened, mapError_ok, ok_bind]
    exact require_pos _ rfl
  unfold JournalStore.openCertificates
  refine wp_next (openRequired_spec M shows directory (View.now_eq_some.mpr ⟨cell, found, rfl⟩)) ?_
  rintro file fs' ⟨shows, handle⟩
  refine wp_next (metadata_spec M shows handle found) ?_
  rintro length fs' ⟨shows, same⟩
  subst same
  apply wp_pass ⟨long, limit⟩
  refine wp_next (readBounded_spec M shows handle found (by omega)) ?_
  rintro read fs' ⟨shows, same⟩
  have header : read = front := by
    rw [same, whole, append_assoc]
    exact slice_here size
  subst header
  refine wp_known verified ?_
  exact ⟨shows, handle, rfl⟩

theorem openInitialSegment_spec (opens : c.Opens vault) (stored : Stored c used v visible)
    (directory : v.directories d) (shows : M.Shows fs v) :
    wp (JournalStore.openInitialSegment d c.database vault c.manifest c.epoch)
      (fun file fs' => M.Shows fs' v ∧ v.files file (segmentName c.initialSegmentId)) (Faulted M v) fs := by
  have mem := stored.chain.initial
  obtain ⟨bytes, there, ok⟩ := (stored.now _).segment _ mem rfl
  unfold JournalStore.openInitialSegment
  refine wp_next (openRequired_spec M shows directory there) ?_
  intro file fs' ⟨shows, handle⟩
  have checked := verifySegmentHeader_spec M opens shows handle there ok stored.chain mem
  refine wp_next checked ?_
  intro header fs' ⟨shows, same⟩
  rw [same]
  apply wp_pass ⟨rfl, rfl⟩
  exact ⟨shows, handle⟩

end

/-- What a failed attempt to open leaves behind. -/
def OpenFailed (c : Charter W) (used : BlobInventory → Prop) (v : View EntryName H) (visible durable : List Entry)
    (fs' : F) : Prop :=
  ∃ v' durable', M.Shows fs' v' ∧ DiskInv c used v' visible durable' ∧ (durable' = durable ∨ durable' = visible) ∧
    v'.owner = v.owner

omit [Primitives] [Primitives.Lawful] [DurableKeyEnvelope W] in
theorem Scanning.grow {P : EntryName → Prop} {v' : View EntryName H} {scan : Scan H W E} (h : Scanning c v scan)
    (grows : v.Grows P v') : Scanning c v' scan :=
  { h with directory := grows.directory h.directory, certificates := grows.files _ _ h.certificates }

omit [DurableKeyEnvelope W] in
theorem recoverFrontier_spec {V : Type} {visitor : V → RecoveredGroup → Except StorageError V} {init : V} {cell : Cell}
    {first : Scan H W E} {initialSegmentFile : H.File} {repaired : Nat} (noCollision : Collisionless c.toOrigin used)
    (inv : DiskInv c used v visible durable) (scanning : Scanning c v first)
    (untrusting : first.trustedBlobInventories = ∅) (silent : first.invokeVisitor = false)
    (found : v.cells certificatesName = some cell) (initial : v.files initialSegmentFile (segmentName c.initialSegmentId))
    (torn : repaired = cell.bytes.length - smallEnvelopeBytes - visible.length * smallEnvelopeBytes)
    (shows : M.Shows fs v) : wp (JournalStore.recoverFrontier first initialSegmentFile visible.length repaired
        (visible.length * smallEnvelopeBytes) visitor init)
      (fun result fs' => ∃ v', M.Shows fs' v' ∧ v.Grows Repairs v' ∧ DiskInv c used v' visible visible ∧
        (∃ cell, v'.cells certificatesName = some cell ∧
          cell.bytes.length = smallEnvelopeBytes + visible.length * smallEnvelopeBytes) ∧
        (∃ current, v'.cells (segmentName (Tip.after c visible).segment) = some current ∧
          current.bytes.length = (Tip.after c visible).offset) ∧
        (∃ (state : ScanState H) (scan : Scan H W E) (tails : List SegmentTail), scan.retainCertificateAnchors = first.retainCertificateAnchors ∧
          Scanned c v' scan visible state ∧ result.1 = { state with uncommittedTails := tails }) ∧
        (visible.map Entry.recovered).foldlM visitor init = .ok result.2.2)
      (fun err fs' => OpenFailed M c used v visible durable fs' ∧
        (quiet → (visible.map Entry.recovered).foldlM visitor init = .error err)) fs := by
  obtain ⟨cell', found', linked, certified, certified'⟩ := inv.certificates
  obtain rfl := Option.some.inj (found.symm.trans found')
  unfold JournalStore.recoverFrontier
  have trusts : Trusts c visible first := by rw [Trusts, untrusting, silent]; rfl
  have accepts : (visible.map Entry.recovered).foldlM (fun (_ : Unit) _ => (.ok () : Except StorageError Unit)) () =
      .ok () := foldlM_unit_iff.mpr fun _ _ => rfl
  refine wp_step (scanCertificates_spec M (fun _ _ _ => rfl) scanning trusts noCollision inv.stored found certified initial
    shows) ?_ ?_
  swap
  · intro err fs' ⟨shows, refused⟩
    refine ⟨⟨v, durable, shows, inv, .inl rfl, rfl⟩, fun q => ?_⟩
    rw [accepts] at refused
    cases refused q
  rintro ⟨validated, _⟩ fs' ⟨shows, -, state, tails, scanned, same, tailsOk, few, last⟩
  subst same
  refine wp_step (repairTails_spec M inv found scanning.certificates scanning.directory shows torn tailsOk few last) ?_ ?_
  swap
  · intro err fs' ⟨v', durable', shows, grows, inv', which, noisy⟩
    exact ⟨⟨v', durable', shows, inv', which, grows.owner⟩, fun q => absurd q noisy⟩
  intro ignored fs' ⟨v', shows, grows, inv', certificates, current⟩
  obtain ⟨cell', found', exactly⟩ := certificates
  obtain ⟨cell'', found'', linked', certified', -⟩ := inv'.certificates
  obtain rfl := Option.some.inj (found'.symm.trans found'')
  have trusts' : Trusts c visible { first with
      trustedBlobInventories := state.verifiedBlobInventories, invokeVisitor := true } := by
    rw [Trusts, scanned.verified, silent]
    rfl
  have scanning' : Scanning c v' { first with
      trustedBlobInventories := state.verifiedBlobInventories, invokeVisitor := true } :=
    { scanning.grow grows with }
  refine wp_step (scanCertificates_spec M nofun scanning' trusts' noCollision inv'.stored found' certified'
    (grows.files _ _ initial) shows) ?_ ?_
  swap
  · intro err fs' ⟨shows, refused⟩
    exact ⟨⟨v', visible, shows, inv', .inr rfl, grows.owner⟩, refused⟩
  rintro ⟨replayed, visited⟩ fs' ⟨shows, accepted, state', tails', scanned', same, -⟩
  subst same
  refine wp_pass ?_ ?_
  · dsimp only
    rw [scanned'.segment, scanned'.offset, scanned'.frontier, scanned'.digest, scanned'.anchors, scanned'.inventories,
      scanned'.blobs, scanned'.blobBytes, scanned'.bindings, scanned.segment, scanned.offset, scanned.frontier,
      scanned.digest, scanned.anchors, scanned.inventories, scanned.blobs, scanned.blobBytes, scanned.bindings]
    exact ⟨rfl, rfl, rfl, rfl, rfl, rfl, rfl, rfl, rfl⟩
  · exact ⟨v', shows, grows, inv', ⟨cell', found', exactly⟩, current, ⟨state', _, tails', by rfl, scanned', rfl⟩, accepted⟩

variable {identityEntropy : I} {limits : Option CertificateAnchorReadLimits}

section

variable (unlocks : Unlocks c unwrap) (noCollision : Collisionless c.toOrigin used) (inv : DiskInv c used v visible durable)

include unlocks noCollision inv

theorem openLocked_spec {V : Type} {visitor : V → RecoveredGroup → Except StorageError V} {init : V}
    (directory : v.directories d) (owner : v.owner = some g) (shows : M.Shows fs v) :
    wp (JournalStore.openLocked d g c.database vaultEntropy identityEntropy unwrap limits visitor init)
      (fun result fs' => ∃ v', M.Shows fs' v' ∧ LiveInv c used result.1 v' visible ∧
        result.1.certificateReadLimits = limits ∧ (visible.map Entry.recovered).foldlM visitor init = .ok result.2.2)
      (fun err fs' => OpenFailed M c used v visible durable fs' ∧
        (quiet → limits = none → (visible.map Entry.recovered).foldlM visitor init = .error err)) fs := by
  have faulted : ∀ (err : StorageError) (fs' : F), Faulted M v err fs' → OpenFailed M c used v visible durable fs' ∧
      (quiet → limits = none → (visible.map Entry.recovered).foldlM visitor init = .error err) :=
    fun _ _ h => ⟨⟨v, durable, h.1, inv, .inl rfl, rfl⟩, fun q => absurd q h.2⟩
  have stored := inv.stored
  have chain := stored.chain
  obtain ⟨cell, found, linked, certified, certified'⟩ := inv.certificates
  have counted : JournalStore.certificatePayload cell.bytes.length = (visible.length, visible.length * smallEnvelopeBytes,
      cell.bytes.length - smallEnvelopeBytes - visible.length * smallEnvelopeBytes) := by
    rw [JournalStore.certificatePayload, (certified.lengths chain).2.1]
  unfold JournalStore.openLocked
  refine wp_step (openVault_spec M unlocks stored directory shows) ?_ faulted
  intro vault fs' ⟨shows, opens⟩
  refine wp_step (openManifest_spec M opens stored directory shows) ?_ faulted
  rintro _ fs' ⟨shows, rfl⟩
  refine wp_step (openCertificates_spec M opens found certified directory shows) ?_ faulted
  rintro ⟨certificateFile, _⟩ fs' ⟨shows, certificateHandle, rfl⟩
  refine wp_step (openInitialSegment_spec M opens stored directory shows) ?_ faulted
  intro initialSegmentFile fs' ⟨shows, initialHandle⟩
  rw [counted, wp_bind, wp_ensure]
  refine ⟨fun _ => ?_, fun outside => ⟨⟨v, durable, shows, inv, .inl rfl, rfl⟩, fun _ unlimited => ?_⟩⟩
  swap
  · subst unlimited
    exact absurd nofun outside
  refine wp_step (recoverFrontier_spec M noCollision inv ⟨opens, directory, certificateHandle, rfl, rfl, rfl⟩ rfl rfl found
    initialHandle rfl shows) ?_ fun _ _ h => ⟨h.1, fun q _ => h.2 q⟩
  rintro ⟨replayed, ignored, visited⟩ fs' ⟨v', shows, grows, inv', certificates, current, scanned, accepted⟩
  obtain ⟨state, scan, tails, retains, scanned, same⟩ := scanned
  subst same
  refine ⟨v', shows, ?_, rfl, accepted⟩
  have anchors : state.certificateAnchors = if limits.isNone then (Tip.after c visible).anchors else ∅ := by
    rw [scanned.anchors, retains]
  exact {
    disk := inv'
    owns := ⟨rfl, rfl, rfl, rfl, opens, grows.directory directory, grows.owner.trans owner⟩
    tip := ⟨scanned.segment, scanned.offset, scanned.frontier, scanned.digest, anchors, scanned.inventories, scanned.blobs,
      scanned.blobBytes, scanned.bindings⟩
    healthy := rfl
    certificateFile := grows.files _ _ certificateHandle
    segmentFile := scanned.file
    certificates := certificates
    current := current }

/-- Opening recovers exactly the entries a reader sees, or leaves them to the next attempt. -/
theorem openInternal_spec {V : Type} {visitor : V → RecoveredGroup → Except StorageError V} {init : V}
    (free : v.owner = none) (shows : M.Shows fs v) :
    wp (JournalStore.openInternal c.finalName c.database vaultEntropy identityEntropy unwrap limits visitor init)
      (fun (result : JournalStore H W E I × RecoveryReport × V) fs' => ∃ v', M.Shows fs' v' ∧
        LiveInv c used result.1 v' visible ∧
        result.1.certificateReadLimits = limits ∧ (visible.map Entry.recovered).foldlM visitor init = .ok result.2.2)
      (fun err fs' => OpenFailed M c used v visible durable fs' ∧
        (quiet → limits = none → (visible.map Entry.recovered).foldlM visitor init = .error err)) fs := by
  have faulted : ∀ (err : StorageError) (fs' : F), M.Shows fs' v ∧ ¬ quiet → OpenFailed M c used v visible durable fs' ∧
      (quiet → limits = none → (visible.map Entry.recovered).foldlM visitor init = .error err) :=
    fun _ _ h => ⟨⟨v, durable, h.1, inv, .inl rfl, rfl⟩, fun q => absurd q h.2⟩
  unfold JournalStore.openInternal
  rw [wp_bind, wp_read, ← inv.stored.mount]
  refine wp_maps (M.openDirectory shows) ?_ fun _ fs' h => faulted _ fs' h
  intro directory fs' ⟨shows, handle⟩
  obtain ⟨_, there⟩ := (inv.stored.now _).lock rfl
  obtain ⟨cell, found, -⟩ := View.now_eq_some.mp there
  refine wp_maps (M.tryLockExclusive shows handle found) ?_ ?_
  swap
  · intro _ fs' ⟨shows, busy⟩
    exact faulted _ fs' ⟨shows, fun q => busy q free⟩
  intro guard fs' ⟨_, shows⟩
  rw [wp_onError]
  refine wp_mono (openLocked_spec M unlocks noCollision (inv.owner (some guard)) handle rfl shows) (fun _ _ h => h) ?_
  intro err fs' ⟨⟨v', durable', shows, inv', which, owner⟩, refused⟩
  exact ⟨⟨{ v' with owner := none }, durable', M.release shows owner, inv'.owner _, which, free.symm⟩, refused⟩

end

end Opening

end Uste.Storage
