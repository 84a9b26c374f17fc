import Uste.Storage.Journal

/-!
Resumable uploads over what is durable of them: the chunks of an upload, how many of them have
their final names, and the manifest that ends it. A call is given what the files answer at each
step that reaches them, so that every failure of the disk is an input of the model.
-/

namespace Uste.Storage

open Types Crypto Program Std List

inductive TerminalState where
  | none
  | final (reference : BlobReference)
  | aborted
  deriving DecidableEq

structure BlobUploadToken where
  scope : NamespaceRef
  upload : Octets 16
  deriving DecidableEq

def deriveBlobId [Primitives] (scope : NamespaceRef) (upload : Octets 16) : BlobId where
  bytes := (sha256 (ascii "USTE-BLOB-ID-V1" ++ [0] ++ scope.database.bytes.bytes ++ scope.namespaceId.bytes.bytes ++
    upload.bytes)).bytes.take 16
  length_bytes := by simp

/-- The blob is derived, so that no other upload has the names of its chunks. -/
def BlobUploadToken.blob [Primitives] (token : BlobUploadToken) : BlobId := deriveBlobId token.scope token.upload

/-- What the directory shows of one upload: chunks under their staging names, chunks under their final names, and the
manifest that ends it. -/
structure DurableUpload where
  staging : ExtTreeMap Nat (List UInt8) := ∅
  final : ExtTreeMap Nat (List UInt8) := ∅
  terminal : TerminalState := .none

abbrev UploadStore := ExtTreeMap BlobKey DurableUpload

namespace UploadStore

def get (store : UploadStore) (token : BlobUploadToken) : DurableUpload :=
  store[(⟨token.scope, token.upload⟩ : BlobKey)]?.getD {}

def put (store : UploadStore) (token : BlobUploadToken) (durable : DurableUpload) : UploadStore :=
  store.insert ⟨token.scope, token.upload⟩ durable

@[simp] theorem get_put (store : UploadStore) (token : BlobUploadToken) (durable : DurableUpload) :
    (store.put token durable).get token = durable := by
  simp [get, put]

theorem get_put_ne (store : UploadStore) {token other : BlobUploadToken} (durable : DurableUpload) (h : other ≠ token) :
    (store.put token durable).get other = store.get other := by
  unfold get put
  rw [getElem?_insert_ne]
  intro same
  cases other
  cases token
  cases same
  exact h rfl

end UploadStore

/-- A step that reaches the disk is done, or fails before it is durable, or is durable although it reports an error. -/
inductive Io where
  | done
  | lost (error : StorageError)
  | kept (error : StorageError)

/-- What the files answer in the course of one call. -/
structure UploadIo where
  lease : Except StorageError Unit := .ok ()
  terminal : Except StorageError Unit := .ok ()
  verify : Except StorageError Unit := .ok ()
  read : Nat → Except StorageError Unit := fun _ => .ok ()
  flush : Nat → Io := fun _ => .done
  progress : Except StorageError Unit := .ok ()
  rename : Nat → Io := fun _ => .done
  remove : Nat → Io := fun _ => .done
  sync : Except StorageError Unit := .ok ()
  manifest : Io := .done

structure UploadOwner where
  database : DatabaseId
  epoch : KeyEpoch
  writer : Octets 16

structure BlobUpload where
  token : BlobUploadToken
  buffer : List UInt8
  durableChunks : Nat
  durableBytes : Nat
  /-- What the hasher was fed with. -/
  hashed : List UInt8
  sealed : Bool
  aborted : Bool
  requiresResume : Bool
  finalized : Option BlobReference
  durableResumeEvidence : Bool
  ownerEpoch : KeyEpoch
  ownerWriter : Octets 16

namespace BlobUpload

def fresh (token : BlobUploadToken) (owner : UploadOwner) : BlobUpload :=
  ⟨token, [], 0, 0, [], false, false, false, none, false, owner.epoch, owner.writer⟩

/-- A lease on one of the process's upload slots may be missing. -/
def new (token : BlobUploadToken) (owner : UploadOwner) (io : UploadIo) : Except StorageError BlobUpload := do
  io.lease
  pure (fresh token owner)

def acceptedBytes (upload : BlobUpload) : Nat := upload.durableBytes + upload.buffer.length

def releaseLease (upload : BlobUpload) : BlobUpload := { upload with buffer := [] }

def updateAfterFlush (upload : BlobUpload) : BlobUpload :=
  { upload with
    hashed := upload.hashed ++ upload.buffer
    durableBytes := upload.durableBytes + upload.buffer.length
    durableChunks := upload.durableChunks + 1
    buffer := [] }

def adopt (upload : BlobUpload) (reference : BlobReference) : BlobUpload :=
  { upload with
    durableChunks := reference.chunkCount
    durableBytes := reference.byteLen
    sealed := true
    finalized := some reference }.releaseLease

end BlobUpload

/-! ### The calls -/

section Calls

abbrev UploadProgram := Program (BlobUpload × UploadStore) StorageError

def onUpload (f : BlobUpload → BlobUpload) : UploadProgram Unit := update fun s => (f s.1, s.2)

def onDurable (f : DurableUpload → DurableUpload) : UploadProgram Unit :=
  update fun s => (s.1, s.2.put s.1.token (f (s.2.get s.1.token)))

def validateOwner (owner : UploadOwner) : UploadProgram Unit := do
  let s ← read
  ensure (s.1.token.scope.database = owner.database ∧ s.1.ownerEpoch = owner.epoch ∧ s.1.ownerWriter = owner.writer)
    .invalidState
  ensure (s.1.requiresResume = false) .needsRecovery

def recoverTerminalState (io : UploadIo) : UploadProgram TerminalState := do
  lift id io.terminal
  let s ← read
  pure (s.2.get s.1.token).terminal

/-- Reach the disk. A step that is durable has its effect even where it reports an error. -/
def reach (io : Io) (durable : DurableUpload → DurableUpload) : UploadProgram Unit :=
  match io with
  | .done => onDurable durable
  | .lost error => fail error
  | .kept error => do
    onDurable durable
    fail error

def orResume (x : UploadProgram Unit) : UploadProgram Unit := do
  match ← attempt x with
  | .ok _ => pure ()
  | .error error =>
    onUpload fun upload => { upload with requiresResume := true }
    fail error

/-- A staging chunk that is already there has to have the bytes of the buffer. -/
def flushBuffer (io : UploadIo) : UploadProgram Unit := do
  let s ← read
  match (s.2.get s.1.token).staging[s.1.durableChunks]? with
  | some existing =>
    lift id (io.read s.1.durableChunks)
    ensure (existing = s.1.buffer) .integrityFailure
  | none => reach (io.flush s.1.durableChunks) fun durable =>
      { durable with staging := durable.staging.insert s.1.durableChunks s.1.buffer }
  lift id io.progress
  onUpload BlobUpload.updateAfterFlush

/-- Fill the buffer and flush it whenever it is full; every round takes a byte. -/
def writeLoop (io : UploadIo) : (rounds : Nat) → List UInt8 → UploadProgram Unit
  | 0, _ => pure ()
  | rounds + 1, remaining =>
    if remaining = [] then pure ()
    else do
      let s ← read
      let room := blobChunkBytes - s.1.buffer.length
      onUpload fun upload => { upload with buffer := upload.buffer ++ remaining.take room }
      let s ← read
      if s.1.buffer.length = blobChunkBytes then orResume (flushBuffer io) else pure ()
      writeLoop io rounds (remaining.drop room)

def writeUpload (owner : UploadOwner) (io : UploadIo) (input : List UInt8) : UploadProgram Unit := do
  validateOwner owner
  match ← recoverTerminalState io with
  | .aborted =>
    onUpload fun upload => { upload with aborted := true }.releaseLease
    fail .invalidState
  | .final reference =>
    onUpload fun upload => { upload.adopt reference with durableResumeEvidence := true }
    fail .invalidState
  | .none =>
    let s ← read
    ensure (s.1.sealed = false ∧ s.1.aborted = false) .invalidState
    ensure (s.1.acceptedBytes + input.length ≤ maxBlobBytes) .resourceLimit
    writeLoop io (input.length + 1) input

variable [Primitives]

def renameChunk (io : UploadIo) (chunk : Nat) : UploadProgram Unit := do
  let s ← read
  let durable := s.2.get s.1.token
  match durable.final[chunk]? with
  | some _ =>
    lift id (io.read chunk)
    ensure (chunk ∉ durable.staging) .integrityFailure
  | none =>
    let bytes ← lift id (orError (.adapter .notFound) durable.staging[chunk]?)
    reach (io.rename chunk) fun durable =>
      { durable with staging := durable.staging.erase chunk, final := durable.final.insert chunk bytes }

def sealUpload (io : UploadIo) : UploadProgram BlobReference := do
  onUpload fun upload => { upload with sealed := true }
  let s ← read
  (List.range s.1.durableChunks).forM (renameChunk io)
  lift id io.sync
  let s ← read
  let reference : BlobReference :=
    ⟨s.1.token.scope, s.1.token.blob, s.1.durableBytes, s.1.durableChunks, sha256 s.1.hashed⟩
  reach io.manifest fun durable => { durable with terminal := .final reference }
  onUpload fun upload => { upload with finalized := some reference }.releaseLease
  pure reference

def finishUpload (owner : UploadOwner) (io : UploadIo) : UploadProgram BlobReference := do
  validateOwner owner
  match ← recoverTerminalState io with
  | .aborted =>
    onUpload fun upload => { upload with aborted := true }.releaseLease
    fail .invalidState
  | .final reference =>
    lift id io.verify
    onUpload fun upload => { upload.adopt reference with durableResumeEvidence := true }
    pure reference
  | .none =>
    let s ← read
    ensure (s.1.aborted = false) .invalidState
    match s.1.finalized with
    | some reference => pure reference
    | none =>
      if s.1.sealed = false ∧ s.1.buffer ≠ [] then orResume (flushBuffer io) else pure ()
      sealUpload io

omit [Primitives] in
def clearStaging (io : UploadIo) : UploadProgram Unit := do
  let s ← read
  (List.range s.1.durableChunks).forM fun chunk =>
    reach (io.remove chunk) fun durable => { durable with staging := durable.staging.erase chunk }
  lift id io.sync
  onUpload fun upload => { upload with durableChunks := 0, durableBytes := 0 }

omit [Primitives] in
def abortUpload (owner : UploadOwner) (io : UploadIo) : UploadProgram Unit := do
  validateOwner owner
  match ← recoverTerminalState io with
  | .final reference =>
    onUpload fun upload => upload.adopt reference
    fail .invalidState
  | .aborted => onUpload fun upload => { upload with aborted := true, hashed := [] }.releaseLease
  | .none => pure ()
  let s ← read
  ensure (s.1.sealed = false) .invalidState
  if s.1.aborted = false then do
    orResume (reach io.manifest fun durable => { durable with terminal := .aborted })
    onUpload fun upload => { upload with aborted := true, hashed := [] }.releaseLease
  else pure ()
  clearStaging io

end Calls

def DurableUpload.chunkAt (durable : DurableUpload) (chunk : Nat) : Except StorageError (Option (List UInt8 × Bool)) :=
  match durable.final[chunk]?, durable.staging[chunk]? with
  | some _, some _ => .error .integrityFailure
  | some bytes, none => .ok (some (bytes, true))
  | none, some bytes => .ok (some (bytes, false))
  | none, none => .ok none

def BlobUpload.takeUp (upload : BlobUpload) (plaintext : List UInt8) (isFinal : Bool) : BlobUpload :=
  { upload with
    hashed := upload.hashed ++ plaintext
    durableBytes := upload.durableBytes + plaintext.length
    durableChunks := upload.durableChunks + 1
    sealed := upload.sealed || isFinal }

/-- Take up the chunks that are there. Only the last one can be partial, and it is sealed then. -/
def resumeChunks (io : UploadIo) (durable : DurableUpload) (upload : BlobUpload) : Except StorageError BlobUpload := do
  io.read upload.durableChunks
  match ← durable.chunkAt upload.durableChunks with
  | none => pure upload
  | some (plaintext, isFinal) =>
    if _fits : plaintext.length ≤ blobChunkBytes ∧ upload.durableBytes + plaintext.length ≤ maxBlobBytes then
      if _short : plaintext.length < blobChunkBytes then pure { upload.takeUp plaintext isFinal with sealed := true }
      else resumeChunks io durable (upload.takeUp plaintext isFinal)
    else .error .integrityFailure
termination_by maxBlobBytes - upload.durableBytes
decreasing_by
  unfold BlobUpload.takeUp blobChunkBytes at *
  simp only
  omega

def resumeUpload (owner : UploadOwner) (io : UploadIo) (token : BlobUploadToken) :
    Program UploadStore StorageError BlobUpload := do
  ensure (token.scope.database = owner.database) .invalidState
  lift id io.terminal
  let store ← Program.read
  match (store.get token).terminal with
  | .aborted => fail .invalidState
  | .final reference =>
    lift id io.verify
    let upload ← lift id (BlobUpload.new token owner io)
    pure { upload.adopt reference with durableResumeEvidence := true }
  | .none =>
    let upload ← lift id (BlobUpload.new token owner io)
    let upload ← lift id (resumeChunks io (store.get token) upload)
    pure { upload with durableResumeEvidence := decide (upload.durableChunks ≠ 0) }

/-! ### What a call does to an upload -/

/-- A handle that remembers the end of its upload remembers what the manifest says. -/
structure Consistent (s : BlobUpload × UploadStore) : Prop where
  finalized : ∀ reference, s.1.finalized = some reference → (s.2.get s.1.token).terminal = .final reference
  aborted : s.1.aborted = true → (s.2.get s.1.token).terminal = .aborted

/-- What every call keeps: other uploads are left alone, an upload that has ended stays as it ended, and while it has
not ended the bytes it accepted only grow, by no more than was added. -/
structure Moves (added : Nat) (s s' : BlobUpload × UploadStore) : Prop where
  token : s'.1.token = s.1.token
  others : ∀ other, other ≠ s.1.token → s'.2.get other = s.2.get other
  ended : (s.2.get s.1.token).terminal ≠ .none → (s'.2.get s.1.token).terminal = (s.2.get s.1.token).terminal
  consistent : Consistent s → Consistent s'
  accepted : (s'.2.get s.1.token).terminal = .none →
    s.1.acceptedBytes ≤ s'.1.acceptedBytes ∧ s'.1.acceptedBytes ≤ s.1.acceptedBytes + added

namespace Moves

variable {added more : Nat} {s s' s'' : BlobUpload × UploadStore}

theorem refl (s : BlobUpload × UploadStore) : Moves added s s :=
  ⟨rfl, fun _ _ => rfl, fun _ => rfl, id, fun _ => ⟨Nat.le_refl _, Nat.le_add_right _ _⟩⟩

theorem trans (first : Moves added s s') (second : Moves more s' s'') : Moves (added + more) s s'' where
  token := second.token.trans first.token
  others other h := (second.others other (first.token ▸ h)).trans (first.others other h)
  ended h := by
    have here := first.ended h
    have next := second.ended (by rw [first.token, here]; exact h)
    rw [first.token, here] at next
    exact next
  consistent h := second.consistent (first.consistent h)
  accepted h := by
    have ended := second.ended
    have next := second.accepted
    rw [first.token] at ended next
    have open' : (s'.2.get s.1.token).terminal = .none := by
      by_contra closed
      exact closed ((ended closed).symm.trans h)
    obtain ⟨low, high⟩ := first.accepted open'
    obtain ⟨low', high'⟩ := next h
    exact ⟨low.trans low', by omega⟩

theorem mono (h : Moves added s s') (le : added ≤ more) : Moves more s s' :=
  { h with accepted := fun none => ⟨(h.accepted none).1, (h.accepted none).2.trans (by omega)⟩ }

theorem upload {f : BlobUpload → BlobUpload} (token : (f s.1).token = s.1.token) (consistent : Consistent s → Consistent (f s.1, s.2))
    (accepted : (s.2.get s.1.token).terminal = .none →
      s.1.acceptedBytes ≤ (f s.1).acceptedBytes ∧ (f s.1).acceptedBytes ≤ s.1.acceptedBytes + added) :
    Moves added s (f s.1, s.2) :=
  ⟨token, fun _ _ => rfl, fun _ => rfl, consistent, accepted⟩

end Moves

section

variable {added : Nat} {upload upload' other : BlobUpload} {store store' : UploadStore}
  (moves : Moves added (upload, store) (upload', store'))

include moves

theorem Moves.kept {token : BlobUploadToken} (ended : (store.get token).terminal ≠ .none) :
    (store'.get token).terminal = (store.get token).terminal := by
  by_cases same : token = upload.token
  · rw [same] at ended ⊢
    exact moves.ended ended
  · rw [moves.others _ same]

theorem Consistent.after (c : Consistent (other, store)) : Consistent (other, store') := by
  refine ⟨fun reference found => ?_, fun found => ?_⟩
  · have final := c.finalized reference found
    exact (moves.kept (by rw [final]; nofun)).trans final
  · have aborted := c.aborted found
    exact (moves.kept (by rw [aborted]; nofun)).trans aborted

end

structure Quiet (s s' : BlobUpload × UploadStore) : Prop where
  token : s'.1.token = s.1.token
  others : ∀ other, other ≠ s.1.token → s'.2.get other = s.2.get other
  terminal : (s'.2.get s.1.token).terminal = (s.2.get s.1.token).terminal
  finalized : s'.1.finalized = s.1.finalized
  aborted : s'.1.aborted = s.1.aborted
  accepted : s'.1.acceptedBytes = s.1.acceptedBytes

namespace Quiet

variable {s s' s'' : BlobUpload × UploadStore}

theorem refl (s : BlobUpload × UploadStore) : Quiet s s := ⟨rfl, fun _ _ => rfl, rfl, rfl, rfl, rfl⟩

theorem trans (first : Quiet s s') (second : Quiet s' s'') : Quiet s s'' where
  token := second.token.trans first.token
  others other h := (second.others other (first.token ▸ h)).trans (first.others other h)
  terminal := by
    have next := second.terminal
    rw [first.token] at next
    exact next.trans first.terminal
  finalized := second.finalized.trans first.finalized
  aborted := second.aborted.trans first.aborted
  accepted := second.accepted.trans first.accepted

theorem moves {added : Nat} (h : Quiet s s') : Moves added s s' where
  token := h.token
  others := h.others
  ended _ := h.terminal
  consistent c := by
    refine ⟨fun reference found => ?_, fun found => ?_⟩
    · rw [h.token, h.terminal]
      exact c.finalized reference (h.finalized ▸ found)
    · rw [h.token, h.terminal]
      exact c.aborted (h.aborted ▸ found)
  accepted _ := by
    rw [h.accepted]
    exact ⟨Nat.le_refl _, Nat.le_add_right _ _⟩

theorem durable {f : DurableUpload → DurableUpload} (keeps : ∀ durable, (f durable).terminal = durable.terminal) :
    Quiet s (s.1, s.2.put s.1.token (f (s.2.get s.1.token))) where
  token := rfl
  others other h := UploadStore.get_put_ne _ _ h
  terminal := by rw [UploadStore.get_put, keeps]
  finalized := rfl
  aborted := rfl
  accepted := rfl

theorem orResume (h : Quiet s s') : Quiet s ({ s'.1 with requiresResume := true }, s'.2) :=
  ⟨h.token, h.others, h.terminal, h.finalized, h.aborted, h.accepted⟩

end Quiet

section Specs

variable {s : BlobUpload × UploadStore} {io : UploadIo} {owner : UploadOwner} {added : Nat} {answer : Io}

theorem reach_quiet {f : DurableUpload → DurableUpload} (keeps : ∀ durable, (f durable).terminal = durable.terminal) :
    wp (reach answer f) (fun _ => Quiet s) (fun _ => Quiet s) s := by
  cases answer with
  | done => exact Quiet.durable keeps
  | lost error => exact Quiet.refl s
  | kept error => exact Quiet.durable keeps

variable {x : UploadProgram Unit} {Q E : BlobUpload × UploadStore → Prop}

theorem wp_orResume (h : wp x (fun _ => Q) (fun _ s' => E ({ s'.1 with requiresResume := true }, s'.2)) s) :
    wp (orResume x) (fun _ => Q) (fun _ => E) s := by
  unfold orResume
  refine wp_bind.mpr (wp_attempt.mpr (wp_mono h ?_ ?_))
  · intro _ s' holds
    exact holds
  · intro error s' holds
    exact holds

theorem orResume_quiet
    (h : wp x (fun _ => Q) (fun _ => Quiet s) s) : wp (orResume x) (fun _ => Q) (fun _ => Quiet s) s :=
  wp_orResume (wp_mono h (fun _ _ holds => holds) fun _ _ quiet => quiet.orResume)

theorem quiet_forM {f : Nat → UploadProgram Unit} (chunks : List Nat)
    (step : ∀ chunk s, wp (f chunk) (fun _ => Quiet s) (fun _ => Quiet s) s) :
    wp (chunks.forM f) (fun _ => Quiet s) (fun _ => Quiet s) s := by
  refine wp_forM (fun _ => Quiet s) (Quiet.refl s) fun chunk rest s' quiet => ?_
  exact wp_mono (step chunk s') (fun _ _ next => quiet.trans next) fun _ _ next => quiet.trans next

theorem updateAfterFlush_quiet : Quiet s (s.1.updateAfterFlush, s.2) where
  token := rfl
  others _ _ := rfl
  terminal := rfl
  finalized := rfl
  aborted := rfl
  accepted := by
    unfold BlobUpload.updateAfterFlush BlobUpload.acceptedBytes
    simp

theorem flushBuffer_spec : wp (flushBuffer io) (fun _ s' => Quiet s s' ∧ s'.1.buffer = []) (fun _ => Quiet s) s := by
  have flushed (s' : BlobUpload × UploadStore) (quiet : Quiet s s') :
      wp (lift id io.progress >>= fun _ => onUpload BlobUpload.updateAfterFlush)
        (fun _ s' => Quiet s s' ∧ s'.1.buffer = []) (fun _ => Quiet s) s' := by
    refine wp_lifts (fun _ _ => ?_) fun _ _ => quiet
    exact ⟨quiet.trans updateAfterFlush_quiet, rfl⟩
  unfold flushBuffer
  apply wp_reads
  split
  · refine wp_lifts (fun _ _ => ?_) fun _ _ => Quiet.refl s
    refine wp_checks (fun _ => ?_) fun _ => Quiet.refl s
    exact flushed s (Quiet.refl s)
  · exact wp_step (reach_quiet fun _ => rfl) (fun _ s' quiet => flushed s' quiet) fun _ _ quiet => quiet

theorem fill_moves (bytes : List UInt8) : Moves bytes.length s ({ s.1 with buffer := s.1.buffer ++ bytes }, s.2) := by
  refine .upload (f := fun upload => { upload with buffer := upload.buffer ++ bytes }) rfl
    (fun c => ⟨c.finalized, c.aborted⟩) fun _ => ?_
  unfold BlobUpload.acceptedBytes
  simp only [length_append]
  omega

theorem writeLoop_spec (rounds : Nat) (remaining : List UInt8) : wp (writeLoop io rounds remaining)
    (fun _ s' => Moves remaining.length s s' ∧ (remaining.length < rounds → s.1.buffer.length < blobChunkBytes →
      s'.1.acceptedBytes = s.1.acceptedBytes + remaining.length)) (fun _ => Moves remaining.length s) s := by
  induction rounds generalizing s remaining with
  | zero => exact ⟨Moves.refl s, fun h => by omega⟩
  | succ rounds ih =>
    unfold writeLoop
    split
    · rename_i empty
      exact ⟨Moves.refl s, fun _ _ => by rw [empty]; rfl⟩
    · rename_i nonempty
      have positive : 0 < remaining.length := length_pos_iff.mpr nonempty
      refine wp_bind.mpr (wp_read.mpr (wp_bind.mpr ((wp_update _).mpr (wp_bind.mpr (wp_read.mpr ?_)))))
      simp only
      generalize size : blobChunkBytes - s.1.buffer.length = room
      have taken := fill_moves (s := s) (remaining.take room)
      have total : (remaining.take room).length + (remaining.drop room).length = remaining.length := by
        rw [← length_append, take_append_drop]
      generalize filled : (({ s.1 with buffer := s.1.buffer ++ remaining.take room }, s.2) : BlobUpload × UploadStore) = s1
        at taken ⊢
      have buffered : s1.1.buffer.length = s.1.buffer.length + (remaining.take room).length := by
        rw [← filled]
        simp
      have accepted : s1.1.acceptedBytes = s.1.acceptedBytes + (remaining.take room).length := by
        rw [← filled]
        unfold BlobUpload.acceptedBytes
        simp only [length_append]
        omega
      have rest (s2 : BlobUpload × UploadStore) (quiet : Quiet s1 s2)
          (space : s.1.buffer.length < blobChunkBytes → s2.1.buffer.length < blobChunkBytes) :
          wp (writeLoop io rounds (remaining.drop room))
            (fun _ s' => Moves remaining.length s s' ∧ (remaining.length < rounds + 1 →
              s.1.buffer.length < blobChunkBytes → s'.1.acceptedBytes = s.1.acceptedBytes + remaining.length))
            (fun _ => Moves remaining.length s) s2 := by
        refine wp_mono (ih (remaining.drop room)) ?_ ?_
        · intro _ s' ⟨moved', all⟩
          refine ⟨((taken.trans (quiet.moves : Moves 0 _ _)).trans moved').mono (by omega), fun enough below => ?_⟩
          have dropped : (remaining.drop room).length < rounds := by
            rw [length_drop]
            omega
          rw [all dropped (space below), quiet.accepted, accepted]
          omega
        · intro _ s' moved'
          exact ((taken.trans (quiet.moves : Moves 0 _ _)).trans moved').mono (by omega)
      split
      · refine wp_step (orResume_quiet flushBuffer_spec) ?_ ?_
        · intro _ s2 ⟨quiet, empty⟩
          exact rest s2 quiet fun _ => by rw [empty]; decide
        · intro _ s2 quiet
          exact (taken.trans (quiet.moves : Moves 0 _ _)).mono (by omega)
      · rename_i notFull
        refine rest s1 (Quiet.refl s1) fun below => ?_
        have few := length_take_le room remaining
        rw [length_append] at notFull
        omega

theorem Moves.ended_upload {f : BlobUpload → BlobUpload} (ended : (s.2.get s.1.token).terminal ≠ .none)
    (token : (f s.1).token = s.1.token) (consistent : Consistent s → Consistent (f s.1, s.2)) :
    Moves added s (f s.1, s.2) :=
  .upload token consistent fun none => absurd none ended

theorem Consistent.adopt {reference : BlobReference} (h : Consistent s)
    (final : (s.2.get s.1.token).terminal = .final reference) (evidence : Bool) :
    Consistent ({ s.1.adopt reference with durableResumeEvidence := evidence }, s.2) where
  finalized other found := by
    cases found
    exact final
  aborted found := h.aborted found

theorem terminal_spec {β : Type} {k : TerminalState → UploadProgram β} {Q : β → BlobUpload × UploadStore → Prop}
    (refused : E s) (rest : wp (k (s.2.get s.1.token).terminal) Q (fun _ => E) s) : wp (do
      validateOwner owner
      let terminal ← recoverTerminalState io
      k terminal) Q (fun _ => E) s := by
  unfold validateOwner recoverTerminalState
  simp only [wp_bind, wp_read, wp_ensure, wp_lift, wp_pure]
  exact ⟨fun _ => ⟨fun _ => ⟨fun _ _ => rest, fun _ _ => refused⟩, fun _ => refused⟩, fun _ => refused⟩

/-- What a write does, whether it succeeds or not. -/
structure Writes (input : List UInt8) (s s' : BlobUpload × UploadStore) : Prop where
  moves : Moves input.length s s'
  bounded : (s.2.get s.1.token).terminal = .none →
    s'.1.acceptedBytes = s.1.acceptedBytes ∨ s.1.acceptedBytes + input.length ≤ maxBlobBytes

theorem writeUpload_spec (input : List UInt8) : wp (writeUpload owner io input)
    (fun _ s' => Writes input s s' ∧ (s.2.get s.1.token).terminal = .none ∧
      (s.1.buffer.length < blobChunkBytes → s'.1.acceptedBytes = s.1.acceptedBytes + input.length))
    (fun _ => Writes input s) s := by
  have refused : Writes input s s := ⟨Moves.refl s, fun _ => .inl rfl⟩
  unfold writeUpload
  refine terminal_spec refused ?_
  split
  · rename_i terminal
    refine ⟨Moves.ended_upload (f := fun upload => { upload with aborted := true }.releaseLease) (by rw [terminal]; nofun) rfl
      fun c => ⟨c.finalized, fun _ => terminal⟩, fun none => nomatch terminal.symm.trans none⟩
  · rename_i reference terminal
    exact ⟨Moves.ended_upload (f := fun upload => { upload.adopt reference with durableResumeEvidence := true })
      (by rw [terminal]; nofun) rfl fun c => c.adopt terminal true, fun none => nomatch terminal.symm.trans none⟩
  · rename_i terminal
    apply wp_reads
    refine wp_checks (fun _ => ?_) fun _ => refused
    refine wp_checks (fun small => ?_) fun _ => refused
    refine wp_mono (writeLoop_spec (input.length + 1) input) ?_ fun _ _ moved => ⟨moved, fun _ => .inr small⟩
    intro _ s' ⟨moved, all⟩
    exact ⟨⟨moved, fun _ => .inr small⟩, terminal, all (Nat.lt_succ_self _)⟩

theorem renameChunk_quiet (chunk : Nat) : wp (renameChunk io chunk) (fun _ => Quiet s) (fun _ => Quiet s) s := by
  unfold renameChunk
  apply wp_reads
  simp only
  split
  · refine wp_lifts (fun _ _ => ?_) fun _ _ => Quiet.refl s
    exact wp_ensure.mpr ⟨fun _ => Quiet.refl s, fun _ => Quiet.refl s⟩
  · refine wp_lifts (fun bytes _ => ?_) fun _ _ => Quiet.refl s
    exact reach_quiet fun _ => rfl

variable {s' : BlobUpload × UploadStore} {upload : BlobUpload} {terminal : TerminalState}

theorem Moves.ends (h : Quiet s s')
    (ended : terminal ≠ .none) (still : (s.2.get s.1.token).terminal = .none) (token : upload.token = s'.1.token)
    (finalized : ∀ reference, upload.finalized = some reference → terminal = .final reference)
    (aborted : upload.aborted = true → terminal = .aborted) :
    Moves added s (upload, s'.2.put s'.1.token { s'.2.get s'.1.token with terminal := terminal }) where
  token := token.trans h.token
  others other different := by
    rw [UploadStore.get_put_ne _ _ (h.token ▸ different)]
    exact h.others other different
  ended closed := absurd still closed
  consistent _ := by
    refine ⟨fun reference found => ?_, fun found => ?_⟩
    · rw [token, UploadStore.get_put]
      exact finalized reference found
    · rw [token, UploadStore.get_put]
      exact aborted found
  accepted none := by
    rw [← h.token, UploadStore.get_put] at none
    exact absurd none ended

theorem reach_ends (h : Quiet s s')
    (ended : terminal ≠ .none) (still : (s.2.get s.1.token).terminal = .none) (finalized : s.1.finalized = none)
    (aborted : s.1.aborted = false) : wp (reach answer fun durable => { durable with terminal := terminal })
      (fun _ s'' => s'' = (s'.1, s'.2.put s'.1.token { s'.2.get s'.1.token with terminal := terminal }))
      (fun _ => Moves 0 s) s' := by
  have kept : Moves 0 s (s'.1, s'.2.put s'.1.token { s'.2.get s'.1.token with terminal := terminal }) :=
    .ends h ended still rfl (fun reference found => nomatch (h.finalized.trans finalized).symm.trans found)
      (fun found => nomatch (h.aborted.trans aborted).symm.trans found)
  cases answer with
  | done => exact rfl
  | lost error => exact h.moves
  | kept error => exact kept

theorem sealUpload_spec [Primitives] (h : Quiet s s')
    (still : (s.2.get s.1.token).terminal = .none) (finalized : s.1.finalized = none) (aborted : s.1.aborted = false) :
    wp (sealUpload io) (fun reference s'' => Moves 0 s s'' ∧ (s''.2.get s.1.token).terminal = .final reference)
      (fun _ => Moves 0 s) s' := by
  unfold sealUpload
  refine wp_bind.mpr ((wp_update _).mpr (wp_bind.mpr (wp_read.mpr ?_)))
  have sealed : Quiet s ({ s'.1 with sealed := true }, s'.2) :=
    h.trans ⟨rfl, fun _ _ => rfl, rfl, rfl, rfl, rfl⟩
  refine wp_step (quiet_forM _ fun chunk s => renameChunk_quiet chunk) ?_ fun _ _ quiet => (sealed.trans quiet).moves
  intro _ s1 quiet
  have renamed := sealed.trans quiet
  refine wp_lifts (fun _ _ => ?_) fun _ _ => renamed.moves
  apply wp_reads
  refine wp_step (reach_ends renamed nofun still finalized aborted) ?_ fun _ _ moved => moved
  rintro _ s2 rfl
  refine wp_bind.mpr ((wp_update _).mpr ⟨?_, ?_⟩)
  · refine .ends renamed nofun still rfl (fun reference found => ?_) fun found => ?_
    · cases found
      rfl
    · exact nomatch (renamed.aborted.trans aborted).symm.trans found
  · rw [← renamed.token]
    exact congrArg DurableUpload.terminal (UploadStore.get_put _ _ _)

theorem finishUpload_spec [Primitives] (consistent : Consistent s) : wp (finishUpload owner io)
    (fun reference s' => Moves 0 s s' ∧ (s'.2.get s.1.token).terminal = .final reference) (fun _ => Moves 0 s) s := by
  unfold finishUpload
  refine terminal_spec (Moves.refl s) ?_
  split
  · rename_i terminal
    exact Moves.ended_upload (f := fun upload => { upload with aborted := true }.releaseLease) (by rw [terminal]; nofun) rfl
      fun c => ⟨c.finalized, fun _ => terminal⟩
  · rename_i reference terminal
    refine wp_lifts (fun _ _ => ?_) fun _ _ => Moves.refl s
    exact ⟨Moves.ended_upload (f := fun upload => { upload.adopt reference with durableResumeEvidence := true })
      (by rw [terminal]; nofun) rfl fun c => c.adopt terminal true, terminal⟩
  · rename_i terminal
    apply wp_reads
    refine wp_checks (fun live => ?_) fun _ => Moves.refl s
    split
    · rename_i reference found
      exact ⟨Moves.refl s, consistent.finalized reference found⟩
    · rename_i unfinished
      have quiet : wp (sealUpload io) _ _ s := sealUpload_spec (Quiet.refl s) terminal unfinished live
      split
      · refine wp_step (orResume_quiet (Q := Quiet s) (wp_mono flushBuffer_spec (fun _ _ flushed => flushed.1) fun _ _ q => q)) ?_
          fun _ _ quiet => quiet.moves
        intro _ s1 flushed
        exact sealUpload_spec flushed terminal unfinished live
      · exact quiet

theorem clearStaging_spec (h : Moves 0 s s') (aborted : (s'.2.get s.1.token).terminal = .aborted) : wp (clearStaging io)
      (fun _ s'' => Moves 0 s s'' ∧ (s''.2.get s.1.token).terminal = .aborted) (fun _ => Moves 0 s) s' := by
  unfold clearStaging
  apply wp_reads
  refine wp_step (quiet_forM _ fun chunk s => reach_quiet fun _ => rfl) ?_
    fun _ _ quiet => h.trans (quiet.moves : Moves 0 _ _)
  intro _ s1 quiet
  have removed : Moves 0 s s1 := h.trans (quiet.moves : Moves 0 _ _)
  have still : (s1.2.get s.1.token).terminal = .aborted := by
    rw [← h.token, quiet.terminal, h.token]
    exact aborted
  refine wp_bind.mpr (wp_lift.mpr ⟨fun _ _ => ⟨?_, still⟩, fun _ _ => removed⟩)
  have cleared : Moves 0 s1 ({ s1.1 with durableChunks := 0, durableBytes := 0 }, s1.2) :=
    .ended_upload (f := fun upload => { upload with durableChunks := 0, durableBytes := 0 }) (by rw [removed.token, still]; nofun)
      rfl fun c => ⟨c.finalized, c.aborted⟩
  exact removed.trans cleared

theorem abortUpload_spec (consistent : Consistent s) : wp (abortUpload owner io)
    (fun _ s' => Moves 0 s s' ∧ (s'.2.get s.1.token).terminal = .aborted) (fun _ => Moves 0 s) s := by
  unfold abortUpload
  refine terminal_spec (Moves.refl s) ?_
  split
  · rename_i reference terminal
    exact Moves.ended_upload (f := fun upload => upload.adopt reference) (by simp [terminal]) rfl
      fun c => c.adopt terminal _
  · rename_i terminal
    have noted : Moves 0 s ({ s.1 with aborted := true, hashed := [] }.releaseLease, s.2) :=
      Moves.ended_upload (f := fun upload => { upload with aborted := true, hashed := [] }.releaseLease)
        (by simp [terminal]) rfl fun c => ⟨c.finalized, fun _ => terminal⟩
    refine wp_bind.mpr ((wp_update _).mpr (wp_bind.mpr (wp_read.mpr ?_)))
    refine wp_checks (fun _ => ?_) fun _ => noted
    exact clearStaging_spec noted terminal
  · rename_i terminal
    refine wp_bind.mpr (wp_read.mpr (wp_bind.mpr (wp_ensure.mpr ⟨fun _ => ?_, fun _ => Moves.refl s⟩)))
    -- An open upload's handle does not remember an end.
    have live : s.1.aborted = false := by
      by_contra aborted
      cases terminal.symm.trans (consistent.aborted (by simpa using aborted))
    have unfinished : s.1.finalized = none := by
      cases found : s.1.finalized with
      | none => rfl
      | some reference => cases terminal.symm.trans (consistent.finalized reference found)
    simp only [if_pos live]
    refine wp_step (wp_orResume (wp_mono (reach_ends (Quiet.refl s) (by simp) terminal unfinished live) (fun _ _ ended => ended) ?_))
      ?_ fun _ _ moved => moved
    · intro _ s1 moved
      exact moved.trans ((Quiet.refl s1).orResume.moves : Moves 0 _ _)
    · rintro _ s1 rfl
      refine wp_bind.mpr ((wp_update _).mpr (clearStaging_spec ?_ ?_))
      · exact .ends (Quiet.refl s) (by simp) terminal rfl (fun _ found => absurd (found.symm.trans unfinished) (Option.some_ne_none _)) fun _ => rfl
      · exact congrArg DurableUpload.terminal (UploadStore.get_put _ _ _)

theorem resumeChunks_ok {durable : DurableUpload} {upload' : BlobUpload}
    (h : resumeChunks io durable upload = .ok upload') :
    upload'.token = upload.token ∧ upload'.finalized = upload.finalized ∧ upload'.aborted = upload.aborted := by
  fun_induction resumeChunks io durable upload with
  | case1 upload ih =>
    obtain ⟨_, -, found, -, h⟩ := bind_ok₂ h
    split at h
    · cases h
      exact ⟨rfl, rfl, rfl⟩
    · rename_i plaintext isFinal
      split at h
      · rename_i fits
        split at h
        · cases h
          exact ⟨rfl, rfl, rfl⟩
        · rename_i full
          exact ih plaintext isFinal fits full h
      · cases h

theorem resumeUpload_spec {store : UploadStore} {token : BlobUploadToken} : wp (resumeUpload owner io token)
    (fun upload store' => store' = store ∧ upload.token = token ∧ Consistent (upload, store) ∧
      (store.get token).terminal ≠ .aborted ∧ (upload.durableResumeEvidence = false → (store.get token).terminal = .none))
    (fun _ store' => store' = store) store := by
  unfold resumeUpload
  refine wp_checks (fun _ => ?_) fun _ => rfl
  refine wp_lifts (fun _ _ => ?_) fun _ _ => rfl
  apply wp_reads
  split
  · exact rfl
  · rename_i reference terminal
    refine wp_lifts (fun _ _ => ?_) fun _ _ => rfl
    refine wp_lifts (fun upload made => ?_) fun _ _ => rfl
    obtain ⟨_, -, made⟩ := bind_ok made
    cases made
    exact ⟨rfl, rfl, ⟨fun other found => Option.some.inj found ▸ terminal, nofun⟩, by rw [terminal]; nofun, nofun⟩
  · rename_i terminal
    refine wp_lifts (fun upload made => ?_) fun _ _ => rfl
    obtain ⟨_, -, made⟩ := bind_ok made
    cases made
    refine wp_lifts (fun upload taken => ?_) fun _ _ => rfl
    obtain ⟨same, finalized, aborted⟩ := resumeChunks_ok taken
    have unfinished (other : BlobReference) (found : upload.finalized = some other) : False := nomatch finalized.symm.trans found
    have live (found : upload.aborted = true) : False := nomatch aborted.symm.trans found
    exact ⟨rfl, same, ⟨fun other found => (unfinished other found).elim, fun found => (live found).elim⟩,
      by rw [terminal]; nofun, fun _ => terminal⟩

end Specs

end Uste.Storage
