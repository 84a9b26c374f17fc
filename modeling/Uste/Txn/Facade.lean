import Uste.Txn.Authorized
import Uste.Txn.Commit

/-!
Sessions of one facade: its calls in any order, by any principals, on the handles it has issued,
with whatever the files answer. Each call is given by what it does to the ledger, the handles and
the uploads.
-/

namespace Uste.Txn

open Types Crypto Policy Storage Program FileSystem Std List
open Time (UtcInstant)

/-- A facade with the handles that exist and what is durable of the uploads. -/
structure FacadeSession (S : Type) (H : Handles) (W E I : Type) where
  facade : AuthorizedCoordinator S H W E I
  store : UploadStore
  handles : List AuthorizedBlobUpload

/-- The calls of a session; a handle is named by its place. An upload also moves the entropy and the nonces of the
journal: `drift` does so at any time. A commit finds any files. -/
inductive FacadeCall (F W E I : Type) where
  | start (principal : AuthenticatedPrincipal) (drawn : Except StorageError (Octets 16)) (io : UploadIo)
  | resume (principal : AuthenticatedPrincipal) (token : BlobUploadToken) (io : UploadIo)
  | write (handle : Nat) (principal : AuthenticatedPrincipal) (io : UploadIo) (input : List UInt8)
  | finish (handle : Nat) (principal : AuthenticatedPrincipal) (io : UploadIo)
  | abort (handle : Nat) (principal : AuthenticatedPrincipal) (io : UploadIo)
  | drop (handle : Nat)
  | commit (principal : AuthenticatedPrincipal) (request : AuthorizedTransactionRequest) (observation : Option UtcInstant)
      (cancelled cancelledLater : Bool) (files : F)
  | reconcile (principal : AuthenticatedPrincipal) (completeOutbox : List BlobUploadToken) (io : BlobUploadToken → UploadIo)
  | replacePolicy (authority : AuthenticatedPrincipal) (expected : PolicyVersion) (next : NamespacePolicy)
  | drift (vault : KeyVault W E) (identityEntropy : I)

namespace FacadeSession

variable {S F W E I : Type} {H : Handles} [AuthorizedTransactionState S] [Primitives]

section Run

abbrev SessionProgram (S : Type) (H : Handles) (W E I : Type) := Program (FacadeSession S H W E I) AuthorizedError

section

omit [AuthorizedTransactionState S] [Primitives]

def onFacade {α : Type} (x : Program (AuthorizedCoordinator S H W E I × UploadStore) AuthorizedError α) :
    SessionProgram S H W E I α :=
  zoom (fun s => (s.facade, s.store)) (fun t s => { s with facade := t.1, store := t.2 }) x

def issued (x : Program (AuthorizedCoordinator S H W E I × UploadStore) AuthorizedError AuthorizedBlobUpload) :
    SessionProgram S H W E I Unit := do
  let handle ← onFacade x
  update fun s => { s with handles := handle :: s.handles }

def onHandle {α : Type} (handle : Nat) (x : Program (AuthorizedCoordinator.HandleState S H W E I) AuthorizedError α) :
    SessionProgram S H W E I Unit := do
  let s ← read
  let upload ← lift id (orError .unauthorized s.handles[handle]?)
  let _ ← zoom (fun s => (upload, s.facade, s.store))
    (fun t s => { facade := t.2.1, store := t.2.2, handles := s.handles.set handle t.1 }) x

def dropHandle (handle : Nat) : SessionProgram S H W E I Unit := do
  let s ← read
  let upload ← lift id (orError .unauthorized s.handles[handle]?)
  update fun s => { s with
    facade := { s.facade with ledger := s.facade.ledger.dropHandle upload.uploadId upload.activeHandle }
    handles := s.handles.eraseIdx handle }

end

variable [FileSystem F H] [EntropySource E] [EntropySource I]

open AuthorizedCoordinator in
def run : FacadeCall F W E I → SessionProgram S H W E I Unit
  | .start principal drawn io => issued (startBlobUpload principal drawn io)
  | .resume principal token io => issued (resumeBlobUpload principal token io)
  | .write handle principal io input => onHandle handle (writeBlobUpload principal io input)
  | .finish handle principal io => onHandle handle (finishBlobUpload principal io)
  | .abort handle principal io => onHandle handle (abortBlobUpload principal io)
  | .drop handle => dropHandle handle
  | .commit principal request observation cancelled cancelledLater files => do
    let _ ← zoom (fun s => (s.facade, files)) (fun t s => { s with facade := t.1 })
      (commit principal request observation cancelled cancelledLater)
  | .reconcile principal completeOutbox io => onFacade (completeRecoveredUploadReconciliation principal completeOutbox io)
  | .replacePolicy authority expected next => do
    let s ← read
    let facade ← lift id (s.facade.replaceNamespacePolicy authority expected next)
    update fun s => { s with facade := facade }
  | .drift vault identityEntropy => update fun s => { s with
      facade := { s.facade with
        inner := { s.facade.inner with
          journal := { s.facade.inner.journal with vault := vault, identityEntropy := identityEntropy } } } }

/-- Calls one after the other, each of which meets a condition on the session it finds. -/
inductive Runs (meets : FacadeSession S H W E I → FacadeCall F W E I → Prop) :
    FacadeSession S H W E I → FacadeSession S H W E I → Prop where
  | refl (s : FacadeSession S H W E I) : Runs meets s s
  | step {s s' : FacadeSession S H W E I} {call : FacadeCall F W E I} (before : Runs meets s s') (met : meets s' call) :
      Runs meets s (run call s').2

variable {meets : FacadeSession S H W E I → FacadeCall F W E I → Prop}

theorem Runs.keeps {s s' : FacadeSession S H W E I}
    (runs : Runs meets s s') {P : FacadeSession S H W E I → Prop} (start : P s)
    (step : ∀ s call, P s → meets s call → P (run call s).2) : P s' := by
  induction runs with
  | refl => exact start
  | step before met ih => exact step _ _ ih met

def runAll (calls : List (FacadeCall F W E I)) (s : FacadeSession S H W E I) : FacadeSession S H W E I :=
  calls.foldl (fun s call => (run call s).2) s

theorem Runs.all (s : FacadeSession S H W E I)
    {calls : List (FacadeCall F W E I)} (met : ∀ call ∈ calls, ∀ s, meets s call) : Runs meets s (runAll calls s) := by
  induction calls using List.reverseRecOn with
  | nil => exact .refl s
  | append_singleton calls call ih =>
    unfold runAll
    rw [foldl_append]
    exact .step (ih fun next mem => met next (mem_append_left _ mem)) (met call (by simp) _)

end Run

end FacadeSession

/-! ### The raw commit -/

namespace CommitCoordinator

variable {S F W E I : Type} {H : Handles} [TransactionState S] [Primitives] [FileSystem F H] [EntropySource E]
  [EntropySource I]

/-- What is left of a coordinator by a commit that failed. -/
structure Stopped (c c' : CommitCoordinator S H W E I) : Prop where
  memory : c'.toMemory = c.toMemory
  scope : c'.scope = c.scope
  certain : c'.uncertain = false → c.uncertain = false

/-- A commit that is answered from the past. -/
structure Answered (c : CommitCoordinator S H W E I) (request : TransactionRequest) (outcome : TransactionOutcome) : Prop where
  certain : c.uncertain = false
  recorded : c.outcomes[request.retryKey]? = some outcome
  digest : outcome.requestDigest = transactionRequestDigest request.canonicalRequest (digestOf request.blobInventory)

omit [FileSystem F H] [EntropySource E] [EntropySource I] in
theorem prepareCommit_certain {c : CommitCoordinator S H W E I} {request : TransactionRequest} {observation : Option UtcInstant}
    {cancelled cancelledLater : Bool} {planned : TransactionOutcome ⊕ PreparedCommit S}
    (h : c.prepareCommit request observation cancelled cancelledLater = .ok planned) : c.uncertain = false := by
  obtain ⟨_, admitted, -⟩ := bind_ok h
  obtain ⟨_, certain, -⟩ := bind_ok admitted
  exact require_ok.mp certain

/-- On any files a commit is answered from the past, publishes a fresh change, or fails and changes nothing but the
journal and its certainty. -/
theorem commit_effect (request : TransactionRequest) (observation : Option UtcInstant) (cancelled cancelledLater : Bool)
    (s : CommitCoordinator S H W E I × F) : wp (commit request observation cancelled cancelledLater)
      (fun outcome s' => (s'.1 = s.1 ∧ Answered s.1 request outcome) ∨ ∃ journal change, Fresh s.1 request change ∧
        outcome = change.outcome ∧ s'.1 = { s.1 with journal := journal }.publish request change)
      (fun _ s' => Stopped s.1 s'.1) s := by
  unfold commit
  apply wp_reads
  refine wp_lifts (fun planned prepares => ?_) fun error _ => ⟨rfl, rfl, id⟩
  have certain := prepareCommit_certain prepares
  rcases prepareCommit_cases prepares with ⟨outcome, rfl, known, -, digest⟩ | ⟨change, rfl, fresh⟩
  · exact .inl ⟨rfl, certain, known, digest⟩
  · rw [wp_bind, wp_attempt, onJournal, wp_zoom]
    refine wp_iff.mpr ⟨fun _ t _ => ?_, fun error t _ => ?_⟩
    · exact .inr ⟨t.1, change, fresh, rfl, rfl⟩
    · exact ⟨rfl, rfl, fun _ => certain⟩

end CommitCoordinator

/-! ### The calls of the facade -/

namespace AuthorizedCoordinator

variable {S W E I : Type} {H : Handles} [Primitives]

abbrev withLedger (c : AuthorizedCoordinator S H W E I) (ledger : QuotaLedger) : AuthorizedCoordinator S H W E I :=
  { c with ledger := ledger }

/-- What stands behind a handle when it is issued. -/
structure Issued (s : AuthorizedCoordinator S H W E I × UploadStore) (principal : AuthenticatedPrincipal) (action : Action)
    (handle : AuthorizedBlobUpload) : Prop where
  lease : s.1.authorize principal action = .ok handle.lease
  admitted : s.1.admitHandle principal = .ok ()
  principal : handle.principal = principal.digest
  scope : handle.scope = s.1.scope
  issuer : handle.issuer = s.1.issuer
  token : handle.inner.token = ⟨s.1.scope, handle.uploadId⟩
  active : handle.activeHandle = true
  consistent : Consistent (handle.inner, s.2)

variable {principal : AuthenticatedPrincipal} {io : UploadIo}

theorem startBlobUpload_effect {drawn : Except StorageError (Octets 16)}
    (s : AuthorizedCoordinator S H W E I × UploadStore) : wp (startBlobUpload principal drawn io)
      (fun handle s' => Issued s principal .startUpload handle ∧ drawn = .ok handle.uploadId ∧
        handle.inner.acceptedBytes = 0 ∧ s.1.ledger.staged[handle.uploadId]? = none ∧
        s.1.ledger.stagedByBlob[deriveBlobId s.1.scope handle.uploadId]? = none ∧
        s' = (s.1.withLedger (s.1.ledger.insertStaged handle.uploadId
          ⟨deriveBlobId s.1.scope handle.uploadId, principal.digest, 0, none, 1⟩), s.2))
      (fun _ s' => s' = s) s := by
  unfold startBlobUpload
  apply wp_reads
  refine wp_lifts (fun lease leased => ?_) fun _ _ => rfl
  refine wp_checks (fun _ => ?_) fun _ => rfl
  refine wp_lifts (fun _ admitted => ?_) fun _ _ => rfl
  refine wp_checks (fun _ => ?_) fun _ => rfl
  refine wp_lifts (fun inner started => ?_) fun _ _ => rfl
  refine wp_checks (fun new => ?_) fun _ => rfl
  obtain ⟨_, -, started⟩ := bind_ok started
  obtain ⟨_, -, upload, drawn, _, -, started⟩ := bind_ok₃ (mapError_eq_ok started)
  cases started
  exact ⟨⟨leased, admitted, rfl, rfl, rfl, rfl, rfl, nofun, nofun⟩, drawn, rfl,
    ExtTreeMap.getElem?_eq_none new.1, ExtTreeMap.getElem?_eq_none new.2, rfl⟩

/-- What resuming makes of a reservation: one that is known and idle is taken up, one that is not known is made. -/
inductive Reserves (c : AuthorizedCoordinator S H W E I) (principal : PrincipalDigest) (upload : Octets 16) (acceptedBytes : Nat) :
    QuotaLedger → Prop where
  | known {charge : StagedCharge} (found : c.ledger.staged[upload]? = some charge) (own : charge.principal = principal)
      (idle : charge.liveHandles = 0) : Reserves c principal upload acceptedBytes
        (c.ledger.setStaged upload { charge with acceptedBytes := acceptedBytes, liveHandles := 1 })
  | made (absent : c.ledger.staged[upload]? = none) (free : c.ledger.stagedByBlob[deriveBlobId c.scope upload]? = none) :
      Reserves c principal upload acceptedBytes
        (c.ledger.insertStaged upload ⟨deriveBlobId c.scope upload, principal, acceptedBytes, none, 1⟩)

omit [Primitives] in
theorem setStaged_insertStaged (ledger : QuotaLedger) (upload : Octets 16) (charge : StagedCharge) (charge' : StagedCharge)
    (same : charge'.blob = charge.blob) :
    (ledger.insertStaged upload charge).setStaged upload charge' = ledger.insertStaged upload charge' := by
  have twice : (ledger.staged.insert upload charge).insert upload charge' = ledger.staged.insert upload charge' := by
    refine ExtTreeMap.ext_getElem? fun k => ?_
    simp only [ExtTreeMap.getElem?_insert]
    split <;> rfl
  unfold QuotaLedger.insertStaged QuotaLedger.setStaged
  simp only [twice, same]

theorem reserves {c : AuthorizedCoordinator S H W E I} {upload : Octets 16}
    {acceptedBytes : Nat} {ledger : QuotaLedger} (reservable : c.admitResume principal ⟨c.scope, upload⟩ = .ok ())
    (resumes : resumed c.ledger principal.digest ⟨c.scope, upload⟩ acceptedBytes = .ok ledger) :
    Reserves c principal.digest upload acceptedBytes ledger := by
  unfold admitResume at reservable
  unfold resumed at resumes
  cases found : c.ledger.staged[upload]? with
  | some charge =>
    rw [found] at reservable
    obtain ⟨_, own, idle⟩ := bind_ok reservable
    have mem : upload ∈ c.ledger.staged := mem_of_some found
    simp only [if_pos mem] at resumes
    obtain ⟨charge', found', resumes⟩ := bind_ok resumes
    cases Option.some.inj (found.symm.trans (orError_ok.mp found'))
    obtain ⟨live, counted, resumes⟩ := bind_ok resumes
    obtain ⟨_, -, counted⟩ := bind_ok counted
    cases counted
    cases resumes
    have idle := require_ok.mp idle
    rw [idle]
    exact .known found (require_ok.mp own) idle
  | none =>
    rw [found] at reservable
    obtain ⟨_, -, free⟩ := bind_ok reservable
    have absent : upload ∉ c.ledger.staged := (getElem?_eq_none_iff _ _).mp found
    simp only [if_neg absent] at resumes
    obtain ⟨charge', found', resumes⟩ := bind_ok resumes
    have made : charge' = ⟨deriveBlobId c.scope upload, principal.digest, acceptedBytes, none, 0⟩ := by
      have here := orError_ok.mp found'
      rw [QuotaLedger.insertStaged, ExtTreeMap.getElem?_insert_self] at here
      exact (Option.some.inj here).symm
    subst made
    obtain ⟨live, counted, resumes⟩ := bind_ok resumes
    cases counted
    cases resumes
    have once := setStaged_insertStaged c.ledger upload ⟨deriveBlobId c.scope upload, principal.digest, acceptedBytes, none, 0⟩
      ⟨deriveBlobId c.scope upload, principal.digest, acceptedBytes, none, 1⟩ rfl
    refine once.symm ▸ ?_
    exact .made found (ExtTreeMap.getElem?_eq_none (require_ok.mp free))

theorem resumeBlobUpload_effect {token : BlobUploadToken}
    (s : AuthorizedCoordinator S H W E I × UploadStore) : wp (resumeBlobUpload principal token io)
      (fun handle s' => Issued s principal .resumeUpload handle ∧ token = ⟨s.1.scope, handle.uploadId⟩ ∧
        (s.2.get token).terminal ≠ .aborted ∧
        ∃ ledger, Reserves s.1 principal.digest handle.uploadId handle.inner.acceptedBytes ledger ∧
          s' = (s.1.withLedger ledger, s.2))
      (fun _ s' => s' = s) s := by
  unfold resumeBlobUpload
  apply wp_reads
  refine wp_lifts (fun lease leased => ?_) fun _ _ => rfl
  refine wp_checks (fun inScope => ?_) fun _ => rfl
  refine wp_lifts (fun _ reservable => ?_) fun _ _ => rfl
  refine wp_lifts (fun _ admitted => ?_) fun _ _ => rfl
  rw [wp_bind, wp_mapError, wp_onSnd]
  unfold CommitCoordinator.resumeBlobUpload
  refine wp_lifts (fun _ _ => ?_) fun _ _ => rfl
  rw [wp_mapError]
  refine wp_mono resumeUpload_spec ?_ ?_
  · rintro inner store ⟨rfl, same, consistent, live, -⟩
    refine wp_checks (fun _ => ?_) fun _ => rfl
    refine wp_lifts (fun ledger resumes => ?_) fun _ _ => rfl
    obtain ⟨scope, upload⟩ := token
    cases inScope
    refine ⟨⟨leased, admitted, rfl, rfl, rfl, ?_, rfl, consistent⟩, ?_, live, ledger, ?_, rfl⟩
    · simp only [issue]
      rw [same]
      rfl
    · simp only [issue]
      rw [same]
      rfl
    · simp only [issue]
      rw [same]
      exact reserves reservable resumes
  · rintro error store rfl
    rfl

variable {s : HandleState S H W E I}

omit [Primitives] in
theorem onInnerUpload_effect {α : Type} {x : UploadOwner → UploadProgram α}
    {Q : α → BlobUpload × UploadStore → Prop} {R : BlobUpload × UploadStore → Prop} (refused : R (s.1.inner, s.2.2))
    (h : ∀ owner, wp (x owner) Q (fun _ => R) (s.1.inner, s.2.2)) : wp (onInnerUpload fun c => c.onBlobUpload x)
      (fun a s' => ∃ inner store, s' = ({ s.1 with inner := inner }, s.2.1, store) ∧ Q a (inner, store))
      (fun _ s' => ∃ inner store, s' = ({ s.1 with inner := inner }, s.2.1, store) ∧ R (inner, store)) s := by
  unfold onInnerUpload
  apply wp_reads
  rw [wp_mapError, wp_zoom]
  unfold CommitCoordinator.onBlobUpload
  apply wp_reads
  refine wp_lifts (fun _ _ => ?_) fun _ _ => ⟨_, _, rfl, refused⟩
  rw [wp_mapError]
  exact wp_mono (h _) (fun _ _ holds => ⟨_, _, rfl, holds⟩) fun _ _ holds => ⟨_, _, rfl, holds⟩

def Charged (s : HandleState S H W E I) : Prop :=
  ∃ charge, s.2.1.ledger.staged[s.1.uploadId]? = some charge ∧ charge.acceptedBytes = s.1.inner.acceptedBytes

def Recharged (s : HandleState S H W E I) (added : Nat) (s' : HandleState S H W E I) : Prop :=
  ∃ charge, s.2.1.ledger.staged[s.1.uploadId]? = some charge ∧
    s'.1.inner.acceptedBytes ≤ s.1.inner.acceptedBytes + added ∧
    s'.2.1 = s.2.1.withLedger (s.2.1.ledger.setStaged s.1.uploadId { charge with acceptedBytes := s'.1.inner.acceptedBytes })

/-- What a call leaves that only reaches the upload. -/
structure Reached (s : HandleState S H W E I) (added : Nat) (s' : HandleState S H W E I) : Prop where
  moves : Moves added (s.1.inner, s.2.2) (s'.1.inner, s'.2.2)
  handle : s'.1 = { s.1 with inner := s'.1.inner }

omit [Primitives] in
theorem Reached.uploadId {t : HandleState S H W E I} {added : Nat} (h : Reached s added t) : t.1.uploadId = s.1.uploadId :=
  (congrArg AuthorizedBlobUpload.uploadId h.handle).trans rfl

/-- Where a write does not bring the charge up to date, an upload that is still open was not charged for. -/
def Recharges (s : HandleState S H W E I) (added : Nat) (s' : HandleState S H W E I) : Prop :=
  Recharged s added s' ∨ s'.2.1 = s.2.1 ∧
    ((s'.2.2.get s.1.inner.token).terminal = .none → Charged s → s'.1.inner.acceptedBytes = s.1.inner.acceptedBytes)

variable {input : List UInt8}

omit [Primitives] in
theorem chargeWrite_effect {inner : BlobUpload} {store : UploadStore}
    (writes : Writes input (s.1.inner, s.2.2) (inner, store)) : wp (chargeWrite s.1.inner.acceptedBytes input.length)
      (fun _ s' => Reached s input.length s' ∧ Recharged s input.length s')
      (fun _ s' => Reached s input.length s' ∧ Recharges s input.length s') ({ s.1 with inner := inner }, s.2.1, store) := by
  have unpassed (fails : (store.get s.1.inner.token).terminal = .none → Charged s →
      inner.acceptedBytes = s.1.inner.acceptedBytes) :
      Reached s input.length ({ s.1 with inner := inner }, s.2.1, store) ∧
        Recharges s input.length ({ s.1 with inner := inner }, s.2.1, store) :=
    ⟨⟨writes.moves, rfl⟩, .inr ⟨rfl, fails⟩⟩
  have bounds := writes.moves.accepted
  unfold chargeWrite
  apply wp_reads
  refine wp_checks (fun _ => ?_) fun less => unpassed fun opened _ => absurd (bounds opened).1 less
  refine wp_lifts (fun limit limited => ?_) fun _ beyond => unpassed fun opened _ => ?_
  · obtain ⟨_, -, limited⟩ := bind_ok limited
    cases limited
    refine wp_bind.mpr (wp_ensure.mpr ⟨fun most => ?_, fun more => unpassed fun opened _ =>
      absurd (bounds opened).2 more⟩)
    refine wp_lifts (fun charge found => ?_) fun _ missing => unpassed fun _ charged => ?_
    · replace found := orError_ok.mp found
      refine wp_checks (fun _ => ?_) fun less => unpassed fun opened charged => ?_
      · exact ⟨⟨writes.moves, rfl⟩, charge, found, most, rfl⟩
      · obtain ⟨charge', found', exactly⟩ := charged
        cases Option.some.inj (found.symm.trans found')
        rw [exactly] at less
        exact absurd (bounds opened).1 less
    · obtain ⟨charge, found, -⟩ := charged
      simp only [found] at missing
      cases missing
  · have ended := writes.moves.ended
    have still : (s.2.2.get s.1.inner.token).terminal = .none := by
      by_contra closed
      exact closed ((ended closed).symm.trans opened)
    refine (writes.bounded still).resolve_right fun small => ?_
    rcases bind_error beyond with beyond | ⟨_, -, beyond⟩
    · refine (require_error beyond).1 ?_
      unfold maxBlobBytes at small
      unfold wordLimit
      simp only at small
      omega
    · cases beyond

omit [Primitives] in
theorem writeBlobUpload_effect (s : HandleState S H W E I) : wp (writeBlobUpload principal io input)
      (fun _ s' => Reached s input.length s' ∧ Recharged s input.length s' ∧
        s.2.1.validateUpload principal s.1 .writeUpload = .ok () ∧
        s.2.1.checkStagedProjection principal input.length = .ok () ∧ (s.2.2.get s.1.inner.token).terminal = .none)
      (fun _ s' => s' = s ∨ Reached s input.length s' ∧ Recharges s input.length s') s := by
  unfold writeBlobUpload
  apply wp_reads
  refine wp_lifts (fun _ valid => ?_) fun _ _ => .inl rfl
  refine wp_lifts (fun _ projected => ?_) fun _ _ => .inl rfl
  rw [wp_bind, wp_attempt]
  refine wp_mono (onInnerUpload_effect (s := s) (x := fun owner => writeUpload owner io input)
    (R := Writes input (s.1.inner, s.2.2)) ⟨Moves.refl _, fun _ => .inl rfl⟩ fun owner => writeUpload_spec input) ?_ ?_
  · rintro _ _ ⟨inner, store, rfl, writes, opened, -⟩
    refine wp_step (chargeWrite_effect writes) ?_ fun _ _ charged => .inr charged
    rintro _ s'' ⟨reached, recharged⟩
    exact ⟨reached, recharged, valid, projected, opened⟩
  · rintro error _ ⟨inner, store, rfl, writes⟩
    refine wp_step (chargeWrite_effect writes) ?_ fun _ _ charged => .inr charged
    rintro _ s'' ⟨reached, recharged⟩
    exact .inr ⟨reached, .inl recharged⟩

/-- Finishing gives the reservation back and keeps the charge; only a handle whose finish succeeds is spent. -/
theorem finishBlobUpload_effect (s : HandleState S H W E I)
    (consistent : Consistent (s.1.inner, s.2.2)) : wp (finishBlobUpload principal io)
      (fun reference s' => Moves 0 (s.1.inner, s.2.2) (s'.1.inner, s'.2.2) ∧
        s'.1 = { s.1 with inner := s'.1.inner, activeHandle := false } ∧
        (s'.2.2.get s.1.inner.token).terminal = .final reference ∧
        s.2.1.validateUpload principal s.1 .finishUpload = .ok () ∧
        ∃ charge, s.2.1.ledger.staged[s.1.uploadId]? = some charge ∧ charge.blob = reference.id ∧
          s'.2.1 = s.2.1.withLedger (s.2.1.ledger.setStaged s.1.uploadId
            { charge with finalized := some reference, liveHandles := charge.liveHandles - 1 }))
      (fun _ s' => Reached s 0 s' ∧ s'.2.1 = s.2.1) s := by
  unfold finishBlobUpload
  apply wp_reads
  refine wp_lifts (fun _ valid => ?_) fun _ _ => ⟨⟨Moves.refl _, rfl⟩, rfl⟩
  refine wp_step (onInnerUpload_effect (s := s) (x := fun owner => finishUpload owner io)
    (R := Moves 0 (s.1.inner, s.2.2)) (Moves.refl _) fun owner => finishUpload_spec consistent) ?_ ?_
  · rintro reference _ ⟨inner, store, rfl, moves, final⟩
    apply wp_reads
    refine wp_lifts (fun charge found => ?_) fun _ _ => ⟨⟨moves, rfl⟩, rfl⟩
    refine wp_checks (fun fits => ?_) fun _ => ⟨⟨moves, rfl⟩, rfl⟩
    refine wp_bind.mpr ((wp_update _).mpr (wp_bind.mpr ((wp_update _).mpr ?_)))
    exact ⟨moves, rfl, final, valid, charge, orError_ok.mp found, fits.1, rfl⟩
  · rintro error _ ⟨inner, store, rfl, moves⟩
    exact ⟨⟨moves, rfl⟩, rfl⟩

omit [Primitives] in
theorem abortBlobUpload_effect (s : HandleState S H W E I)
    (consistent : Consistent (s.1.inner, s.2.2)) : wp (abortBlobUpload principal io)
      (fun _ s' => Moves 0 (s.1.inner, s.2.2) (s'.1.inner, s'.2.2) ∧
        s'.1 = { s.1 with inner := s'.1.inner, activeHandle := false } ∧
        (s'.2.2.get s.1.inner.token).terminal = .aborted ∧
        s.2.1.validateUpload principal s.1 .abortUpload = .ok () ∧
        s'.2.1 = s.2.1.withLedger (s.2.1.ledger.removeStaged s.1.uploadId))
      (fun _ s' => Reached s 0 s' ∧ s'.2.1 = s.2.1) s := by
  unfold abortBlobUpload
  apply wp_reads
  refine wp_lifts (fun _ valid => ?_) fun _ _ => ⟨⟨Moves.refl _, rfl⟩, rfl⟩
  refine wp_step (onInnerUpload_effect (s := s) (x := fun owner => abortUpload owner io)
    (R := Moves 0 (s.1.inner, s.2.2)) (Moves.refl _) fun owner => abortUpload_spec consistent) ?_ ?_
  · rintro _ _ ⟨inner, store, rfl, moves, aborted⟩
    refine wp_bind.mpr (wp_read.mpr (wp_bind.mpr ((wp_update _).mpr ((wp_update _).mpr ?_))))
    exact ⟨moves, rfl, aborted, valid, rfl⟩
  · rintro error _ ⟨inner, store, rfl, moves⟩
    exact ⟨⟨moves, rfl⟩, rfl⟩

/-! ### Commit -/

inductive Advances [TransactionState S] (c : CommitCoordinator S H W E I) (request : TransactionRequest) :
    CommitCoordinator S H W E I → Prop where
  | answered {outcome : TransactionOutcome} (past : CommitCoordinator.Answered c request outcome) : Advances c request c
  | fresh {journal : JournalStore H W E I} {change : CommitCoordinator.PreparedCommit S}
      (fresh : CommitCoordinator.Fresh c request change) :
      Advances c request ({ c with journal := journal }.publish request change)

section

variable {F : Type} [AuthorizedTransactionState S] [FileSystem F H] [EntropySource E] [EntropySource I]

abbrev charged (c : AuthorizedCoordinator S H W E I) (principal : AuthenticatedPrincipal) (request : AuthorizedTransactionRequest)
    (inner : CommitCoordinator S H W E I) : AuthorizedCoordinator S H W E I :=
  { c with inner := inner }.chargeInventory principal.digest request.blobInventory

/-- A commit fails before the raw commit or in it, or it has advanced, charged its blobs and, where the request names a
policy, brings the kernel to the durable one. -/
theorem commit_effect {principal : AuthenticatedPrincipal} {request : AuthorizedTransactionRequest}
    {observation : Option UtcInstant} {cancelled cancelledLater : Bool} (s : AuthorizedCoordinator S H W E I × F) :
    wp (commit principal request observation cancelled cancelledLater)
      (fun _ s' => ∃ changes inner, s.1.admitCommit principal request = .ok changes ∧
        Advances s.1.inner (request.of principal.digest) inner ∧
        (changes = none ∧ s'.1 = s.1.charged principal request inner ∨
          changes ≠ none ∧ (s.1.charged principal request inner).synchronizeDurablePolicy principal = .ok s'.1))
      (fun error s' => (∃ inner, CommitCoordinator.Stopped s.1.inner inner ∧ s'.1 = { s.1 with inner := inner }) ∨
        ∃ changes inner, s.1.admitCommit principal request = .ok changes ∧ changes ≠ none ∧
          Advances s.1.inner (request.of principal.digest) inner ∧ s'.1 = s.1.charged principal request inner ∧
          (s.1.charged principal request inner).synchronizeDurablePolicy principal = .error error) s := by
  unfold commit
  apply wp_reads
  refine wp_lifts (fun changes admitted => ?_) fun _ _ => .inl ⟨s.1.inner, ⟨rfl, rfl, id⟩, rfl⟩
  rw [wp_bind, wp_mapError, wp_zoom]
  refine wp_mono (CommitCoordinator.commit_effect _ _ _ _ _) ?_ ?_
  · rintro outcome ⟨inner, files⟩ advanced
    have advances : Advances s.1.inner (request.of principal.digest) inner := by
      rcases advanced with ⟨rfl, past⟩ | ⟨journal, change, fresh, -, rfl⟩
      · exact .answered past
      · exact .fresh fresh
    refine wp_bind.mpr ((wp_update _).mpr ?_)
    cases changes with
    | none => exact ⟨none, inner, admitted, advances, .inl ⟨rfl, rfl⟩⟩
    | some change =>
      apply wp_reads
      refine wp_lifts (fun synchronized done => ?_) fun error failed => ?_
      · exact ⟨some change, inner, admitted, advances, .inr ⟨nofun, done⟩⟩
      · exact .inr ⟨some change, inner, admitted, nofun, advances, rfl, failed⟩
  · rintro error ⟨inner, files⟩ stopped
    exact .inl ⟨inner, stopped, rfl⟩

end

end AuthorizedCoordinator

/-! ### What a call does to a session -/

namespace FacadeSession

variable {S F W E I : Type} {H : Handles} [AuthorizedTransactionState S] [Primitives]

open AuthorizedCoordinator

abbrev withHandle (s : FacadeSession S H W E I) (handle : Nat) (t : HandleState S H W E I) : FacadeSession S H W E I :=
  { facade := t.2.1, store := t.2.2, handles := s.handles.set handle t.1 }

/-- The transitions of a session, with the call, whether it succeeds and the session it leaves. -/
inductive Effect (s : FacadeSession S H W E I) : FacadeCall F W E I → Bool → FacadeSession S H W E I → Prop where
  | refused (call : FacadeCall F W E I) : Effect s call false s
  | started {principal : AuthenticatedPrincipal} {drawn : Except StorageError (Octets 16)} {io : UploadIo}
      {handle : AuthorizedBlobUpload} (issued : Issued (s.facade, s.store) principal .startUpload handle)
      (drew : drawn = .ok handle.uploadId) (empty : handle.inner.acceptedBytes = 0)
      (absent : s.facade.ledger.staged[handle.uploadId]? = none)
      (free : s.facade.ledger.stagedByBlob[deriveBlobId s.facade.scope handle.uploadId]? = none) :
      Effect s (.start principal drawn io) true
        { facade := s.facade.withLedger (s.facade.ledger.insertStaged handle.uploadId
            ⟨deriveBlobId s.facade.scope handle.uploadId, principal.digest, 0, none, 1⟩)
          store := s.store
          handles := handle :: s.handles }
  | resumed {principal : AuthenticatedPrincipal} {token : BlobUploadToken} {io : UploadIo} {handle : AuthorizedBlobUpload}
      {ledger : QuotaLedger} (issued : Issued (s.facade, s.store) principal .resumeUpload handle)
      (named : token = ⟨s.facade.scope, handle.uploadId⟩) (live : (s.store.get token).terminal ≠ .aborted)
      (reserves : Reserves s.facade principal.digest handle.uploadId handle.inner.acceptedBytes ledger) :
      Effect s (.resume principal token io) true
        { facade := s.facade.withLedger ledger, store := s.store, handles := handle :: s.handles }
  | wrote {i : Nat} {principal : AuthenticatedPrincipal} {io : UploadIo} {input : List UInt8} {handle : AuthorizedBlobUpload}
      {t : HandleState S H W E I} (found : s.handles[i]? = some handle)
      (reached : Reached (handle, s.facade, s.store) input.length t)
      (recharged : Recharged (handle, s.facade, s.store) input.length t)
      (valid : s.facade.validateUpload principal handle .writeUpload = .ok ())
      (projected : s.facade.checkStagedProjection principal input.length = .ok ())
      (opened : (s.store.get handle.inner.token).terminal = .none) :
      Effect s (.write i principal io input) true (s.withHandle i t)
  | unwritten {i : Nat} {principal : AuthenticatedPrincipal} {io : UploadIo} {input : List UInt8}
      {handle : AuthorizedBlobUpload} {t : HandleState S H W E I} (found : s.handles[i]? = some handle)
      (reached : Reached (handle, s.facade, s.store) input.length t)
      (recharges : Recharges (handle, s.facade, s.store) input.length t) :
      Effect s (.write i principal io input) false (s.withHandle i t)
  | reached {call : FacadeCall F W E I} {i : Nat} {handle : AuthorizedBlobUpload} {t : HandleState S H W E I}
      (found : s.handles[i]? = some handle) (reached : Reached (handle, s.facade, s.store) 0 t) (same : t.2.1 = s.facade) :
      Effect s call false (s.withHandle i t)
  | finished {i : Nat} {principal : AuthenticatedPrincipal} {io : UploadIo} {handle : AuthorizedBlobUpload}
      {t : HandleState S H W E I} {reference : BlobReference} {charge : StagedCharge} (found : s.handles[i]? = some handle)
      (moves : Moves 0 (handle.inner, s.store) (t.1.inner, t.2.2))
      (spent : t.1 = { handle with inner := t.1.inner, activeHandle := false })
      (final : (t.2.2.get handle.inner.token).terminal = .final reference)
      (valid : s.facade.validateUpload principal handle .finishUpload = .ok ())
      (staged : s.facade.ledger.staged[handle.uploadId]? = some charge) (blob : charge.blob = reference.id)
      (ledger : t.2.1 = s.facade.withLedger (s.facade.ledger.setStaged handle.uploadId
        { charge with finalized := some reference, liveHandles := charge.liveHandles - 1 })) :
      Effect s (.finish i principal io) true (s.withHandle i t)
  | aborted {i : Nat} {principal : AuthenticatedPrincipal} {io : UploadIo} {handle : AuthorizedBlobUpload}
      {t : HandleState S H W E I} (found : s.handles[i]? = some handle)
      (moves : Moves 0 (handle.inner, s.store) (t.1.inner, t.2.2))
      (spent : t.1 = { handle with inner := t.1.inner, activeHandle := false })
      (ended : (t.2.2.get handle.inner.token).terminal = .aborted)
      (valid : s.facade.validateUpload principal handle .abortUpload = .ok ())
      (ledger : t.2.1 = s.facade.withLedger (s.facade.ledger.removeStaged handle.uploadId)) :
      Effect s (.abort i principal io) true (s.withHandle i t)
  | dropped {i : Nat} {handle : AuthorizedBlobUpload} (found : s.handles[i]? = some handle) :
      Effect s (.drop i) true
        { facade := s.facade.withLedger (s.facade.ledger.dropHandle handle.uploadId handle.activeHandle)
          store := s.store
          handles := s.handles.eraseIdx i }
  | stopped {principal : AuthenticatedPrincipal} {request : AuthorizedTransactionRequest} {observation : Option UtcInstant}
      {cancelled cancelledLater : Bool} {files : F} {inner : CommitCoordinator S H W E I}
      (stopped : CommitCoordinator.Stopped s.facade.inner inner) :
      Effect s (.commit principal request observation cancelled cancelledLater files) false
        { s with facade := { s.facade with inner := inner } }
  | committed {principal : AuthenticatedPrincipal} {request : AuthorizedTransactionRequest} {observation : Option UtcInstant}
      {cancelled cancelledLater : Bool} {files : F} {inner : CommitCoordinator S H W E I}
      {changes : Option DurablePolicyChange} {facade : AuthorizedCoordinator S H W E I}
      (admitted : s.facade.admitCommit principal request = .ok changes)
      (advances : Advances s.facade.inner (request.of principal.digest) inner)
      (synchronized : changes = none ∧ facade = s.facade.charged principal request inner ∨
        changes ≠ none ∧ (s.facade.charged principal request inner).synchronizeDurablePolicy principal = .ok facade) :
      Effect s (.commit principal request observation cancelled cancelledLater files) true { s with facade := facade }
  | unsynchronized {principal : AuthenticatedPrincipal} {request : AuthorizedTransactionRequest}
      {observation : Option UtcInstant} {cancelled cancelledLater : Bool} {files : F} {inner : CommitCoordinator S H W E I}
      {changes : Option DurablePolicyChange} {error : AuthorizedError}
      (admitted : s.facade.admitCommit principal request = .ok changes) (changing : changes ≠ none)
      (advances : Advances s.facade.inner (request.of principal.digest) inner)
      (failed : (s.facade.charged principal request inner).synchronizeDurablePolicy principal = .error error) :
      Effect s (.commit principal request observation cancelled cancelledLater files) false
        { s with facade := s.facade.charged principal request inner }
  | reconciled {principal : AuthenticatedPrincipal} {completeOutbox : List BlobUploadToken} {io : BlobUploadToken → UploadIo} :
      Effect s (.reconcile principal completeOutbox io) true { s with facade := { s.facade with allowNewUploads := true } }
  | replaced {authority : AuthenticatedPrincipal} {expected : PolicyVersion} {next : NamespacePolicy}
      {facade : AuthorizedCoordinator S H W E I}
      (replaced : s.facade.replaceNamespacePolicy authority expected next = .ok facade) :
      Effect s (.replacePolicy authority expected next) true { s with facade := facade }
  | drifted {vault : KeyVault W E} {identityEntropy : I} :
      Effect s (.drift vault identityEntropy) true { s with
        facade := { s.facade with
          inner := { s.facade.inner with
            journal := { s.facade.inner.journal with vault := vault, identityEntropy := identityEntropy } } } }

def Remembers (s : FacadeSession S H W E I) : Prop :=
  ∀ handle ∈ s.handles, handle.inner.token = ⟨s.facade.scope, handle.uploadId⟩ ∧ Consistent (handle.inner, s.store)

variable [FileSystem F H] [EntropySource E] [EntropySource I] {s : FacadeSession S H W E I}

section

omit [AuthorizedTransactionState S] [Primitives] [FileSystem F H] [EntropySource E] [EntropySource I]

variable {Q E' : FacadeSession S H W E I → Prop}

theorem issued_wp {x : Program (AuthorizedCoordinator S H W E I × UploadStore) AuthorizedError AuthorizedBlobUpload}
    (h : wp x (fun handle t => Q { facade := t.1, store := t.2, handles := handle :: s.handles })
      (fun _ t => E' { s with facade := t.1, store := t.2 }) (s.facade, s.store)) :
    wp (issued x) (fun _ => Q) (fun _ => E') s := by
  unfold issued onFacade
  rw [wp_bind, wp_zoom]
  exact wp_mono h (fun _ _ holds => holds) fun _ _ holds => holds

variable {i : Nat}

theorem onHandle_wp {α : Type} {x : Program (HandleState S H W E I) AuthorizedError α} (missing : E' s)
    (h : ∀ handle, s.handles[i]? = some handle →
      wp x (fun _ t => Q (s.withHandle i t)) (fun _ t => E' (s.withHandle i t)) (handle, s.facade, s.store)) :
    wp (onHandle i x) (fun _ => Q) (fun _ => E') s := by
  unfold onHandle
  apply wp_reads
  refine wp_lifts (fun handle found => ?_) fun _ _ => missing
  rw [wp_bind, wp_zoom]
  exact wp_mono (h handle (orError_ok.mp found)) (fun _ _ holds => holds) fun _ _ holds => holds

theorem withHandle_same {handle : AuthorizedBlobUpload}
    (found : s.handles[i]? = some handle) : s.withHandle i (handle, s.facade, s.store) = s := by
  obtain ⟨facade, store, handles⟩ := s
  have kept : handles.set i handle = handles := by
    refine ext_getElem? fun j => ?_
    rw [List.getElem?_set]
    split
    · rename_i same
      subst same
      split
      · exact found.symm
      · rw [List.getElem?_eq_none (by omega)]
    · rfl
  simp only [withHandle, kept]

end

theorem run_effect (remembers : Remembers s) (call : FacadeCall F W E I) :
    wp (run call) (fun _ s' => Effect s call true s') (fun _ s' => Effect s call false s') s := by
  have consistent {i : Nat} {handle : AuthorizedBlobUpload} (found : s.handles[i]? = some handle) :
      Consistent (handle.inner, s.store) := (remembers handle (mem_of_getElem? found)).2
  cases call with
  | start principal drawn io =>
    refine issued_wp (wp_mono (startBlobUpload_effect _) ?_ ?_)
    · rintro handle t ⟨issued, drew, empty, absent, free, rfl⟩
      exact .started issued drew empty absent free
    · rintro _ t rfl
      exact .refused _
  | resume principal token io =>
    refine issued_wp (wp_mono (resumeBlobUpload_effect _) ?_ ?_)
    · rintro handle t ⟨issued, named, live, ledger, reserves, rfl⟩
      exact .resumed issued named live reserves
    · rintro _ t rfl
      exact .refused _
  | write i principal io input =>
    refine onHandle_wp (.refused _) fun handle found => wp_mono (writeBlobUpload_effect _) ?_ ?_
    · rintro _ t ⟨reached, recharged, valid, projected, opened⟩
      exact .wrote found reached recharged valid projected opened
    · rintro _ t (rfl | ⟨reached, recharges⟩)
      · rw [withHandle_same found]
        exact .refused _
      · exact .unwritten found reached recharges
  | finish i principal io =>
    refine onHandle_wp (.refused _) fun handle found => wp_mono (finishBlobUpload_effect _ (consistent found)) ?_ ?_
    · rintro reference t ⟨moves, spent, final, valid, charge, staged, blob, ledger⟩
      exact .finished found moves spent final valid staged blob ledger
    · rintro _ t ⟨reached, same⟩
      exact .reached found reached same
  | abort i principal io =>
    refine onHandle_wp (.refused _) fun handle found => wp_mono (abortBlobUpload_effect _ (consistent found)) ?_ ?_
    · rintro _ t ⟨moves, spent, ended, valid, ledger⟩
      exact .aborted found moves spent ended valid ledger
    · rintro _ t ⟨reached, same⟩
      exact .reached found reached same
  | drop i =>
    apply wp_reads
    refine wp_lifts (fun handle found => ?_) fun _ _ => .refused _
    exact .dropped (orError_ok.mp found)
  | commit principal request observation cancelled cancelledLater files =>
    refine wp_bind.mpr (wp_zoom.mpr (wp_mono (commit_effect _) ?_ ?_))
    · rintro _ t ⟨changes, inner, admitted, advances, synchronized⟩
      exact .committed admitted advances synchronized
    · rintro error t (⟨inner, stopped, same⟩ | ⟨changes, inner, admitted, changing, advances, same, failed⟩)
      · rw [same]
        exact .stopped stopped
      · rw [same]
        exact .unsynchronized admitted changing advances failed
  | reconcile principal completeOutbox io =>
    unfold run onFacade completeRecoveredUploadReconciliation
    simp only [wp_zoom, wp_bind, wp_read, wp_lift, wp_ensure, wp_update]
    refine ⟨fun _ _ => ⟨fun _ _ => ⟨fun _ _ => ⟨fun _ => ⟨fun _ => ⟨fun _ _ => .reconciled, ?_⟩, ?_⟩, ?_⟩, ?_⟩, ?_⟩, ?_⟩ <;>
      intros <;> exact .refused _
  | replacePolicy authority expected next =>
    apply wp_reads
    refine wp_lifts (fun facade replaced => ?_) fun _ _ => .refused _
    exact .replaced replaced
  | drift vault identityEntropy => exact .drifted

/-! ### What every call keeps -/

variable {c c' : AuthorizedCoordinator S H W E I} {principal : AuthenticatedPrincipal}

section

omit [Primitives] [FileSystem F H] [EntropySource E] [EntropySource I]

theorem synchronizeDurablePolicy_policy
    (h : c.synchronizeDurablePolicy principal = .ok c') : ∃ policy, c' = { c with policy := policy } := by
  obtain ⟨view, -, h⟩ := bind_ok h
  split at h
  · obtain ⟨_, -, h⟩ := bind_ok h
    cases h
    exact ⟨c.policy, rfl⟩
  · obtain ⟨current, -, h⟩ := bind_ok h
    split at h
    · cases h
      exact ⟨c.policy, rfl⟩
    · obtain ⟨_, -, policy, -, h⟩ := bind_ok₂ h
      cases h
      exact ⟨policy, rfl⟩

theorem synchronized_policy {changes : Option DurablePolicyChange}
    (h : changes = none ∧ c' = c ∨ changes ≠ none ∧ c.synchronizeDurablePolicy principal = .ok c') :
    ∃ policy, c' = { c with policy := policy } := by
  rcases h with ⟨-, rfl⟩ | ⟨-, done⟩
  · exact ⟨c'.policy, rfl⟩
  · exact synchronizeDurablePolicy_policy done

theorem replaceNamespacePolicy_policy {authority : AuthenticatedPrincipal}
    {expected : PolicyVersion} {next : NamespacePolicy} (h : c.replaceNamespacePolicy authority expected next = .ok c') :
    ∃ policy, c' = { c with policy := policy } := by
  obtain ⟨_, -, _, -, _, -, _, -, h⟩ := bind_ok₄ h
  obtain ⟨policy, -, h⟩ := bind_ok h
  cases h
  exact ⟨policy, rfl⟩

end

omit [FileSystem F H] [EntropySource E] [EntropySource I] in
theorem Advances.scope {c c' : CommitCoordinator S H W E I} {request : TransactionRequest}
    (h : AuthorizedCoordinator.Advances c request c') : c'.scope = c.scope := by
  cases h <;> rfl

omit [AuthorizedTransactionState S] [Primitives] [FileSystem F H] [EntropySource E] [EntropySource I] in
theorem charged_scope {request : AuthorizedTransactionRequest} {inner : CommitCoordinator S H W E I} :
    (c.charged principal request inner).scope = inner.scope := by
  unfold charged chargeInventory
  split <;> rfl

variable {s s' : FacadeSession S H W E I} {call : FacadeCall F W E I} {ok : Bool}

section

omit [FileSystem F H] [EntropySource E] [EntropySource I]

theorem Effect.scope (effect : Effect s call ok s') : s'.facade.scope = s.facade.scope := by
  cases effect with
  | wrote found reached recharged valid projected opened =>
    obtain ⟨charge, -, -, facade⟩ := recharged
    exact (congrArg AuthorizedCoordinator.scope facade).trans rfl
  | unwritten found reached recharges =>
    rcases recharges with ⟨charge, -, -, facade⟩ | ⟨facade, -⟩
    · exact (congrArg AuthorizedCoordinator.scope facade).trans rfl
    · exact (congrArg AuthorizedCoordinator.scope facade).trans rfl
  | reached found reached same => exact (congrArg AuthorizedCoordinator.scope same).trans rfl
  | finished found moves spent final valid staged blob ledger => exact (congrArg AuthorizedCoordinator.scope ledger).trans rfl
  | aborted found moves spent ended valid ledger => exact (congrArg AuthorizedCoordinator.scope ledger).trans rfl
  | stopped stopped => exact stopped.scope
  | committed admitted advances synchronized =>
    obtain ⟨policy, rfl⟩ := synchronized_policy synchronized
    exact charged_scope.trans (Advances.scope advances)
  | unsynchronized admitted changing advances failed => exact charged_scope.trans (Advances.scope advances)
  | replaced replaced =>
    obtain ⟨policy, rfl⟩ := replaceNamespacePolicy_policy replaced
    rfl
  | _ => rfl

theorem Effect.remembers (effect : Effect s call ok s') (remembers : Remembers s) : Remembers s' := by
  have scope := effect.scope
  -- A call on a handle: its own memory moves with the upload, that of the others stays true.
  have handled {i : Nat} {handle : AuthorizedBlobUpload} {added : Nat} {t : HandleState S H W E I}
      (found : s.handles[i]? = some handle) (moves : Moves added (handle.inner, s.store) (t.1.inner, t.2.2))
      (upload : t.1.uploadId = handle.uploadId) (scope : t.2.1.scope = s.facade.scope) :
      Remembers (s.withHandle i t) := by
    intro other mem
    obtain ⟨token, consistent⟩ := remembers handle (mem_of_getElem? found)
    rcases mem_or_eq_of_mem_set mem with mem | rfl
    · obtain ⟨token', consistent'⟩ := remembers other mem
      exact ⟨by rw [token', scope], consistent'.after moves⟩
    · exact ⟨by rw [moves.token, token, upload, scope], moves.consistent consistent⟩
  have kept (facade : AuthorizedCoordinator S H W E I) (same : facade.scope = s.facade.scope) :
      Remembers { s with facade := facade } :=
    fun handle mem => ⟨by rw [(remembers handle mem).1, same], (remembers handle mem).2⟩
  have added (facade : AuthorizedCoordinator S H W E I) (same : facade.scope = s.facade.scope)
      {handle : AuthorizedBlobUpload} {principal : AuthenticatedPrincipal} {action : Action}
      (issued : Issued (s.facade, s.store) principal action handle) :
      Remembers { facade := facade, store := s.store, handles := handle :: s.handles } := by
    intro other mem
    rcases mem_cons.mp mem with rfl | mem
    · exact ⟨by rw [issued.token, same], issued.consistent⟩
    · exact kept facade same other mem
  cases effect with
  | refused => exact remembers
  | started issued drew empty absent free => exact added _ rfl issued
  | resumed issued named live reserves => exact added _ rfl issued
  | wrote found reached recharged valid projected opened =>
    exact handled found reached.moves reached.uploadId scope
  | unwritten found reached recharges =>
    exact handled found reached.moves reached.uploadId scope
  | reached found reached same =>
    exact handled found reached.moves reached.uploadId scope
  | finished found moves spent final valid staged blob ledger =>
    exact handled found moves ((congrArg AuthorizedBlobUpload.uploadId spent).trans rfl) scope
  | aborted found moves spent ended valid ledger =>
    exact handled found moves ((congrArg AuthorizedBlobUpload.uploadId spent).trans rfl) scope
  | dropped found => exact fun other mem => remembers other (mem_of_mem_eraseIdx mem)
  | _ => exact kept _ scope

end

/-- What every transition keeps, from a session whose handles remember what is durable, holds after every run. -/
theorem Runs.invariant {meets : FacadeSession S H W E I → FacadeCall F W E I → Prop} (runs : Runs meets s s')
    {P : FacadeSession S H W E I → Prop} (remembers : Remembers s) (start : P s)
    (step : ∀ s call ok s', Remembers s → P s → meets s call → Effect s call ok s' → P s') : Remembers s' ∧ P s' := by
  refine runs.keeps (P := fun s => Remembers s ∧ P s) ⟨remembers, start⟩ ?_
  rintro s call ⟨remembers, holds⟩ met
  have effect := wp_iff.mp (run_effect remembers call)
  rcases ran : run call s with ⟨_ | _, s'⟩
  · have effect := effect.2 _ _ ran
    exact ⟨effect.remembers remembers, step s call _ s' remembers holds met effect⟩
  · have effect := effect.1 _ _ ran
    exact ⟨effect.remembers remembers, step s call _ s' remembers holds met effect⟩

end FacadeSession

end Uste.Txn
