import Uste.Txn.Reservations

/-!
The accounts of a facade: committed charges against the owners of blobs, staged charges against
the uploads that are still open, and both against the quotas.
-/

namespace Uste.Txn.FacadeSession

open Types Crypto Policy Storage Program FileSystem Std AuthorizedCoordinator QuotaLedger List Option

variable {S F W E I : Type} {H : Handles} [AuthorizedTransactionState S] [Primitives]

section Accounts

def existing (s : FacadeSession S H W E I) (upload : Octets 16) : Nat :=
  s.handles.countP fun handle => decide (handle.uploadId = upload)

/-- An upload that is still open has at most one handle, whose bytes are charged. -/
structure OpenUpload (s : FacadeSession S H W E I) (upload : Octets 16) : Prop where
  charged : ∀ handle ∈ s.handles, handle.uploadId = upload → handle.activeHandle = true ∧ ∃ charge,
    s.facade.ledger.staged[upload]? = some charge ∧ charge.acceptedBytes = handle.inner.acceptedBytes
  counted : ∀ charge, s.facade.ledger.staged[upload]? = some charge → charge.liveHandles = s.existing upload
  single : s.existing upload ≤ 1

structure Accounted (s : FacadeSession S H W E I) : Prop where
  keyed : OwnersKeyed s.facade.scope s.facade.inner.committedBlobOwners
  charges : ChargesOwners s.facade.scope s.facade.inner.committedBlobOwners s.facade.ledger.committed
  tidy : Tidy s.facade.scope s.facade.ledger
  bounded : s.facade.ledger.namespaceCommittedBytes < wordLimit
  finals : ∀ (upload : Octets 16) charge, s.facade.ledger.staged[upload]? = some charge → charge.finalized ≠ none →
    (s.store.get ⟨s.facade.scope, upload⟩).terminal ≠ .none
  opened : ∀ upload, (s.store.get ⟨s.facade.scope, upload⟩).terminal = .none → s.OpenUpload upload

/-- Where the accounts cannot go wrong: no upload of a committed blob is started or resumed, and a request that repeats
a recorded one, digest and all, names no blob but committed ones. -/
def KeepsAccounts (s : FacadeSession S H W E I) : FacadeCall F W E I → Prop
  | .start _ drawn _ => ∀ upload, drawn = .ok upload → s.facade.ledger.committed[deriveBlobId s.facade.scope upload]? = none
  | .resume _ token _ => s.facade.ledger.committed[token.blob]? = none
  | .commit principal request _ _ _ _ => ∀ outcome,
      s.facade.inner.outcomes[(request.of principal.digest).retryKey]? = some outcome →
      outcome.requestDigest = transactionRequestDigest request.canonicalRequest (digestOf request.blobInventory) →
      ∀ inventory ∈ request.blobInventory, ∀ reference ∈ inventory.references,
        reference.blobKey ∈ s.facade.inner.committedBlobOwners
  | _ => True

variable {s s' : FacadeSession S H W E I} {i : Nat} {handle : AuthorizedBlobUpload} {t : HandleState S H W E I}

omit [AuthorizedTransactionState S] [Primitives] in
theorem existing_pos (mem : handle ∈ s.handles) : 0 < s.existing handle.uploadId :=
  countP_pos_iff.mpr ⟨handle, mem, by simp⟩

variable {upload : Octets 16}

omit [AuthorizedTransactionState S] [Primitives] in
theorem OpenUpload.absent (opened : s.OpenUpload upload)
    (absent : s.facade.ledger.staged[upload]? = none) : s.existing upload = 0 := by
  refine countP_eq_zero.mpr fun handle mem named => ?_
  obtain ⟨-, charge, found, -⟩ := opened.charged handle mem (of_decide_eq_true named)
  cases absent.symm.trans found

variable {ledger : QuotaLedger} {charge : StagedCharge}

omit [AuthorizedTransactionState S] [Primitives] in
theorem OpenUpload.issue (none : s.existing handle.uploadId = 0)
    (live : handle.activeHandle = true) (staged : ledger.staged[handle.uploadId]? = some charge) (one : charge.liveHandles = 1)
    (accepted : charge.acceptedBytes = handle.inner.acceptedBytes) :
    OpenUpload { facade := s.facade.withLedger ledger, store := s.store, handles := handle :: s.handles } handle.uploadId := by
  have count : existing { facade := s.facade.withLedger ledger, store := s.store, handles := handle :: s.handles }
      handle.uploadId = 1 := by
    unfold existing at none ⊢
    rw [countP_cons, none]
    simp
  refine ⟨fun other mem named => ?_, fun charge' found => ?_, by rw [count]⟩
  · rcases mem_cons.mp mem with rfl | mem
    · exact ⟨live, charge, staged, accepted⟩
    · have positive := existing_pos mem
      rw [named, none] at positive
      exact absurd positive (Nat.lt_irrefl 0)
  · cases Option.some.inj (staged.symm.trans found)
    rw [count, one]

omit [AuthorizedTransactionState S] [Primitives] in
theorem OpenUpload.other (opened : s.OpenUpload upload)
    (staged : s'.facade.ledger.staged[upload]? = s.facade.ledger.staged[upload]?)
    (handles : s'.existing upload = s.existing upload)
    (old : ∀ handle ∈ s'.handles, handle.uploadId = upload → handle ∈ s.handles) : s'.OpenUpload upload := by
  refine ⟨fun handle mem named => ?_, fun charge found => ?_, handles ▸ opened.single⟩
  · rw [staged]
    exact opened.charged handle (old handle mem named) named
  · rw [handles]
    exact opened.counted charge (staged ▸ found)

variable {added : Nat}

omit [AuthorizedTransactionState S] in
theorem Accounted.call (accounted : Accounted s) (remembers : Remembers s) (found : s.handles[i]? = some handle)
    (moves : Moves added (handle.inner, s.store) (t.1.inner, t.2.2)) (upload : t.1.uploadId = handle.uploadId)
    (inner : t.2.1.inner = s.facade.inner) (committed : t.2.1.ledger.committed = s.facade.ledger.committed)
    (tidy : Tidy s.facade.scope t.2.1.ledger) (others : KeptFor handle.uploadId s.facade.ledger t.2.1.ledger)
    (final : ∀ charge, t.2.1.ledger.staged[handle.uploadId]? = some charge → charge.finalized ≠ none →
      (t.2.2.get ⟨s.facade.scope, handle.uploadId⟩).terminal ≠ .none)
    (still : (t.2.2.get ⟨s.facade.scope, handle.uploadId⟩).terminal = .none → s.OpenUpload handle.uploadId →
      t.1.activeHandle = handle.activeHandle ∧ ∃ charge charge', s.facade.ledger.staged[handle.uploadId]? = some charge ∧
        t.2.1.ledger.staged[handle.uploadId]? = some charge' ∧ charge'.liveHandles = charge.liveHandles ∧
        charge'.acceptedBytes = t.1.inner.acceptedBytes) : Accounted (s.withHandle i t) := by
  have token := (remembers handle (mem_of_getElem? found)).1
  have scope : t.2.1.scope = s.facade.scope := congrArg CommitCoordinator.scope inner
  have elsewhere (other : Octets 16) (different : other ≠ handle.uploadId) :
      t.2.2.get ⟨s.facade.scope, other⟩ = s.store.get ⟨s.facade.scope, other⟩ := by
    refine moves.others _ fun same => different ?_
    simp only [token] at same
    exact congrArg BlobUploadToken.upload same
  have ended := moves.ended
  simp only [token] at ended
  refine ⟨?_, ?_, ?_, ?_, fun other charge there finished => ?_, fun other opened => ?_⟩
  · simp only [scope, inner]
    exact accounted.keyed
  · simp only [scope, inner, committed]
    exact accounted.charges
  · simp only [scope]
    exact tidy
  · unfold namespaceCommittedBytes
    simp only [committed]
    exact accounted.bounded
  · simp only [scope]
    by_cases same : other = handle.uploadId
    · subst same
      exact final charge there finished
    · rw [elsewhere other same]
      exact accounted.finals other charge (others other same ▸ there) finished
  · simp only [scope] at opened
    have count : (s.withHandle i t).existing other = s.existing other := by
      unfold existing
      rw [countP_set_of_found _ found, countP_eraseIdx _ found, upload]
    by_cases same : other = handle.uploadId
    · subst same
      have before : (s.store.get ⟨s.facade.scope, handle.uploadId⟩).terminal = .none := by
        by_contra closed
        exact closed ((ended closed).symm.trans opened)
      have openUpload := accounted.opened _ before
      obtain ⟨live, charge, charge', was, now, liveHandles, accepted⟩ := still opened openUpload
      -- The handle is the only one of its upload.
      have alone : (s.handles.eraseIdx i).countP (fun handle' => decide (handle'.uploadId = handle.uploadId)) = 0 := by
        have single := openUpload.single
        unfold existing at single
        rw [countP_eraseIdx _ found] at single
        simp only [decide_true, if_true] at single
        omega
      refine ⟨fun handle' mem named => ?_, fun charge'' there => ?_, count ▸ openUpload.single⟩
      · have here : handle' = t.1 := by
          obtain ⟨bound, -⟩ := List.getElem?_eq_some_iff.mp found
          rcases mem_cons.mp ((set_perm_cons_eraseIdx bound t.1).mem_iff.mp mem) with here | mem
          · exact here
          · exact absurd (decide_eq_true named) (countP_eq_zero.mp alone handle' mem)
        subst here
        exact ⟨live.trans (openUpload.charged handle (mem_of_getElem? found) rfl).1, charge', now, accepted⟩
      · cases Option.some.inj (now.symm.trans there)
        rw [count, liveHandles]
        exact openUpload.counted charge was
    · rw [elsewhere other same] at opened
      refine (accounted.opened other opened).other (others other same) count fun handle' mem named => ?_
      rcases mem_or_eq_of_mem_set mem with mem | rfl
      · exact mem
      · exact absurd (named.symm.trans upload) same

variable {principal : AuthenticatedPrincipal}

omit [AuthorizedTransactionState S] in
theorem Accounted.issue (accounted : Accounted s) {action : Action}
    (issued : Issued (s.facade, s.store) principal action handle)
    (idle : s.OpenUpload handle.uploadId → s.existing handle.uploadId = 0)
    (committed : ledger.committed = s.facade.ledger.committed)
    (staged : ledger.staged = s.facade.ledger.staged.insert handle.uploadId charge) (tidy : Tidy s.facade.scope ledger)
    (one : charge.liveHandles = 1) (accepted : charge.acceptedBytes = handle.inner.acceptedBytes)
    (final : charge.finalized ≠ none → (s.store.get ⟨s.facade.scope, handle.uploadId⟩).terminal ≠ .none) :
    Accounted { facade := s.facade.withLedger ledger, store := s.store, handles := handle :: s.handles } := by
  have own : ledger.staged[handle.uploadId]? = some charge := by
    rw [staged, ExtTreeMap.getElem?_insert_self]
  have others (other : Octets 16) (different : other ≠ handle.uploadId) :
      ledger.staged[other]? = s.facade.ledger.staged[other]? := by
    rw [staged, getElem?_insert_ne different.symm]
  refine ⟨accounted.keyed, ?_, tidy, ?_, fun other charge' there finished => ?_, fun other opened => ?_⟩
  · simp only [committed]
    exact accounted.charges
  · unfold namespaceCommittedBytes
    simp only [committed]
    exact accounted.bounded
  · by_cases same : other = handle.uploadId
    · subst same
      cases Option.some.inj (own.symm.trans there)
      exact final finished
    · exact accounted.finals other charge' (others other same ▸ there) finished
  · have openUpload := accounted.opened other opened
    by_cases same : other = handle.uploadId
    · subst same
      exact .issue (idle openUpload) issued.active own one accepted
    · refine openUpload.other (others other same) ?_ fun handle' mem named => ?_
      · unfold existing
        simp [Ne.symm same]
      · rcases mem_cons.mp mem with rfl | mem
        · exact absurd named.symm same
        · exact mem

omit [AuthorizedTransactionState S] in
theorem Accounted.drop (accounted : Accounted s) (found : s.handles[i]? = some handle) :
    Accounted { facade := s.facade.withLedger (s.facade.ledger.dropHandle handle.uploadId handle.activeHandle)
                store := s.store
                handles := s.handles.eraseIdx i } := by
  have others (other : Octets 16) (different : other ≠ handle.uploadId) :
      (s.facade.ledger.dropHandle handle.uploadId handle.activeHandle).staged[other]? = s.facade.ledger.staged[other]? := by
    simp [dropHandle_staged, Ne.symm different]
  have split (other : Octets 16) := countP_eraseIdx (fun handle' : AuthorizedBlobUpload => decide (handle'.uploadId = other)) found
  refine ⟨accounted.keyed, ?_, accounted.tidy.dropHandle _ _, ?_, fun other charge there finished => ?_, fun other opened => ?_⟩
  · simp only [dropHandle_committed]
    exact accounted.charges
  · unfold namespaceCommittedBytes
    simp only [dropHandle_committed]
    exact accounted.bounded
  · by_cases same : other = handle.uploadId
    · subst same
      rw [dropHandle_staged] at there
      obtain ⟨before, was, rfl⟩ := map_eq_some_iff.mp there
      exact accounted.finals _ before was finished
    · exact accounted.finals other charge (others other same ▸ there) finished
  · have openUpload := accounted.opened other opened
    by_cases same : other = handle.uploadId
    · subst same
      have single := openUpload.single
      have total := split handle.uploadId
      simp only [decide_true, if_true] at total
      have none : existing { facade := s.facade.withLedger (s.facade.ledger.dropHandle handle.uploadId handle.activeHandle)
                             store := s.store
                             handles := s.handles.eraseIdx i } handle.uploadId = 0 := by
        unfold existing at single ⊢
        simp only
        omega
      refine ⟨fun handle' mem named => ?_, fun charge there => ?_, by rw [none]; exact Nat.zero_le 1⟩
      · have positive := existing_pos (s := ⟨s.facade, s.store, s.handles.eraseIdx i⟩) mem
        rw [named] at positive
        exact absurd positive (none ▸ Nat.lt_irrefl 0)
      · rw [dropHandle_staged] at there
        obtain ⟨before, was, rfl⟩ := map_eq_some_iff.mp there
        have live := (openUpload.charged handle (mem_of_getElem? found) rfl).1
        have counted := openUpload.counted before was
        rw [none]
        simp only [live, counted, decide_true, Bool.and_true, if_true]
        omega
    · refine openUpload.other (others other same) ?_ fun handle' mem _ => mem_of_mem_eraseIdx mem
      have total := split other
      simp only [Ne.symm same, decide_false, Bool.false_eq_true, if_false, Nat.zero_add] at total
      exact total.symm

/-! ### Commit -/

omit [AuthorizedTransactionState S] [Primitives] in
structure Within (c : AuthorizedCoordinator S H W E I) (principal : AuthenticatedPrincipal) (inventory : BlobInventory) : Prop where
  scope : inventory.scope = c.scope
  admitted : ∀ reference ∈ inventory.references, c.ledger.committed[reference.id]? = none →
    ∃ (upload : Octets 16) (charge : StagedCharge), c.ledger.stagedByBlob[reference.id]? = some upload ∧
      c.ledger.staged[upload]? = some charge ∧ charge.finalized = some reference
  fits : c.ledger.namespaceCommittedBytes + newBytes c.ledger.committed inventory.references < wordLimit
  principalQuota : ∃ quotas, c.quotas principal = .ok quotas ∧
    c.ledger.committedBytes principal.digest + newBytes c.ledger.committed inventory.references ≤ quotas.maxCommittedBlobBytes
  namespaceQuota : ∃ quotas, c.namespaceQuotas = .ok quotas ∧
    c.ledger.namespaceCommittedBytes + newBytes c.ledger.committed inventory.references ≤ quotas.maxCommittedBlobBytes

omit [AuthorizedTransactionState S] [Primitives] in
theorem foldlM_admitReference_each {principal : PrincipalDigest} {references : List BlobReference}
    {added' : Nat} (h : references.foldlM (ledger.admitReference principal) added = .ok added') :
    ∀ reference ∈ references, ∃ before after, ledger.admitReference principal before reference = .ok after := by
  induction references generalizing added with
  | nil => exact nofun
  | cons reference references ih =>
    obtain ⟨next, admitted, h⟩ := foldlM_step h
    intro other mem
    rcases mem_cons.mp mem with rfl | mem
    · exact ⟨added, next, admitted⟩
    · exact ih h other mem

variable {c : AuthorizedCoordinator S H W E I}

omit [AuthorizedTransactionState S] [Primitives] in
theorem checkInventory_ok {inventory : BlobInventory}
    (h : c.checkInventory principal (some inventory) = .ok ()) : Within c principal inventory := by
  obtain ⟨_, scope, added, admitted, usage, used, principalBytes, summed, h⟩ := bind_ok₄ h
  obtain ⟨quotas, granted, _, principalFits, namespaceBytes, summed', namespaceQuotas, granted', namespaceFits⟩ := bind_ok₄ h
  have total := foldlM_admitReference admitted
  rw [Nat.zero_add] at total
  subst total
  rw [QuotaLedger.usage_ok used] at summed summed'
  obtain ⟨rfl, -⟩ := checkedSum_ok summed
  obtain ⟨rfl, fits⟩ := checkedSum_ok summed'
  refine ⟨require_ok.mp scope, fun reference mem absent => ?_, fits, ⟨quotas, granted, require_ok.mp principalFits⟩,
    namespaceQuotas, granted', require_ok.mp namespaceFits⟩
  obtain ⟨before, after, admits⟩ := foldlM_admitReference_each admitted reference mem
  unfold admitReference at admits
  rw [absent] at admits
  obtain ⟨_, staged, -⟩ := bind_ok admits
  obtain ⟨charge, found, -, finalized⟩ := require_ok.mp staged
  obtain ⟨upload, named, there⟩ := bind_eq_some_iff.mp found
  exact ⟨upload, charge, named, there, finalized⟩

variable {request : AuthorizedTransactionRequest} {changes : Option DurablePolicyChange}

omit [Primitives] in
theorem admitCommit_ok
    (h : c.admitCommit principal request = .ok changes) : c.checkInventory principal request.blobInventory = .ok () := by
  obtain ⟨_, -, _, -, _, -, _, -, h⟩ := bind_ok₄ h
  obtain ⟨_, -, _, checked, -⟩ := bind_ok₂ h
  exact checked

omit [AuthorizedTransactionState S] [Primitives] in
theorem charged_inner (c : AuthorizedCoordinator S H W E I) (principal : AuthenticatedPrincipal)
    (request : AuthorizedTransactionRequest) (inner : CommitCoordinator S H W E I) :
    (c.charged principal request inner).inner = inner := by
  unfold charged chargeInventory
  split <;> rfl

omit [AuthorizedTransactionState S] [Primitives] in
theorem charged_ledger (c : AuthorizedCoordinator S H W E I) (principal : AuthenticatedPrincipal)
    (request : AuthorizedTransactionRequest) (inner : CommitCoordinator S H W E I) :
    (c.charged principal request inner).ledger =
      (request.blobInventory.map (c.ledger.commitInventory principal.digest)).getD c.ledger := by
  unfold charged chargeInventory
  split
  · rename_i named
    rw [named]
    rfl
  · rename_i inventory named
    rw [named]
    rfl

variable {facade : AuthorizedCoordinator S H W E I}

omit [AuthorizedTransactionState S] in
theorem Accounted.congr (accounted : Accounted s) (scope : facade.scope = s.facade.scope)
    (owners : facade.inner.committedBlobOwners = s.facade.inner.committedBlobOwners)
    (ledger : facade.ledger = s.facade.ledger) : Accounted { s with facade := facade } := by
  refine ⟨?_, ?_, ?_, ?_, ?_, ?_⟩ <;> simp only [scope, owners, ledger]
  · exact accounted.keyed
  · exact accounted.charges
  · exact accounted.tidy
  · exact accounted.bounded
  · exact accounted.finals
  · exact fun upload opened => (accounted.opened upload opened).other (by rw [ledger]) rfl fun _ mem _ => mem

variable {inner : CommitCoordinator S H W E I}

theorem Accounted.commit (accounted : Accounted s) (admitted : s.facade.admitCommit principal request = .ok changes)
    (advances : Advances s.facade.inner (request.of principal.digest) inner)
    (repeated : ∀ outcome, CommitCoordinator.Answered s.facade.inner (request.of principal.digest) outcome →
      ∀ inventory ∈ request.blobInventory, ∀ reference ∈ inventory.references,
        reference.blobKey ∈ s.facade.inner.committedBlobOwners)
    (same : ∃ policy, facade = { s.facade.charged principal request inner with policy := policy }) :
    Accounted { s with facade := facade } := by
  have checked := admitCommit_ok admitted
  have scope : facade.scope = s.facade.scope := by
    obtain ⟨policy, rfl⟩ := same
    exact charged_scope.trans (Advances.scope advances)
  have ledger : facade.ledger = (request.blobInventory.map (s.facade.ledger.commitInventory principal.digest)).getD
      s.facade.ledger := by
    obtain ⟨policy, rfl⟩ := same
    exact charged_ledger s.facade principal request inner
  have innerSame : facade.inner = inner := by
    obtain ⟨policy, rfl⟩ := same
    exact charged_inner s.facade principal request inner
  cases named : request.blobInventory with
  | none =>
    rw [named] at ledger
    refine accounted.congr scope ?_ ledger
    rw [innerSame]
    cases advances with
    | answered past => rfl
    | fresh fresh =>
      show recordOwners _ _ (referencesOf request.blobInventory) = _
      rw [named]
      rfl
  | some inventory =>
    rw [named] at checked ledger
    replace ledger : facade.ledger = s.facade.ledger.commitInventory principal.digest inventory := ledger
    have within := checkInventory_ok checked
    have scopes (reference : BlobReference) (mem : reference ∈ inventory.references) : reference.scope = s.facade.scope :=
      (inventory.valid.shape reference mem).1.trans within.scope
    have staged (upload : Octets 16) := foldl_commitReference_staged principal.digest inventory.references
      s.facade.ledger upload
    refine ⟨?_, ?_, ?_, ?_, ?_, ?_⟩ <;> simp only [scope, innerSame, ledger]
    · cases advances with
      | answered past => exact accounted.keyed
      | fresh fresh =>
        show OwnersKeyed _ (recordOwners _ _ (referencesOf request.blobInventory))
        rw [named]
        exact accounted.keyed.record scopes
    · rw [commitInventory_committed]
      cases advances with
      | fresh fresh =>
        show ChargesOwners _ (recordOwners _ _ (referencesOf request.blobInventory)) _
        rw [named]
        exact accounted.charges.record scopes
      | @answered outcome past =>
        rw [chargeAll_known]
        · exact accounted.charges
        · intro reference mem
          have owned := repeated outcome past inventory named reference mem
          rw [blobKey_of_scope (scopes reference mem)] at owned
          rw [← ExtTreeMap.isSome_getElem?_iff_mem, accounted.charges, isSome_map, ExtTreeMap.isSome_getElem?_iff_mem]
          exact owned
    · exact accounted.tidy.commitInventory principal.digest inventory
    · unfold namespaceCommittedBytes
      rw [commitInventory_committed, total_chargeAll (fun _ => rfl) inventory.valid.sorted]
      exact within.fits
    · intro upload charge found finished
      rcases staged upload with kept | ⟨-, gone⟩
      · exact accounted.finals upload charge (kept ▸ found) finished
      · cases gone.symm.trans found
    · intro upload opened
      have openUpload := accounted.opened upload opened
      refine openUpload.other ?_ rfl fun handle mem _ => mem
      simp only [ledger]
      rcases staged upload with kept | ⟨⟨reference, mem, known⟩, -⟩
      · exact kept
      · -- A reservation that a commit takes away is of an upload that has ended.
        obtain ⟨charge, found, blob⟩ := accounted.tidy.upload reference.id upload known
        have uncommitted := accounted.tidy.apart upload charge found
        rw [blob] at uncommitted
        obtain ⟨upload', charge', known', found', finalized⟩ := within.admitted reference mem uncommitted
        cases Option.some.inj (known.symm.trans known')
        exact absurd opened (accounted.finals upload charge' found' (by rw [finalized]; nofun))

variable {call : FacadeCall F W E I} {ok : Bool}

theorem Effect.accounted (effect : Effect s call ok s') (remembers : Remembers s) (accounted : Accounted s)
    (keeps : s.KeepsAccounts call) : Accounted s' := by
  -- A charge that is there before and after the call, and follows the upload.
  have recharged {i : Nat} {handle : AuthorizedBlobUpload} {added : Nat} {t : HandleState S H W E I}
      (found : s.handles[i]? = some handle) (reached : Reached (handle, s.facade, s.store) added t)
      (recharged : Recharged (handle, s.facade, s.store) added t) : Accounted (s.withHandle i t) := by
    obtain ⟨charge, staged, -, same⟩ := recharged
    have ended := reached.moves.ended
    simp only [(remembers handle (mem_of_getElem? found)).1] at ended
    refine accounted.call remembers found reached.moves reached.uploadId (by rw [same])
      (by rw [same]; rfl) ?_ (by rw [same]; exact keptFor_setStaged _ _ _) ?_ ?_
    · rw [same]
      exact accounted.tidy.setStaged staged rfl
    · intro charge' now finished
      rw [same, QuotaLedger.setStaged, ExtTreeMap.getElem?_insert_self] at now
      cases now
      have before := accounted.finals _ charge staged finished
      rw [ended before]
      exact before
    · intro _ openUpload
      refine ⟨by rw [reached.handle], charge, { charge with acceptedBytes := t.1.inner.acceptedBytes }, staged, ?_, rfl, rfl⟩
      rw [same, QuotaLedger.setStaged, ExtTreeMap.getElem?_insert_self]
  have unchanged {i : Nat} {handle : AuthorizedBlobUpload} {added : Nat} {t : HandleState S H W E I}
      (found : s.handles[i]? = some handle) (reached : Reached (handle, s.facade, s.store) added t) (same : t.2.1 = s.facade)
      (accepted : (t.2.2.get handle.inner.token).terminal = .none → Charged (handle, s.facade, s.store) →
        t.1.inner.acceptedBytes = handle.inner.acceptedBytes) : Accounted (s.withHandle i t) := by
    have token := (remembers handle (mem_of_getElem? found)).1
    have ended := reached.moves.ended
    simp only [token] at ended
    rw [token] at accepted
    refine accounted.call remembers found reached.moves reached.uploadId (by rw [same]) (by rw [same]) (same ▸ accounted.tidy)
      (fun _ _ => by rw [same]) ?_ ?_
    · intro charge now finished
      rw [same] at now
      have before := accounted.finals _ charge now finished
      rw [ended before]
      exact before
    · intro none openUpload
      obtain ⟨-, charge, staged, charged⟩ := openUpload.charged handle (mem_of_getElem? found) rfl
      refine ⟨by rw [reached.handle], charge, charge, staged, same ▸ staged, rfl, ?_⟩
      rw [accepted none ⟨charge, staged, charged⟩, charged]
  cases effect with
  | refused => exact accounted
  | started issued drew empty absent free =>
    exact accounted.issue issued (fun opened => opened.absent absent) rfl rfl
      (accounted.tidy.insertStaged absent rfl free (keeps _ drew)) rfl empty.symm (by simp)
  | resumed issued named live reserves =>
    have uncommitted := keeps
    subst named
    cases reserves with
    | known found own idle =>
      exact accounted.issue issued (fun opened => (opened.counted _ found).symm.trans idle) rfl rfl
        (accounted.tidy.setStaged found rfl) rfl rfl fun finished => accounted.finals _ _ found finished
    | made absent free =>
      exact accounted.issue issued (fun opened => opened.absent absent) rfl rfl
        (accounted.tidy.insertStaged absent rfl free uncommitted) rfl rfl (by simp)
  | wrote found reached charged valid projected opened => exact recharged found reached charged
  | unwritten found reached recharges =>
    rcases recharges with charged | ⟨same, accepted⟩
    · exact recharged found reached charged
    · exact unchanged found reached same accepted
  | reached found reached same =>
    refine unchanged found reached same fun none _ => ?_
    obtain ⟨low, high⟩ := reached.moves.accepted none
    exact Nat.le_antisymm high low
  | finished found moves spent final valid staged blob ledger =>
    have token := (remembers _ (mem_of_getElem? found)).1
    rw [token] at final
    refine accounted.call remembers found moves (by rw [spent]) (by rw [ledger]) (by rw [ledger]; rfl) ?_
      (by rw [ledger]; exact keptFor_setStaged _ _ _) (fun _ _ _ => by simp [final])
      fun none => absurd (final.symm.trans none) (by simp)
    rw [ledger]
    exact accounted.tidy.setStaged staged rfl
  | aborted found moves spent ended valid ledger =>
    have token := (remembers _ (mem_of_getElem? found)).1
    rw [token] at ended
    refine accounted.call remembers found moves (by rw [spent]) (by rw [ledger]) ?_ ?_
      (by rw [ledger]; exact keptFor_removeStaged _ _) (fun _ _ _ => by simp [ended])
      fun none => absurd (ended.symm.trans none) (by simp)
    · rw [ledger]
      unfold QuotaLedger.removeStaged
      split <;> rfl
    · rw [ledger]
      exact accounted.tidy.removeStaged _
  | dropped found => exact accounted.drop found
  | stopped stopped =>
    exact accounted.congr stopped.scope (congrArg Memory.committedBlobOwners stopped.memory) rfl
  | committed admitted advances synchronized =>
    exact accounted.commit admitted advances (fun outcome past => keeps outcome past.recorded past.digest)
      (synchronized_policy synchronized)
  | unsynchronized admitted changing advances failed =>
    exact accounted.commit admitted advances (fun outcome past => keeps outcome past.recorded past.digest) ⟨_, rfl⟩
  | reconciled => exact accounted.congr rfl rfl rfl
  | replaced replaced =>
    obtain ⟨policy, rfl⟩ := replaceNamespacePolicy_policy replaced
    exact accounted.congr rfl rfl rfl
  | drifted => exact accounted.congr rfl rfl rfl

/-! ### Quotas -/

omit [Primitives] in
theorem committed_within (admitted : s.facade.admitCommit principal request = .ok changes)
    (same : ∃ policy, facade = { s.facade.charged principal request inner with policy := policy })
    (named : request.blobInventory ≠ none) :
    (∃ quotas, s.facade.quotas principal = .ok quotas ∧
      facade.ledger.committedBytes principal.digest ≤ quotas.maxCommittedBlobBytes) ∧
    ∃ quotas, s.facade.namespaceQuotas = .ok quotas ∧ facade.ledger.namespaceCommittedBytes ≤ quotas.maxCommittedBlobBytes := by
  obtain ⟨inventory, named⟩ := ne_none_iff_exists'.mp named
  have checked := admitCommit_ok admitted
  rw [named] at checked
  have within := checkInventory_ok checked
  have ledger : facade.ledger = s.facade.ledger.commitInventory principal.digest inventory := by
    obtain ⟨policy, rfl⟩ := same
    rw [charged_ledger, named]
    rfl
  obtain ⟨quotas, granted, fits⟩ := within.principalQuota
  obtain ⟨quotas', granted', fits'⟩ := within.namespaceQuota
  refine ⟨⟨quotas, granted, ?_⟩, quotas', granted', ?_⟩
  · unfold committedBytes at fits ⊢
    rw [ledger, commitInventory_committed, total_chargeAll (fun _ => if_pos rfl) inventory.valid.sorted]
    exact fits
  · unfold namespaceCommittedBytes at fits' ⊢
    rw [ledger, commitInventory_committed, total_chargeAll (fun _ => rfl) inventory.valid.sorted]
    exact fits'

omit [AuthorizedTransactionState S] [Primitives] in
theorem checkStagedProjection_ok (h : c.checkStagedProjection principal added = .ok ()) :
    (∃ quotas, c.quotas principal = .ok quotas ∧ c.ledger.stagedBytes principal.digest + added ≤ quotas.maxStagedBlobBytes) ∧
    ∃ quotas, c.namespaceQuotas = .ok quotas ∧ c.ledger.namespaceStagedBytes + added ≤ quotas.maxStagedBlobBytes := by
  obtain ⟨usage, used, h⟩ := bind_ok h
  rw [QuotaLedger.usage_ok used] at h
  obtain ⟨_, principalSum, _, namespaceSum, quotas, granted, _, principalFits, h⟩ := bind_ok₄ h
  obtain ⟨quotas', granted', namespaceFits⟩ := bind_ok h
  obtain ⟨rfl, -⟩ := checkedSum_ok principalSum
  obtain ⟨rfl, -⟩ := checkedSum_ok namespaceSum
  exact ⟨⟨quotas, granted, require_ok.mp principalFits⟩, quotas', granted', require_ok.mp namespaceFits⟩

omit [AuthorizedTransactionState S] in
theorem written_within (accounted : Accounted s) (remembers : Remembers s)
    (found : s.handles[i]? = some handle) (recharged : Recharged (handle, s.facade, s.store) added t)
    (projected : s.facade.checkStagedProjection principal added = .ok ())
    (opened : (s.store.get handle.inner.token).terminal = .none) : (∃ quotas, s.facade.quotas principal = .ok quotas ∧
      t.2.1.ledger.stagedBytes principal.digest ≤ quotas.maxStagedBlobBytes) ∧
    ∃ quotas, s.facade.namespaceQuotas = .ok quotas ∧ t.2.1.ledger.namespaceStagedBytes ≤ quotas.maxStagedBlobBytes := by
  rw [(remembers handle (mem_of_getElem? found)).1] at opened
  obtain ⟨charge, staged, most, same⟩ := recharged
  obtain ⟨-, charge', staged', exactly⟩ := (accounted.opened _ opened).charged handle (mem_of_getElem? found) rfl
  cases Option.some.inj (staged.symm.trans staged')
  obtain ⟨⟨quotas, granted, fits⟩, quotas', granted', fits'⟩ := checkStagedProjection_ok projected
  have ledger : t.2.1.ledger.staged = s.facade.ledger.staged.insert handle.uploadId
      { charge with acceptedBytes := t.1.inner.acceptedBytes } := by
    rw [same]
    rfl
  refine ⟨⟨quotas, granted, ?_⟩, quotas', granted', ?_⟩
  · have moved := total_replace (fun charge => if charge.principal = principal.digest then charge.acceptedBytes else 0) staged
      { charge with acceptedBytes := t.1.inner.acceptedBytes }
    unfold stagedBytes at fits ⊢
    rw [ledger]
    simp only at moved most
    split at moved <;> omega
  · have moved := total_replace (fun charge => charge.acceptedBytes) staged
      { charge with acceptedBytes := t.1.inner.acceptedBytes }
    unfold namespaceStagedBytes at fits' ⊢
    rw [ledger]
    simp only at moved most
    omega

/-! ### Every run -/

/-- A coordinator whose memory is what the groups of some journal replay to, as one that was created or opened is. -/
def Recorded (c : CommitCoordinator S H W E I) : Prop :=
  ∃ initial groups, replay c.scope initial groups = .ok c.toMemory

variable {scope : NamespaceRef} {initial : S}

theorem replay_keyed {groups : List RecoveredGroup} {memory : Memory S}
    (h : replay scope initial groups = .ok memory) : OwnersKeyed scope memory.committedBlobOwners := by
  induction groups using List.reverseRecOn generalizing memory with
  | nil =>
    cases h
    intro key owner found
    cases found
  | append_singleton groups group ih =>
    obtain ⟨before, replayed, step⟩ := replay_snoc_ok h
    obtain ⟨decoded, prepared, decodes, -, -, -, rfl⟩ := replayGroup_ok step
    have sound := decodeRecoveredGroup_sound decodes
    refine (ih replayed).record fun reference mem => ?_
    cases named : decoded.blobInventory with
    | none =>
      rw [named] at mem
      cases mem
    | some inventory =>
      rw [named] at mem
      exact (inventory.valid.shape reference mem).1.trans (sound.inScope inventory named)

theorem Opened.accounted (opened : Opened s) (recorded : Recorded s.facade.inner) : Accounted s := by
  obtain ⟨⟨inner, policy, issuer, made⟩, none⟩ := opened
  obtain ⟨initial, groups, replayed⟩ := recorded
  have keyed : OwnersKeyed s.facade.scope s.facade.inner.committedBlobOwners := replay_keyed replayed
  obtain ⟨innerSame, -, -, -, owned, -⟩ := new_ok made
  rw [← innerSame] at owned
  obtain ⟨committed, charges, only⟩ := fromOwners_iff keyed
  obtain ⟨ledger, below⟩ := (only _).mp owned
  have staged (upload : Octets 16) : s.facade.ledger.staged[upload]? = Option.none := by
    rw [ledger]
    exact ExtTreeMap.getElem?_empty
  refine ⟨keyed, by rw [ledger]; exact charges, ⟨fun upload charge found => ?_, fun blob upload found => ?_,
    fun upload charge found => ?_⟩, by rw [namespaceCommittedBytes, ledger]; exact below, fun upload charge found => ?_,
    fun upload _ => ⟨fun handle mem => ?_, fun charge found => ?_, ?_⟩⟩
  · cases (staged upload).symm.trans found
  · rw [ledger] at found
    cases (ExtTreeMap.getElem?_empty).symm.trans found
  · cases (staged upload).symm.trans found
  · cases (staged upload).symm.trans found
  · rw [none] at mem
    cases mem
  · cases (staged upload).symm.trans found
  · unfold existing
    rw [none]
    exact Nat.zero_le 1

variable [FileSystem F H] [EntropySource E] [EntropySource I]

theorem created_recorded [DurableKeyEnvelope W] {retention : RetentionDays} {finalName : EntryName}
    {vault : KeyVault W E} {identityEntropy : I} {files files' : F} {c : CommitCoordinator S H W E I}
    (h : (CommitCoordinator.create scope retention finalName vault identityEntropy initial).run files = (.ok c, files')) :
    Recorded c := by
  have founded : wp (CommitCoordinator.create scope retention finalName vault identityEntropy initial)
      (fun (c : CommitCoordinator S H W E I) _ => c.toMemory = Memory.initial initial) (fun _ _ => True) files := by
    refine wp_bind.mpr ?_
    exact wp_iff.mpr ⟨fun _ _ _ => rfl, fun _ _ _ => trivial⟩
  exact ⟨initial, [], congrArg Except.ok (wp_ok founded h).symm⟩

/-- In every run of calls that keep the accounts: the committed charges are the owners of the blobs, blob by blob, so that
an opening that finds the same owners makes the same charges; no blob is staged and committed; and what a commit of blobs or
a write leaves is within the quotas in force. -/
theorem accounts_exact (opened : Opened s) (recorded : Recorded s.facade.inner) (runs : Runs (KeepsAccounts (F := F)) s s') :
    OwnersKeyed s'.facade.scope s'.facade.inner.committedBlobOwners ∧
    ChargesOwners s'.facade.scope s'.facade.inner.committedBlobOwners s'.facade.ledger.committed ∧
    (∀ reopened : CommitCoordinator S H W E I, reopened.toMemory = s'.facade.inner.toMemory →
      QuotaLedger.fromOwners reopened.committedBlobOwners = .ok { committed := s'.facade.ledger.committed }) ∧
    (∀ (upload : Octets 16) charge, s'.facade.ledger.staged[upload]? = some charge →
      s'.facade.ledger.committed[charge.blob]? = none) ∧
    (∀ principal request observation cancelled cancelledLater files after,
      run (F := F) (.commit principal request observation cancelled cancelledLater files) s' = (.ok (), after) →
      request.blobInventory ≠ none →
      (∃ quotas, s'.facade.quotas principal = .ok quotas ∧
        after.facade.ledger.committedBytes principal.digest ≤ quotas.maxCommittedBlobBytes) ∧
      ∃ quotas, s'.facade.namespaceQuotas = .ok quotas ∧
        after.facade.ledger.namespaceCommittedBytes ≤ quotas.maxCommittedBlobBytes) ∧
    ∀ handle principal io input after, run (F := F) (.write handle principal io input) s' = (.ok (), after) →
      (∃ quotas, s'.facade.quotas principal = .ok quotas ∧
        after.facade.ledger.stagedBytes principal.digest ≤ quotas.maxStagedBlobBytes) ∧
      ∃ quotas, s'.facade.namespaceQuotas = .ok quotas ∧
        after.facade.ledger.namespaceStagedBytes ≤ quotas.maxStagedBlobBytes := by
  obtain ⟨remembers, accounted⟩ := runs.invariant (P := Accounted) opened.remembers (opened.accounted recorded)
    fun s call ok s' remembers accounted keeps effect => effect.accounted remembers accounted keeps
  refine ⟨accounted.keyed, accounted.charges, fun reopened same => ?_, accounted.tidy.apart,
    fun principal request observation cancelled cancelledLater files after ran named => ?_,
    fun i principal io input after ran => ?_⟩
  · rw [congrArg Memory.committedBlobOwners same]
    obtain ⟨committed, charges, only⟩ := fromOwners_iff accounted.keyed
    have equal : committed = s'.facade.ledger.committed :=
      ExtTreeMap.ext_getElem? fun id => (charges id).trans (accounted.charges id).symm
    refine (only _).mpr ⟨by rw [equal], ?_⟩
    rw [equal]
    exact accounted.bounded
  · have effect := wp_ok (run_effect remembers _) ran
    cases effect with
    | committed admitted advances synchronized => exact committed_within admitted (synchronized_policy synchronized) named
  · have effect := wp_ok (run_effect remembers _) ran
    cases effect with
    | wrote found reached recharged valid projected opened =>
      exact written_within accounted remembers found recharged projected opened

end Accounts

end Uste.Txn.FacadeSession

/-! ### A committed blob -/

namespace Uste.Txn

open Types Crypto Policy Storage Program Std

section Sample

/-- A digest shows the last bytes, so that an upload derives a blob of its own. -/
@[reducible] def mirrorPrimitives : Primitives where
  sha256 bytes := if bytes = [] then emptyBlobInventoryDigest else
    ⟨(bytes.reverse ++ List.replicate 32 0).take 32, by simp⟩
  aeadSeal _ _ _ plaintext := plaintext ++ List.replicate tagBytes 0
  aeadOpen _ _ _ bytes := some (bytes.take (bytes.length - tagBytes))
  hkdf _ _ := Octets.zero 32

attribute [local instance] mirrorPrimitives

def sampleCoordinator : Option (CommitCoordinator Tally memoryHandles Unit Nat Nat × MemoryFileSystem) :=
  match (CommitCoordinator.create sampleInstallation.scope sampleRetention sampleInstallation.finalName Storage.sampleVault 7
    sampleInstallation.initialState).run (MemoryFileSystem.new 100000) with
  | (.ok c, files) => some (c, files)
  | (.error _, _) => none

def sampleFacade : Option (SampleSession × MemoryFileSystem) :=
  sampleCoordinator.bind fun (c, files) =>
    (AuthorizedCoordinator.new c samplePolicies 0).toOption.map fun facade => (⟨facade, ∅, []⟩, files)

theorem sampleFacade_opened {s : SampleSession} {files : MemoryFileSystem} (h : sampleFacade = some (s, files)) :
    s.Opened ∧ FacadeSession.Recorded s.facade.inner := by
  obtain ⟨⟨c, files'⟩, created, h⟩ := Option.bind_eq_some_iff.mp h
  obtain ⟨facade, made, same⟩ := Option.map_eq_some_iff.mp h
  cases same
  rcases new : AuthorizedCoordinator.new c samplePolicies 0 with _ | facade'
  · rw [new] at made
    cases made
  · rw [new] at made
    cases made
    refine ⟨⟨⟨c, _, _, new⟩, rfl⟩, ?_⟩
    rw [(FacadeSession.new_ok new).1]
    unfold sampleCoordinator at created
    split at created
    case h_1 founded =>
      cases created
      exact FacadeSession.created_recorded founded
    case h_2 => cases created

def sampleBlob : BlobId := deriveBlobId sampleInstallation.scope sampleUpload

def sampleInventory : BlobInventory :=
  ⟨sampleInstallation.scope, [⟨sampleInstallation.scope, sampleBlob, 0, 0, emptyBlobInventoryDigest⟩],
    ⟨by decide, by decide, by decide⟩⟩

def sampleStart : FacadeCall MemoryFileSystem Unit Nat Nat := .start samplePrincipal (.ok sampleUpload) {}

def sampleFinish : FacadeCall MemoryFileSystem Unit Nat Nat := .finish 0 samplePrincipal {}

def sampleResume : FacadeCall MemoryFileSystem Unit Nat Nat :=
  .resume samplePrincipal ⟨sampleInstallation.scope, sampleUpload⟩ {}

def sampleNaming (files : MemoryFileSystem) : FacadeCall MemoryFileSystem Unit Nat Nat :=
  .commit samplePrincipal ⟨⟨Octets.zero 16⟩, ⟨sampleOnes⟩, [1, 2, 3], some sampleInventory⟩
    (some sampleNow) false false files

def sampleFinished (s : SampleSession) : SampleSession := s.runAll [sampleStart, sampleFinish]

def sampleNamed (s : SampleSession) (files : MemoryFileSystem) : SampleSession :=
  s.runAll [sampleStart, sampleFinish, sampleNaming files]

theorem sampleNamed_charges : ∃ s files, sampleFacade = some (s, files) ∧
    s.facade.ledger.committed[deriveBlobId s.facade.scope sampleUpload]? = none ∧ (sampleFinished s).facade.inner.outcomes = ∅ ∧
    (sampleNamed s files).facade.ledger.committed[sampleBlob]?.isSome = true ∧
    ∃ charge, ((sampleNamed s files).runAll [sampleResume]).facade.ledger.staged[sampleUpload]? = some charge ∧
      ((sampleNamed s files).runAll [sampleResume]).facade.ledger.committed[charge.blob]?.isSome = true := by
  have evaluated : (sampleFacade.any fun (s, files) =>
      s.facade.ledger.committed[deriveBlobId s.facade.scope sampleUpload]?.isNone &&
      (sampleFinished s).facade.inner.outcomes.isEmpty &&
      (sampleNamed s files).facade.ledger.committed[sampleBlob]?.isSome &&
      ((sampleNamed s files).runAll [sampleResume]).facade.ledger.staged[sampleUpload]?.any fun charge =>
        ((sampleNamed s files).runAll [sampleResume]).facade.ledger.committed[charge.blob]?.isSome) = true := by
    decide +kernel
  obtain ⟨⟨s, files⟩, opened, evaluated⟩ := (Option.any_eq_true _ _).mp evaluated
  simp only [Bool.and_eq_true, Option.isNone_iff_eq_none, ExtTreeMap.isEmpty_iff] at evaluated
  obtain ⟨⟨⟨fresh, new⟩, charged⟩, again⟩ := evaluated
  exact ⟨s, files, opened, fresh, new, charged, (Option.any_eq_true _ _).mp again⟩

theorem accounts_exact_sample : ∃ (s : SampleSession) (files : MemoryFileSystem), s.Opened ∧
    FacadeSession.Recorded s.facade.inner ∧ (sampleNamed s files).facade.ledger.committed[sampleBlob]?.isSome = true ∧
    QuotaLedger.ChargesOwners (sampleNamed s files).facade.scope (sampleNamed s files).facade.inner.committedBlobOwners
      (sampleNamed s files).facade.ledger.committed ∧
    QuotaLedger.fromOwners (sampleNamed s files).facade.inner.committedBlobOwners =
      .ok { committed := (sampleNamed s files).facade.ledger.committed } := by
  obtain ⟨s, files, opening, fresh, new, charged, -⟩ := sampleNamed_charges
  obtain ⟨opened, recorded⟩ := sampleFacade_opened opening
  have started : FacadeSession.KeepsAccounts s sampleStart := fun upload drawn => by
    cases drawn
    exact fresh
  have finished : FacadeSession.Runs (F := MemoryFileSystem) FacadeSession.KeepsAccounts s (sampleFinished s) :=
    .step (.step (.refl s) started) (trivial : FacadeSession.KeepsAccounts _ sampleFinish)
  have named : FacadeSession.KeepsAccounts (sampleFinished s) (sampleNaming files) := fun outcome found => by
    rw [new, ExtTreeMap.getElem?_empty] at found
    cases found
  have runs : FacadeSession.Runs FacadeSession.KeepsAccounts s (sampleNamed s files) := .step finished named
  obtain ⟨-, charges, rebuilt, -⟩ := FacadeSession.accounts_exact opened recorded runs
  exact ⟨s, files, opened, recorded, charged, charges, rebuilt _ rfl⟩

/-- An upload that was committed is resumed, and its blob is staged and committed. -/
theorem committed_upload_resumes : ∃ s s' : SampleSession, s.Opened ∧ FacadeSession.Recorded s.facade.inner ∧
    FacadeSession.Runs (F := MemoryFileSystem) (fun _ _ => True) s s' ∧
    ∃ charge, s'.facade.ledger.staged[sampleUpload]? = some charge ∧ s'.facade.ledger.committed[charge.blob]? ≠ none := by
  obtain ⟨s, files, opening, -, -, -, charge, staged, committed⟩ := sampleNamed_charges
  obtain ⟨opened, recorded⟩ := sampleFacade_opened opening
  have named : FacadeSession.Runs (fun _ _ => True) s (sampleNamed s files) := FacadeSession.Runs.all s fun _ _ _ => trivial
  have resumed : FacadeSession.Runs (fun _ _ => True) s ((sampleNamed s files).runAll [sampleResume]) := .step named trivial
  exact ⟨s, _, opened, recorded, resumed, charge, staged, Option.isSome_iff_ne_none.mp committed⟩

end Sample

end Uste.Txn
