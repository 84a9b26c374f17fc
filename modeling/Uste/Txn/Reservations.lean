import Uste.Txn.Facade
import Uste.Txn.Ledger
import Uste.Txn.Guarantees

/-!
Reservations and handles: the live count of a reservation against the handles of its upload that
have neither finished nor aborted.
-/

namespace Uste.Txn.FacadeSession

open Types Crypto Policy Storage Program FileSystem Std AuthorizedCoordinator List

variable {S F W E I : Type} {H : Handles} [AuthorizedTransactionState S] [Primitives]

section Counts

omit [AuthorizedTransactionState S] [Primitives]

def active (s : FacadeSession S H W E I) (upload : Octets 16) : Nat :=
  s.handles.countP fun handle => handle.activeHandle && decide (handle.uploadId = upload)

def held (s : FacadeSession S H W E I) (principal : PrincipalDigest) : Nat :=
  s.handles.countP fun handle => handle.activeHandle && decide (handle.principal = principal)

/-- The reservations agree with the handles. -/
structure Reserved (s : FacadeSession S H W E I) : Prop where
  counted : ∀ (upload : Octets 16) charge, s.facade.ledger.staged[upload]? = some charge → charge.liveHandles = s.active upload
  covered : ∀ handle ∈ s.handles, handle.activeHandle = true → ∃ charge,
    s.facade.ledger.staged[handle.uploadId]? = some charge ∧ charge.principal = handle.principal
  single : ∀ upload, s.active upload ≤ 1

/-- A spent handle is left alone while its upload has a live one. -/
def SpentAlone (s : FacadeSession S H W E I) (i : Nat) : Prop :=
  ∀ handle, s.handles[i]? = some handle → handle.activeHandle = false → s.active handle.uploadId = 0

/-- Where the counts cannot go wrong: a spent handle is neither finished nor aborted again while its upload has a live
handle, and a commit names no blob whose upload has one. -/
def KeepsCount (s : FacadeSession S H W E I) : FacadeCall F W E I → Prop
  | .finish i _ _ => s.SpentAlone i
  | .abort i _ _ => s.SpentAlone i
  | .commit _ request _ _ _ _ => ∀ inventory ∈ request.blobInventory, ∀ reference ∈ inventory.references, ∀ upload,
      s.facade.ledger.stagedByBlob[reference.id]? = some upload → s.active upload = 0
  | _ => True

variable {s : FacadeSession S H W E I} {handle : AuthorizedBlobUpload}

theorem active_pos (mem : handle ∈ s.handles) (live : handle.activeHandle = true) : 0 < s.active handle.uploadId := by
  refine countP_pos_iff.mpr ⟨handle, mem, ?_⟩
  simp [live]

theorem Reserved.idle (reserved : Reserved s) {upload : Octets 16} (absent : s.facade.ledger.staged[upload]? = none) :
    s.active upload = 0 := by
  refine countP_eq_zero.mpr fun handle mem live => ?_
  simp only [Bool.and_eq_true, decide_eq_true_eq] at live
  obtain ⟨charge, found, -⟩ := reserved.covered handle mem live.1
  rw [live.2, absent] at found
  cases found

theorem active_cons (handle : AuthorizedBlobUpload) (upload : Octets 16) (live : handle.activeHandle = true)
    (facade : AuthorizedCoordinator S H W E I) (store : UploadStore) :
    active { facade := facade, store := store, handles := handle :: s.handles } upload =
      s.active upload + if handle.uploadId = upload then 1 else 0 := by
  unfold active
  rw [countP_cons]
  simp [live]

theorem Reserved.issue (reserved : Reserved s) {charge : StagedCharge} {ledger : QuotaLedger}
    (live : handle.activeHandle = true) (idle : s.active handle.uploadId = 0)
    (staged : ledger.staged = s.facade.ledger.staged.insert handle.uploadId charge) (one : charge.liveHandles = 1)
    (owner : charge.principal = handle.principal) :
    Reserved { facade := s.facade.withLedger ledger, store := s.store, handles := handle :: s.handles } where
  counted upload charge' found := by
    rw [active_cons _ _ live]
    obtain ⟨rfl, rfl⟩ | ⟨apart, found⟩ := some_insert.mp (staged ▸ found)
    · rw [one, idle, if_pos rfl]
    · rw [if_neg apart, reserved.counted upload charge' found]
      rfl
  covered other mem active := by
    simp only [staged]
    rcases mem_cons.mp mem with rfl | mem
    · exact ⟨charge, ExtTreeMap.getElem?_insert_self, owner⟩
    · have apart : handle.uploadId ≠ other.uploadId := by
        intro same
        have here := active_pos mem active
        rw [← same, idle] at here
        exact absurd here (Nat.lt_irrefl 0)
      rw [getElem?_insert_ne apart]
      exact reserved.covered other mem active
  single upload := by
    rw [active_cons _ _ live]
    split
    · rename_i same
      rw [← same, idle]
    · exact reserved.single upload

def KeptFor (upload : Octets 16) (a b : QuotaLedger) : Prop :=
  ∀ other, other ≠ upload → b.staged[other]? = a.staged[other]?

section

variable (ledger : QuotaLedger) (upload : Octets 16)

include ledger upload

theorem keptFor_setStaged (charge : StagedCharge) : KeptFor upload ledger (ledger.setStaged upload charge) := by
  intro other different
  exact getElem?_insert_ne different.symm

theorem keptFor_removeStaged : KeptFor upload ledger (ledger.removeStaged upload) := by
  intro other different
  unfold QuotaLedger.removeStaged
  split
  · exact getElem?_erase_ne different.symm
  · rfl

theorem removeStaged_own : (ledger.removeStaged upload).staged[upload]? = none := by
  unfold QuotaLedger.removeStaged
  split
  · simp
  · assumption

end

section

variable {i : Nat} {handle : AuthorizedBlobUpload} {t : HandleState S H W E I}

section

variable (reserved : Reserved s) (found : s.handles[i]? = some handle)

include reserved found

theorem Reserved.keep
    (same : t.1.activeHandle = handle.activeHandle ∧ t.1.uploadId = handle.uploadId ∧ t.1.principal = handle.principal)
    (others : KeptFor handle.uploadId s.facade.ledger t.2.1.ledger)
    (own : (t.2.1.ledger.staged[handle.uploadId]?).map (fun c => (c.liveHandles, c.principal)) =
      (s.facade.ledger.staged[handle.uploadId]?).map fun c => (c.liveHandles, c.principal)) :
    Reserved (s.withHandle i t) := by
  have counts (upload : Octets 16) : (s.withHandle i t).active upload = s.active upload := by
    unfold active
    rw [countP_set_of_found _ found, countP_eraseIdx _ found, same.1, same.2.1]
  have charges (upload : Octets 16) : (t.2.1.ledger.staged[upload]?).map (fun c => (c.liveHandles, c.principal)) =
      (s.facade.ledger.staged[upload]?).map fun c => (c.liveHandles, c.principal) := by
    by_cases here : upload = handle.uploadId
    · rw [here, own]
    · rw [others upload here]
  refine ⟨fun upload charge now => ?_, fun other mem live => ?_, fun upload => counts upload ▸ reserved.single upload⟩
  · have before := charges upload
    rw [now] at before
    obtain ⟨charge', was, equal⟩ := Option.map_eq_some_iff.mp before.symm
    rw [counts, ← reserved.counted upload charge' was]
    exact (congrArg Prod.fst equal).symm
  · have covered : ∃ charge, s.facade.ledger.staged[other.uploadId]? = some charge ∧ charge.principal = other.principal := by
      rcases mem_or_eq_of_mem_set mem with mem | rfl
      · exact reserved.covered other mem live
      · rw [same.2.1, same.2.2]
        exact reserved.covered handle (mem_of_getElem? found) (same.1 ▸ live)
    obtain ⟨charge, was, owner⟩ := covered
    have after := charges other.uploadId
    rw [was] at after
    obtain ⟨charge', now, equal⟩ := Option.map_eq_some_iff.mp after
    exact ⟨charge', now, (congrArg Prod.snd equal).trans owner⟩

theorem Reserved.charge {added : Nat} (reached : Reached (handle, s.facade, s.store) added t)
    (ledger : t.2.1 = s.facade ∨ Recharged (handle, s.facade, s.store) added t) : Reserved (s.withHandle i t) := by
  have tags : t.1.activeHandle = handle.activeHandle ∧ t.1.uploadId = handle.uploadId ∧ t.1.principal = handle.principal := by
    rw [reached.handle]
    exact ⟨rfl, rfl, rfl⟩
  rcases ledger with same | ⟨charge, staged, -, same⟩
  · exact reserved.keep found tags (fun _ _ => by rw [same]) (by rw [same])
  · refine reserved.keep found tags (same ▸ keptFor_setStaged _ _ _) ?_
    rw [same, staged]
    simp [QuotaLedger.setStaged]

theorem Reserved.spend (alone : s.SpentAlone i)
    (spent : t.1.activeHandle = false) (others : KeptFor handle.uploadId s.facade.ledger t.2.1.ledger)
    (own : ∀ charge, t.2.1.ledger.staged[handle.uploadId]? = some charge → ∃ before,
      s.facade.ledger.staged[handle.uploadId]? = some before ∧ charge.liveHandles = before.liveHandles - 1) :
    Reserved (s.withHandle i t) := by
  have split (upload : Octets 16) : s.active upload =
      (if (handle.activeHandle && decide (handle.uploadId = upload)) = true then 1 else 0) + (s.withHandle i t).active upload := by
    unfold active
    rw [countP_set_of_found _ found, countP_eraseIdx _ found, spent]
    simp
  have none : (s.withHandle i t).active handle.uploadId = 0 := by
    have total := split handle.uploadId
    cases live : handle.activeHandle with
    | true =>
      have single := reserved.single handle.uploadId
      simp only [live, decide_true, Bool.and_self, if_true] at total
      omega
    | false =>
      have idle := alone handle found live
      omega
  have kept (upload : Octets 16) (different : upload ≠ handle.uploadId) : (s.withHandle i t).active upload = s.active upload := by
    rw [split upload]
    simp [Ne.symm different]
  refine ⟨fun upload charge now => ?_, fun other mem live => ?_, fun upload => ?_⟩
  · by_cases here : upload = handle.uploadId
    · subst here
      obtain ⟨before, was, count⟩ := own charge now
      have single := reserved.single handle.uploadId
      have counted := reserved.counted _ before was
      omega
    · rw [kept upload here]
      exact reserved.counted upload charge (others upload here ▸ now)
  · have here : other.uploadId ≠ handle.uploadId := by
      intro same
      have positive := active_pos (s := s.withHandle i t) mem live
      rw [same, none] at positive
      exact absurd positive (Nat.lt_irrefl 0)
    rw [others _ here]
    rcases mem_or_eq_of_mem_set mem with mem | rfl
    · exact reserved.covered other mem live
    · rw [spent] at live
      cases live
  · by_cases here : upload = handle.uploadId
    · rw [here, none]
      exact Nat.zero_le 1
    · rw [kept upload here]
      exact reserved.single upload

theorem Reserved.drop :
    Reserved { facade := s.facade.withLedger (s.facade.ledger.dropHandle handle.uploadId handle.activeHandle)
               store := s.store
               handles := s.handles.eraseIdx i } := by
  have split (upload : Octets 16) := countP_eraseIdx (fun handle : AuthorizedBlobUpload =>
    handle.activeHandle && decide (handle.uploadId = upload)) found
  refine ⟨fun upload charge now => ?_, fun other mem live => ?_, fun upload => ?_⟩
  · rw [QuotaLedger.dropHandle_staged] at now
    obtain ⟨before, was, rfl⟩ := Option.map_eq_some_iff.mp now
    have counted := reserved.counted upload before was
    have total := split upload
    unfold active at counted ⊢
    simp only [counted, total]
    exact Nat.add_sub_cancel_left _ _
  · obtain ⟨before, was, owner⟩ := reserved.covered other (mem_of_mem_eraseIdx mem) live
    rw [QuotaLedger.dropHandle_staged, was]
    exact ⟨_, rfl, owner⟩
  · have single := reserved.single upload
    have total := split upload
    unfold active at single ⊢
    simp only
    omega

end

end

theorem Reserved.release (reserved : Reserved s) {facade : AuthorizedCoordinator S H W E I}
    (kept : ∀ upload : Octets 16, facade.ledger.staged[upload]? = s.facade.ledger.staged[upload]? ∨
      facade.ledger.staged[upload]? = none ∧ s.active upload = 0) : Reserved { s with facade := facade } := by
  refine ⟨fun upload charge now => ?_, fun handle mem live => ?_, reserved.single⟩
  · rcases kept upload with same | ⟨gone, -⟩
    · exact reserved.counted upload charge (same ▸ now)
    · cases gone.symm.trans now
  · rcases kept handle.uploadId with same | ⟨-, idle⟩
    · exact same ▸ reserved.covered handle mem live
    · exact absurd (active_pos mem live) (idle ▸ Nat.lt_irrefl 0)

end Counts

variable {facade : AuthorizedCoordinator S H W E I} {inner : CommitCoordinator S H W E I}

omit [AuthorizedTransactionState S] [Primitives] in
theorem charged_staged {principal : AuthenticatedPrincipal}
    {request : AuthorizedTransactionRequest} (upload : Octets 16) :
    (facade.charged principal request inner).ledger.staged[upload]? = facade.ledger.staged[upload]? ∨
      (facade.charged principal request inner).ledger.staged[upload]? = none ∧
        ∃ inventory ∈ request.blobInventory, ∃ reference ∈ inventory.references,
          facade.ledger.stagedByBlob[reference.id]? = some upload := by
  unfold charged chargeInventory
  split
  · exact .inl rfl
  · rename_i inventory named
    rcases QuotaLedger.foldl_commitReference_staged principal.digest inventory.references facade.ledger upload
      with kept | ⟨⟨reference, mem, found⟩, gone⟩
    · exact .inl kept
    · exact .inr ⟨gone, inventory, named, reference, mem, found⟩

variable {s s' : FacadeSession S H W E I} {call : FacadeCall F W E I} {ok : Bool}

theorem Effect.reserved (effect : Effect s call ok s') (reserved : Reserved s) (keeps : s.KeepsCount call) : Reserved s' := by
  cases effect with
  | refused => exact reserved
  | started issued drew empty absent free =>
    exact reserved.issue issued.active (reserved.idle absent) rfl rfl issued.principal.symm
  | resumed issued named live reserves =>
    cases reserves with
    | known found own idle =>
      exact reserved.issue issued.active ((reserved.counted _ _ found).symm.trans idle) rfl rfl (own.trans issued.principal.symm)
    | made absent free => exact reserved.issue issued.active (reserved.idle absent) rfl rfl issued.principal.symm
  | wrote found reached recharged valid projected opened => exact reserved.charge found reached (.inr recharged)
  | unwritten found reached recharges => exact reserved.charge found reached (recharges.symm.imp_left And.left)
  | reached found reached same => exact reserved.charge found reached (.inl same)
  | finished found moves spent final valid staged blob ledger =>
    refine reserved.spend found keeps (congrArg AuthorizedBlobUpload.activeHandle spent) (ledger ▸ keptFor_setStaged _ _ _) ?_
    intro charge now
    rw [ledger, QuotaLedger.setStaged, ExtTreeMap.getElem?_insert_self] at now
    cases now
    exact ⟨_, staged, rfl⟩
  | aborted found moves spent ended valid ledger =>
    refine reserved.spend found keeps (congrArg AuthorizedBlobUpload.activeHandle spent) (ledger ▸ keptFor_removeStaged _ _) ?_
    intro charge now
    rw [ledger, removeStaged_own] at now
    cases now
  | dropped found => exact reserved.drop found
  | stopped stopped => exact reserved.release fun _ => .inl rfl
  | committed admitted advances synchronized =>
    obtain ⟨policy, rfl⟩ := synchronized_policy synchronized
    refine reserved.release fun upload => (charged_staged upload).imp_right ?_
    rintro ⟨gone, inventory, named, reference, mem, known⟩
    exact ⟨gone, keeps inventory named reference mem upload known⟩
  | unsynchronized admitted changing advances failed =>
    refine reserved.release fun upload => (charged_staged upload).imp_right ?_
    rintro ⟨gone, inventory, named, reference, mem, known⟩
    exact ⟨gone, keeps inventory named reference mem upload known⟩
  | reconciled => exact reserved.release fun _ => .inl rfl
  | replaced replaced =>
    obtain ⟨policy, rfl⟩ := replaceNamespacePolicy_policy replaced
    exact reserved.release fun _ => .inl rfl
  | drifted => exact reserved.release fun _ => .inl rfl

/-! ### Issuing a handle -/

omit [AuthorizedTransactionState S] [Primitives] in
/-- The live count of a principal's reservations is the number of its live handles. -/
theorem Reserved.held_eq (reserved : Reserved s) (principal : PrincipalDigest) :
    s.facade.ledger.liveHandles principal = s.held principal := by
  have byUpload : s.facade.ledger.liveHandles principal = (s.facade.ledger.staged.toList.map fun entry =>
      if decide (entry.2.principal = principal) = true then
        s.handles.countP (fun handle => handle.activeHandle && decide (handle.uploadId = entry.1)) else 0).sum := by
    unfold QuotaLedger.liveHandles total
    refine congrArg List.sum (map_congr_left fun entry mem => ?_)
    have counted := reserved.counted entry.1 entry.2 (ExtTreeMap.mem_toList_iff_getElem?_eq_some.mp mem)
    unfold active at counted
    simp only [decide_eq_true_eq, counted]
  have byHandle := sum_countP s.facade.ledger.staged (fun charge => decide (charge.principal = principal)) s.handles
    AuthorizedBlobUpload.uploadId AuthorizedBlobUpload.activeHandle
  refine (byUpload.trans byHandle).trans ?_
  refine countP_congr fun handle mem => ?_
  cases live : handle.activeHandle with
  | false => simp
  | true =>
    obtain ⟨charge, found, owner⟩ := reserved.covered handle mem live
    simp [found, owner]

def issuesTo : FacadeCall F W E I → Option AuthenticatedPrincipal
  | .start principal _ _ => some principal
  | .resume principal _ _ => some principal
  | _ => none

section

omit [AuthorizedTransactionState S] [Primitives]

theorem Reserved.admitted (reserved : Reserved s) {principal : AuthenticatedPrincipal}
    (admitted : s.facade.admitHandle principal = .ok ()) :
    ∃ quotas, s.facade.quotas principal = .ok quotas ∧ s.held principal.digest < quotas.maxLiveUploads := by
  obtain ⟨quotas, granted, _, -, usage, used, _, below, -⟩ := bind_ok₄ admitted
  have below := require_ok.mp below
  rw [QuotaLedger.usage_ok used] at below
  refine ⟨quotas, granted, ?_⟩
  rw [← reserved.held_eq]
  exact below

theorem held_cons (handle : AuthorizedBlobUpload) (principal : PrincipalDigest) (live : handle.activeHandle = true)
    (facade : AuthorizedCoordinator S H W E I) (store : UploadStore) :
    held { facade := facade, store := store, handles := handle :: s.handles } principal =
      s.held principal + if handle.principal = principal then 1 else 0 := by
  unfold held
  rw [countP_cons]
  simp [live]

theorem held_set {i : Nat} {handle : AuthorizedBlobUpload} {t : HandleState S H W E I} (found : s.handles[i]? = some handle)
    (principal : PrincipalDigest) (owner : t.1.principal = handle.principal)
    (less : t.1.activeHandle = true → handle.activeHandle = true) : (s.withHandle i t).held principal ≤ s.held principal := by
  unfold held
  rw [countP_set_of_found _ found, countP_eraseIdx _ found, owner]
  cases now : t.1.activeHandle with
  | false => simp
  | true => rw [less now]

end

/-- Only a call that issues a handle gives a principal one more, and then within the quota in force. -/
theorem Effect.held (effect : Effect s call ok s') (reserved : Reserved s) (principal : PrincipalDigest) :
    s'.held principal ≤ s.held principal ∨ ∃ caller quotas, issuesTo call = some caller ∧ caller.digest = principal ∧
      s.facade.quotas caller = .ok quotas ∧ s'.held principal ≤ quotas.maxLiveUploads := by
  have issued {caller : AuthenticatedPrincipal} {action : Action} {handle : AuthorizedBlobUpload}
      (named : issuesTo call = some caller) (issued : Issued (s.facade, s.store) caller action handle)
      (facade : AuthorizedCoordinator S H W E I) :
      FacadeSession.held { facade := facade, store := s.store, handles := handle :: s.handles } principal ≤ s.held principal ∨
        ∃ caller quotas, issuesTo call = some caller ∧ caller.digest = principal ∧ s.facade.quotas caller = .ok quotas ∧
          FacadeSession.held { facade := facade, store := s.store, handles := handle :: s.handles } principal ≤
            quotas.maxLiveUploads := by
    rw [held_cons _ _ issued.active, issued.principal]
    by_cases own : caller.digest = principal
    · obtain ⟨quotas, granted, below⟩ := reserved.admitted issued.admitted
      rw [own] at below
      rw [if_pos own]
      exact .inr ⟨caller, quotas, named, own, granted, below⟩
    · rw [if_neg own]
      exact .inl (Nat.le_refl _)
  cases effect with
  | started made drew empty absent free => exact issued rfl made _
  | resumed made named live reserves => exact issued rfl made _
  | wrote found reached recharged valid projected opened =>
    exact .inl (held_set found principal (by rw [reached.handle]) fun live => by rw [reached.handle] at live; exact live)
  | unwritten found reached recharges =>
    exact .inl (held_set found principal (by rw [reached.handle]) fun live => by rw [reached.handle] at live; exact live)
  | reached found reached same =>
    exact .inl (held_set found principal (by rw [reached.handle]) fun live => by rw [reached.handle] at live; exact live)
  | finished found moves spent final valid staged blob ledger =>
    exact .inl (held_set found principal (by rw [spent]) fun live => by rw [spent] at live; cases live)
  | aborted found moves spent ended valid ledger =>
    exact .inl (held_set found principal (by rw [spent]) fun live => by rw [spent] at live; cases live)
  | dropped found =>
    left
    unfold FacadeSession.held
    rw [countP_eraseIdx _ found]
    exact Nat.le_add_left _ _
  | _ => exact .inl (Nat.le_refl _)

/-! ### Every run -/

omit [Primitives] in
/-- A facade that was just opened on a coordinator, with no handle issued. -/
def Opened (s : FacadeSession S H W E I) : Prop :=
  (∃ inner policy issuer, AuthorizedCoordinator.new inner policy issuer = .ok s.facade) ∧ s.handles = []

omit [AuthorizedTransactionState S] [Primitives] in
theorem fromOwners_staged {owners : BlobOwners} {ledger : QuotaLedger} (h : QuotaLedger.fromOwners owners = .ok ledger) :
    ledger.staged = ∅ ∧ ledger.stagedByBlob = ∅ := by
  obtain ⟨folded, folds, _, -, h⟩ := bind_ok₂ h
  cases h
  have kept (charges : List (BlobReference × PrincipalDigest)) (a b : QuotaLedger)
      (folds : charges.foldlM QuotaLedger.chargeOwner a = .ok b) : b.staged = a.staged ∧ b.stagedByBlob = a.stagedByBlob := by
    induction charges generalizing a with
    | nil =>
      cases folds
      exact ⟨rfl, rfl⟩
    | cons charge charges ih =>
      obtain ⟨next, charged, folds⟩ := foldlM_step folds
      obtain ⟨_, -, charged⟩ := bind_ok charged
      cases charged
      have rest := ih _ folds
      exact rest
  exact kept _ _ _ folds

omit [Primitives] in
theorem new_ok {policy : PolicyKernel} {issuer : Instance}
    (h : AuthorizedCoordinator.new inner policy issuer = .ok facade) :
    facade.inner = inner ∧ facade.policy = policy ∧ facade.issuer = issuer ∧ inner.uncertain = false ∧
      QuotaLedger.fromOwners inner.committedBlobOwners = .ok facade.ledger ∧
      match durablePolicy inner.state with
      | some durable => policy.namespacePolicy durable.scope = some durable
      | none => AuthorizedTransactionState.requiresDurablePolicy S = false := by
  obtain ⟨view, viewed, h⟩ := bind_ok h
  obtain ⟨_, certain, viewed⟩ := bind_ok (mapError_eq_ok viewed)
  cases viewed
  unfold durablePolicy
  split at h
  · rename_i durable found
    obtain ⟨_, enforced, ledger, owned, h⟩ := bind_ok₂ h
    cases h
    rw [found]
    exact ⟨rfl, rfl, rfl, require_ok.mp certain, owned, require_ok.mp enforced⟩
  · rename_i missing
    obtain ⟨_, optional, ledger, owned, h⟩ := bind_ok₂ h
    cases h
    rw [missing]
    exact ⟨rfl, rfl, rfl, require_ok.mp certain, owned, require_ok.mp optional⟩

omit [Primitives] in
theorem Opened.remembers (opened : Opened s) : Remembers s := by
  intro handle mem
  rw [opened.2] at mem
  cases mem

omit [Primitives] in
theorem Opened.reserved (opened : Opened s) : Reserved s := by
  obtain ⟨⟨inner, policy, issuer, made⟩, none⟩ := opened
  have empty := (fromOwners_staged (new_ok made).2.2.2.2.1).1
  refine ⟨fun upload charge found => ?_, fun handle mem => ?_, fun upload => ?_⟩
  · rw [empty] at found
    simp at found
  · rw [none] at mem
    cases mem
  · unfold active
    rw [none]
    exact Nat.zero_le 1

variable [FileSystem F H] [EntropySource E] [EntropySource I]

/-- In every run of calls that keep the count, the live count of each reservation is the number of handles of its upload
that have neither finished nor aborted, there is at most one such handle per upload, and a principal comes to hold one more
only from a call that issues it, within the quota then in force. -/
theorem live_handles_exact (opened : Opened s) (runs : Runs (KeepsCount (F := F)) s s') :
    (∀ (upload : Octets 16) charge, s'.facade.ledger.staged[upload]? = some charge → charge.liveHandles = s'.active upload) ∧
    (∀ upload, s'.active upload ≤ 1) ∧
    ∀ (call : FacadeCall F W E I) (principal : PrincipalDigest), (run call s').2.held principal ≤ s'.held principal ∨
      ∃ caller quotas, issuesTo call = some caller ∧ caller.digest = principal ∧ s'.facade.quotas caller = .ok quotas ∧
        (run call s').2.held principal ≤ quotas.maxLiveUploads := by
  obtain ⟨remembers, reserved⟩ := runs.invariant (P := Reserved) opened.remembers opened.reserved
    fun s call ok s' _ reserved keeps effect => effect.reserved reserved keeps
  refine ⟨reserved.counted, reserved.single, fun call principal => ?_⟩
  have effect := wp_iff.mp (run_effect remembers call)
  rcases ran : run call s' with ⟨_ | _, s''⟩
  · exact (effect.2 _ _ ran).held reserved principal
  · exact (effect.1 _ _ ran).held reserved principal

end Uste.Txn.FacadeSession

/-! ### A small facade -/

namespace Uste.Txn

open Types Crypto Policy Storage Std

section Sample

attribute [local instance] plainPrimitives

def sampleRequirements : AuthorizationRequirements := ⟨[], by decide⟩

instance : AuthorizedTransactionState Tally where
  requiresDurablePolicy := false
  authorizationRequirements _ _ := .ok sampleRequirements
  durableNamespacePolicy _ := none
  durablePolicyChange _ := .ok none

def sampleQuotas : QuotaLimits := ⟨1024, 1024, 1024, 4, 1024, by decide⟩

def samplePrincipal : AuthenticatedPrincipal := ⟨⟨Octets.zero 32⟩, 0⟩

def sampleRule (version : PolicyVersion) : NamespacePolicy :=
  let bare := NamespacePolicy.new sampleInstallation.scope version sampleQuotas
  (bare.grant samplePrincipal.digest (.new ⟨2 ^ actionCount - 1, by decide⟩ sampleQuotas)).toOption.getD bare

def sampleKernel (version : PolicyVersion) : PolicyKernel := (PolicyKernel.new 0).put (sampleRule version)

def samplePolicies : PolicyKernel := sampleKernel ⟨1, Nat.one_pos, CommitRevision.one_fits⟩

def sampleUpload : Octets 16 := ⟨List.replicate 16 9, by simp⟩

abbrev SampleSession := FacadeSession Tally memoryHandles Unit Nat Nat

def sampleOpening : Option SampleSession :=
  sampleFounding.1.toOption.bind fun c =>
    (AuthorizedCoordinator.new c samplePolicies 0).toOption.map fun facade => ⟨facade, ∅, []⟩

def sampleCalls : List (FacadeCall MemoryFileSystem Unit Nat Nat) :=
  [.start samplePrincipal (.ok sampleUpload) {}, .finish 0 samplePrincipal {},
    .resume samplePrincipal ⟨sampleInstallation.scope, sampleUpload⟩ {}, .finish 1 samplePrincipal {}]

theorem sampleOpening_opened {s : SampleSession} (h : sampleOpening = some s) : s.Opened := by
  obtain ⟨c, -, h⟩ := Option.bind_eq_some_iff.mp h
  obtain ⟨facade, made, rfl⟩ := Option.map_eq_some_iff.mp h
  refine ⟨⟨c, samplePolicies, 0, ?_⟩, rfl⟩
  rcases new : AuthorizedCoordinator.new c samplePolicies 0 with _ | facade'
  · rw [new] at made
    cases made
  · rw [new] at made
    cases made
    rfl

def sampleSteadyCalls : List (FacadeCall MemoryFileSystem Unit Nat Nat) :=
  [.start samplePrincipal (.ok sampleUpload) {}, .write 0 samplePrincipal {} [1, 2, 3], .drop 0,
    .resume samplePrincipal ⟨sampleInstallation.scope, sampleUpload⟩ {}]

theorem live_handles_exact_sample : ∃ s s' : SampleSession, s.Opened ∧ s'.active sampleUpload = 1 ∧
    (∀ (upload : Octets 16) charge, s'.facade.ledger.staged[upload]? = some charge → charge.liveHandles = s'.active upload) ∧
    ∀ upload, s'.active upload ≤ 1 := by
  have evaluated : (sampleOpening.any fun s => (s.runAll sampleSteadyCalls).active sampleUpload = 1) = true := by
    decide +kernel
  obtain ⟨s, opened, evaluated⟩ := (Option.any_eq_true _ _).mp evaluated
  have runs : FacadeSession.Runs (F := MemoryFileSystem) FacadeSession.KeepsCount s (s.runAll sampleSteadyCalls) := by
    refine FacadeSession.Runs.all s fun call mem s => ?_
    simp only [sampleSteadyCalls, List.mem_cons, List.not_mem_nil, or_false] at mem
    rcases mem with rfl | rfl | rfl | rfl <;> trivial
  obtain ⟨counted, single, -⟩ := FacadeSession.live_handles_exact (sampleOpening_opened opened) runs
  exact ⟨s, _, sampleOpening_opened opened, of_decide_eq_true evaluated, counted, single⟩

/-- A handle that is finished again takes the count of the reservation its successor holds. -/
theorem finished_again_uncounts : ∃ s s' : SampleSession, s.Opened ∧
    FacadeSession.Runs (F := MemoryFileSystem) (fun _ _ => True) s s' ∧
    ∃ charge, s'.facade.ledger.staged[sampleUpload]? = some charge ∧ charge.liveHandles = 0 ∧ s'.active sampleUpload = 1 := by
  have evaluated : (sampleOpening.any fun s => (s.runAll sampleCalls).active sampleUpload = 1 &&
      ((s.runAll sampleCalls).facade.ledger.staged[sampleUpload]?).any fun charge => charge.liveHandles = 0) = true := by
    decide +kernel
  obtain ⟨s, opened, evaluated⟩ := (Option.any_eq_true _ _).mp evaluated
  simp only [Bool.and_eq_true, decide_eq_true_eq] at evaluated
  obtain ⟨charge, found, zero⟩ := (Option.any_eq_true _ _).mp evaluated.2
  exact ⟨s, s.runAll sampleCalls, sampleOpening_opened opened, FacadeSession.Runs.all s fun _ _ _ => trivial, charge, found,
    of_decide_eq_true zero, evaluated.1⟩

end Sample

end Uste.Txn
