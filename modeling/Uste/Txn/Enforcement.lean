import Uste.Txn.Accounting

/-!
The policy in force: the kernel enforces the policy that the reducer holds, its versions grow, and
what was granted under an older one is refused.
-/

namespace Uste.Txn

open Types Crypto Policy Storage Program FileSystem Std AuthorizedCoordinator AuthorizedTransactionState

/-- What a reducer with a durable policy promises of the states it can reach: a request that names no change keeps the
policy, one that names a change puts a newer policy of the same namespace in the place of the one it expects, and asks for
the permission to manage it. -/
structure HoldsPolicy (S : Type) [AuthorizedTransactionState S] (Reaches : S → Prop) : Prop where
  required : requiresDurablePolicy S = true
  reaches : ∀ {state request inventory revision prepared}, Reaches state →
    TransactionState.prepare state request inventory revision = .ok prepared → Reaches (TransactionState.publish state prepared)
  keeps : ∀ {state request inventory revision prepared}, Reaches state → durablePolicyChange S request = .ok none →
    TransactionState.prepare state request inventory revision = .ok prepared →
    durablePolicy (TransactionState.publish state prepared) = durablePolicy state
  replaces : ∀ {state request inventory revision prepared change}, Reaches state →
    durablePolicyChange S request = .ok (some change) →
    TransactionState.prepare state request inventory revision = .ok prepared →
    ∃ current, durablePolicy state = some current ∧ current.version = change.expected ∧
      current.version.value < change.next.version.value ∧ change.next.scope = current.scope ∧
      durablePolicy (TransactionState.publish state prepared) = some change.next
  asks : ∀ {request inventory change requirements}, durablePolicyChange S request = .ok (some change) →
    authorizationRequirements S request inventory = .ok requirements →
    ⟨.managePolicy, .namespace change.next.scope⟩ ∈ requirements.requirements

namespace FacadeSession

variable {S F W E I : Type} {H : Handles}

section Steps

variable [AuthorizedTransactionState S] {Reaches : S → Prop} {scope : NamespaceRef} {s s' : FacadeSession S H W E I}

/-- The kernel enforces what the reducer holds of a namespace. -/
structure Enforced (Reaches : S → Prop) (scope : NamespaceRef) (c : AuthorizedCoordinator S H W E I) : Prop where
  reaches : Reaches c.inner.state
  enforced : ∃ durable, durablePolicy c.inner.state = some durable ∧ durable.scope = scope ∧
    c.policy.namespacePolicy scope = some durable

structure Renewed (kernel kernel' : PolicyKernel) : Prop where
  authority : kernel'.authority = kernel.authority
  newer : ∀ scope policy, kernel.namespacePolicy scope = some policy → kernel'.namespacePolicy scope = some policy ∨
    ∃ policy', kernel'.namespacePolicy scope = some policy' ∧ policy.version.value < policy'.version.value

omit [AuthorizedTransactionState S] in
theorem Renewed.refl (kernel : PolicyKernel) : Renewed kernel kernel := ⟨rfl, fun _ _ found => .inl found⟩

omit [AuthorizedTransactionState S] in
theorem Renewed.trans {a b c : PolicyKernel} (first : Renewed a b) (second : Renewed b c) : Renewed a c := by
  refine ⟨second.authority.trans first.authority, fun scope policy found => ?_⟩
  rcases first.newer scope policy found with kept | ⟨policy', found', newer⟩
  · exact second.newer scope policy kept
  · rcases second.newer scope policy' found' with kept | ⟨policy'', found'', newer'⟩
    · exact .inr ⟨policy', kept, newer⟩
    · exact .inr ⟨policy'', found'', newer.trans newer'⟩

variable {current next : NamespacePolicy}

omit [AuthorizedTransactionState S] in
theorem Renewed.put {kernel : PolicyKernel}
    (found : kernel.namespacePolicy next.scope = some current) (newer : current.version.value < next.version.value) :
    Renewed kernel (kernel.put next) := by
  refine ⟨rfl, fun scope policy found' => ?_⟩
  by_cases same : next.scope = scope
  · subst same
    cases found.symm.trans found'
    exact .inr ⟨next, kernel.namespacePolicy_put next, newer⟩
  · refine .inl ?_
    simp only [PolicyKernel.namespacePolicy, PolicyKernel.put, getElem?_insert_ne same]
    exact found'

variable {c : AuthorizedCoordinator S H W E I} {principal : AuthenticatedPrincipal}

theorem synchronizeDurablePolicy_eq {durable : NamespacePolicy} (certain : c.inner.uncertain = false)
    (holds : durablePolicy c.inner.state = some durable) (found : c.policy.namespacePolicy durable.scope = some current) :
    c.synchronizeDurablePolicy principal = if current = durable then .ok c else (do
      require (current.version.value < durable.version.value) AuthorizedError.integrityFailure
      let policy ← (c.policy.replaceNamespacePolicy principal current.version durable).mapError .ofPolicy
      pure { c with policy := policy }) := by
  unfold durablePolicy at holds
  unfold synchronizeDurablePolicy CommitCoordinator.readView
  rw [require_pos _ certain, ok_bind]
  simp only [pure, Except.pure, Except.mapError, ok_bind, holds, orError_ok.mpr found]

theorem synchronizeDurablePolicy_replaces
    (certain : c.inner.uncertain = false) (durable : durablePolicy c.inner.state = some next)
    (found : c.policy.namespacePolicy next.scope = some current) (newer : current.version.value < next.version.value)
    (allowed : ∃ lease, c.policy.authorize principal .managePolicy (.namespace next.scope) = .ok lease) :
    c.synchronizeDurablePolicy principal = .ok { c with policy := c.policy.put next } := by
  have differs : current ≠ next := by
    rintro rfl
    exact lt_irrefl _ newer
  rw [synchronizeDurablePolicy_eq certain durable found, if_neg differs, require_pos _ newer, ok_bind,
    PolicyKernel.replaceNamespacePolicy_succeeds found newer allowed]
  rfl

variable {request : AuthorizedTransactionRequest} {changes : Option DurablePolicyChange}

theorem admitCommit_policy
    (h : c.admitCommit principal request = .ok changes) : durablePolicyChange S request.canonicalRequest = .ok changes ∧
      ∃ requirements, authorizationRequirements S request.canonicalRequest request.blobInventory = .ok requirements ∧
        ∀ requirement ∈ requirements.requirements,
          ∃ lease, c.policy.authorize principal requirement.action requirement.target = .ok lease := by
  obtain ⟨_, -, _, -, _, -, requirements, asked, h⟩ := bind_ok₄ h
  obtain ⟨_, all, _, -, h⟩ := bind_ok₂ h
  refine ⟨mapError_eq_ok h, requirements, mapError_eq_ok asked, fun requirement mem => ?_⟩
  obtain ⟨_, -, lease, granted, -⟩ := bind_ok₂ (forM_ok all requirement mem)
  exact ⟨lease, mapError_eq_ok granted⟩

omit [AuthorizedTransactionState S] in
theorem charged_policy (c : AuthorizedCoordinator S H W E I) (principal : AuthenticatedPrincipal)
    (request : AuthorizedTransactionRequest) (inner : CommitCoordinator S H W E I) :
    (c.charged principal request inner).policy = c.policy := by
  unfold charged chargeInventory
  split <;> rfl

theorem Enforced.commit [Primitives] {inner : CommitCoordinator S H W E I}
    (laws : HoldsPolicy S Reaches) (holds : Enforced Reaches scope c) (admitted : c.admitCommit principal request = .ok changes)
    (advances : Advances c.inner (request.of principal.digest) inner) :
    (changes = none → Enforced Reaches scope (c.charged principal request inner)) ∧
    (changes ≠ none → ∃ policy, Renewed c.policy policy ∧
      (c.charged principal request inner).synchronizeDurablePolicy principal =
        .ok { c.charged principal request inner with policy := policy } ∧
      Enforced Reaches scope { c.charged principal request inner with policy := policy }) := by
  obtain ⟨change, requirements, asked, granted⟩ := admitCommit_policy admitted
  obtain ⟨durable, held, rfl, enforced⟩ := holds.enforced
  have innerSame := charged_inner c principal request inner
  have policySame := charged_policy c principal request inner
  generalize c.charged principal request inner = after at innerSame policySame ⊢
  cases advances with
  | answered past =>
    -- The request was committed before: its change, if it named one, is already in force.
    have kept : Enforced Reaches durable.scope after :=
      ⟨by rw [innerSame]; exact holds.reaches, durable, by rw [innerSame]; exact held, rfl,
        by rw [policySame]; exact enforced⟩
    refine ⟨fun _ => kept, fun _ => ⟨after.policy, by rw [policySame]; exact .refl _, ?_, kept⟩⟩
    rw [synchronizeDurablePolicy_eq (by rw [innerSame]; exact past.certain) (by rw [innerSame]; exact held)
      (by rw [policySame]; exact enforced), if_pos rfl]
  | @fresh journal prepared fresh =>
    have reaches := laws.reaches holds.reaches fresh.prepared
    refine ⟨fun none => ?_, fun some => ?_⟩
    · subst none
      refine ⟨by rw [innerSame]; exact reaches, durable, ?_, rfl, by rw [policySame]; exact enforced⟩
      rw [innerSame]
      exact (laws.keeps holds.reaches change fresh.prepared).trans held
    · obtain ⟨named, rfl⟩ := Option.ne_none_iff_exists'.mp some
      obtain ⟨current, held', -, newer, scope, replaced⟩ := laws.replaces holds.reaches change fresh.prepared
      cases held.symm.trans held'
      rw [← scope] at enforced
      refine ⟨after.policy.put named.next, by rw [policySame]; exact .put enforced newer, ?_, ?_⟩
      · refine synchronizeDurablePolicy_replaces (by rw [innerSame]; exact fresh.certain) (by rw [innerSame]; exact replaced)
          (by rw [policySame]; exact enforced) newer ?_
        rw [policySame]
        exact granted _ (laws.asks change asked)
      · refine ⟨by rw [innerSame]; exact reaches, named.next, by rw [innerSame]; exact replaced, scope, ?_⟩
        rw [← scope]
        exact PolicyKernel.namespacePolicy_put _ _

variable [Primitives] {call : FacadeCall F W E I} {ok : Bool}

theorem Effect.enforced (effect : Effect s call ok s') (laws : HoldsPolicy S Reaches) (holds : Enforced Reaches scope s.facade) :
    Enforced Reaches scope s'.facade ∧ Renewed s.facade.policy s'.facade.policy := by
  -- Most calls touch neither the reducer nor the kernel.
  have same {c : AuthorizedCoordinator S H W E I} (state : c.inner.state = s.facade.inner.state)
      (policy : c.policy = s.facade.policy) : Enforced Reaches scope c ∧ Renewed s.facade.policy c.policy := by
    refine ⟨⟨by rw [state]; exact holds.reaches, ?_⟩, by rw [policy]; exact .refl _⟩
    rw [state, policy]
    exact holds.enforced
  cases effect with
  | wrote found reached recharged valid projected opened =>
    obtain ⟨charge, -, -, facade⟩ := recharged
    exact same ((congrArg (·.inner.state) facade).trans rfl) ((congrArg (·.policy) facade).trans rfl)
  | unwritten found reached recharges =>
    rcases recharges with ⟨charge, -, -, facade⟩ | ⟨facade, -⟩
    · exact same ((congrArg (·.inner.state) facade).trans rfl) ((congrArg (·.policy) facade).trans rfl)
    · exact same ((congrArg (·.inner.state) facade).trans rfl) ((congrArg (·.policy) facade).trans rfl)
  | reached found reached facade =>
    exact same ((congrArg (·.inner.state) facade).trans rfl) ((congrArg (·.policy) facade).trans rfl)
  | finished found moves spent final valid staged blob facade =>
    exact same ((congrArg (·.inner.state) facade).trans rfl) ((congrArg (·.policy) facade).trans rfl)
  | aborted found moves spent ended valid facade =>
    exact same ((congrArg (·.inner.state) facade).trans rfl) ((congrArg (·.policy) facade).trans rfl)
  | stopped stopped => exact same (congrArg Memory.state stopped.memory) rfl
  | @committed principal request _ _ _ _ inner changes facade admitted advances synchronized =>
    obtain ⟨unchanged, changed⟩ := Enforced.commit laws holds admitted advances
    rcases synchronized with ⟨none, rfl⟩ | ⟨some, done⟩
    · exact ⟨unchanged none, by rw [charged_policy]; exact .refl _⟩
    · obtain ⟨policy, renewed, done', enforced⟩ := changed some
      cases done.symm.trans done'
      exact ⟨enforced, renewed⟩
  | unsynchronized admitted changing advances failed =>
    -- The kernel never fails to follow.
    obtain ⟨policy, -, done, -⟩ := (Enforced.commit laws holds admitted advances).2 changing
    cases failed.symm.trans done
  | replaced replaced =>
    obtain ⟨_, -, _, -, _, -, _, optional, -⟩ := bind_ok₄ replaced
    cases laws.required.symm.trans (require_ok.mp optional).1
  | _ => exact same rfl rfl

end Steps

section Runs

variable [AuthorizedReadState S] [Primitives] [FileSystem F H] [EntropySource E] [EntropySource I]
  {Reaches : S → Prop} {s s₁ s₂ : FacadeSession S H W E I}

/-- A session issues a lease: with a view, or with the handle of an upload that was started or resumed. -/
inductive Issues (F : Type) [FileSystem F H] (s : FacadeSession S H W E I) : AuthorizationLease → Prop where
  | view {principal : AuthenticatedPrincipal} {view : AuthorizedReadView S} (viewed : s.facade.readView principal = .ok view) :
      Issues F s view.lease
  | handle {call : FacadeCall F W E I} {handle : AuthorizedBlobUpload} {after : FacadeSession S H W E I}
      (ran : run call s = (.ok (), after)) (issued : after.handles = handle :: s.handles) : Issues F s handle.lease

/-- No view with this lease is read, and no call on a handle with it does anything. -/
structure Refuses (F : Type) [FileSystem F H] (s : FacadeSession S H W E I) (lease : AuthorizationLease) : Prop where
  reads : ∀ (view : AuthorizedReadView S) principal request, view.lease = lease →
    ∃ error, s.facade.read principal view request = .error (.authorization error)
  calls : ∀ i handle principal io, s.handles[i]? = some handle → handle.lease = lease →
    ∀ call : FacadeCall F W E I,
      (∃ input, call = .write i principal io input) ∨ call = .finish i principal io ∨ call = .abort i principal io →
      ∃ error, run call s = (.error error, s)

section

omit [AuthorizedReadState S] [Primitives] [EntropySource E] [EntropySource I]

theorem wp_refused {σ ε α : Type} {x : Program σ ε α} {s : σ} (h : wp x (fun _ _ => False) (fun _ s' => s' = s) s) :
    ∃ error, x.run s = (.error error, s) := by
  rcases ran : x.run s with ⟨error | value, s'⟩
  · exact ⟨error, by rw [wp_error h ran]⟩
  · exact (wp_ok h ran).elim

theorem onHandle_refused {α : Type} {i : Nat} {handle : AuthorizedBlobUpload}
    {x : Program (HandleState S H W E I) AuthorizedError α} (found : s.handles[i]? = some handle)
    (refused : wp x (fun _ _ => False) (fun _ t => t = (handle, s.facade, s.store)) (handle, s.facade, s.store)) :
    wp (onHandle i x) (fun _ _ => False) (fun _ s' => s' = s) s := by
  refine wp_bind.mpr (wp_read.mpr (wp_known (orError_ok.mpr found) (wp_bind.mpr (wp_zoom.mpr ?_))))
  refine wp_mono refused (fun _ _ => False.elim) fun _ t same => ?_
  obtain ⟨bound, rfl⟩ := List.getElem?_eq_some_iff.mp found
  rw [same, List.set_getElem_self bound]

end

variable {lease : AuthorizationLease}

section

omit [AuthorizedReadState S] [Primitives] [FileSystem F H] [EntropySource E] [EntropySource I]

variable {principal : AuthenticatedPrincipal} {action : Action}

theorem revalidate_replaced
    (granted : s₁.facade.authorize principal action = .ok lease) (renewed : Renewed s₁.facade.policy s₂.facade.policy)
    (replaced : s₂.facade.policy.namespacePolicy s₁.facade.scope ≠ s₁.facade.policy.namespacePolicy s₁.facade.scope) :
    s₂.facade.policy.revalidate lease ≠ .ok () := by
  obtain ⟨-, policy, _, found, -, -, rfl⟩ := PolicyKernel.authorize_ok (mapError_eq_ok granted)
  intro valid
  obtain ⟨policy', found', version'⟩ := PolicyKernel.revalidate_ok valid
  rcases renewed.newer _ _ found with kept | ⟨policy'', found'', newer⟩
  · exact replaced (kept.trans found.symm)
  · cases found'.symm.trans found''
    rw [version'] at newer
    exact lt_irrefl _ newer

theorem validateUpload_revalidates {c : AuthorizedCoordinator S H W E I}
    {handle : AuthorizedBlobUpload} (h : c.validateUpload principal handle action = .ok ()) :
    c.policy.revalidate handle.lease = .ok () := by
  obtain ⟨_, -, _, -, _, valid, -⟩ := bind_ok₃ h
  exact mapError_eq_ok valid

end

theorem refuses_of_revalidate (stale : s.facade.policy.revalidate lease ≠ .ok ()) : Refuses F s lease := by
  refine ⟨fun view principal request named => ?_, fun i handle principal io found named call which => wp_refused ?_⟩
  · have refused : s.facade.validateView view ≠ .ok () := by
      intro valid
      obtain ⟨_, -, _, -, valid⟩ := bind_ok₂ valid
      exact stale (named ▸ mapError_eq_ok valid)
    rcases checked : s.facade.validateView view with error | _
    · exact ⟨error, by unfold AuthorizedCoordinator.read; rw [checked]; rfl⟩
    · exact (refused checked).elim
  · -- Each of the calls asks for the lease before anything else.
    have refused (action : Action) : s.facade.validateUpload principal handle action ≠ .ok () :=
      fun valid => stale (named ▸ validateUpload_revalidates valid)
    rcases which with ⟨input, rfl⟩ | rfl | rfl
    · refine onHandle_refused found (wp_bind.mpr (wp_read.mpr (wp_bind.mpr (wp_lift.mpr ⟨fun _ valid => ?_, fun _ _ => rfl⟩))))
      exact (refused _ valid).elim
    · refine onHandle_refused found (wp_bind.mpr (wp_read.mpr (wp_bind.mpr (wp_lift.mpr ⟨fun _ valid => ?_, fun _ _ => rfl⟩))))
      exact (refused _ valid).elim
    · refine onHandle_refused found (wp_bind.mpr (wp_read.mpr (wp_bind.mpr (wp_lift.mpr ⟨fun _ valid => ?_, fun _ _ => rfl⟩))))
      exact (refused _ valid).elim

theorem Issues.granted (remembers : Remembers s) (issues : Issues F s lease) :
    ∃ principal action, s.facade.authorize principal action = .ok lease := by
  cases issues with
  | @view principal view viewed =>
    obtain ⟨lease, granted, inner, -, viewed⟩ := bind_ok₂ viewed
    cases viewed
    exact ⟨principal, .readRecord, granted⟩
  | @handle call handle after ran issued =>
    have one := congrArg List.length issued
    -- No other call makes the list of handles longer.
    cases wp_ok (run_effect remembers call) ran with
    | started issued' =>
      cases issued
      exact ⟨_, _, issued'.lease⟩
    | resumed issued' =>
      cases issued
      exact ⟨_, _, issued'.lease⟩
    | @dropped i _ found =>
      have longer : (s.handles.eraseIdx i).length = s.handles.length + 1 := one
      have shorter := List.length_eraseIdx_le s.handles i
      omega
    | _ => simp at one

end Runs

end FacadeSession

/-! ### A small reducer with a policy -/

section Sample

attribute [local instance] plainPrimitives

/-- A reducer that holds nothing but its policy; a request of two bytes names the version it expects and the next one. -/
structure Ruled where
  policy : NamespacePolicy

def sampleVersion (n : UInt8) : PolicyVersion := ⟨n.toNat + 1, by omega, by have := n.toNat_lt; omega⟩

theorem sampleRule_scope (version : PolicyVersion) : (sampleRule version).scope = sampleInstallation.scope := by
  unfold sampleRule NamespacePolicy.grant
  dsimp only
  split_ifs <;> rfl

theorem sampleRule_version (version : PolicyVersion) : (sampleRule version).version = version := by
  unfold sampleRule NamespacePolicy.grant
  dsimp only
  split_ifs <;> rfl

instance : AuthorizedReadState Ruled where
  Prepared := NamespacePolicy
  Snapshot := NamespacePolicy
  prepare state request _ _ :=
    match request with
    | [n, m] => if state.policy.version = sampleVersion n ∧ n < m then .ok (sampleRule (sampleVersion m)) else .error .conflict
    | _ => .ok state.policy
  resultDigest _ := Octets.zero 32
  publish _ prepared := ⟨prepared⟩
  snapshot state := state.policy
  requiresDurablePolicy := true
  authorizationRequirements _ _ := .ok ⟨[⟨.managePolicy, .namespace sampleInstallation.scope⟩], by decide⟩
  durableNamespacePolicy snapshot := some snapshot
  durablePolicyChange request :=
    match request with
    | [n, m] => .ok (some ⟨sampleVersion n, sampleRule (sampleVersion m)⟩)
    | _ => .ok none
  ReadRequest := Unit
  ReadOutput := Unit
  ReadError := Empty
  readAuthorizationRequirements _ := .ok sampleRequirements
  readAuthorized _ _ _ := .ok ()

theorem ruled_holdsPolicy : HoldsPolicy Ruled fun state => state.policy.scope = sampleInstallation.scope where
  required := rfl
  reaches := by
    intro state request inventory revision prepared reaches h
    change (match request with | [n, m] => _ | _ => _) = _ at h
    split at h
    · split_ifs at h
      cases h
      exact sampleRule_scope _
    · cases h
      exact reaches
  keeps := by
    intro state request inventory revision prepared reaches change h
    replace change : (match request with | [n, m] => _ | _ => _) = _ := change
    replace h : (match request with | [n, m] => _ | _ => _) = _ := h
    split at change
    · cases change
    · rename_i other
      split at h
      · exact (other _ _ rfl).elim
      · cases h
        rfl
  replaces := by
    intro state request inventory revision prepared change reaches named h
    replace named : (match request with | [n, m] => _ | _ => _) = _ := named
    replace h : (match request with | [n, m] => _ | _ => _) = _ := h
    split at named
    · dsimp only at h
      split_ifs at h with expected
      cases named
      cases h
      refine ⟨state.policy, rfl, expected.1, ?_, (sampleRule_scope _).trans reaches.symm, rfl⟩
      rw [expected.1, sampleRule_version]
      exact Nat.succ_lt_succ expected.2
    · cases named
  asks := by
    intro request inventory change requirements named asked
    replace named : (match request with | [n, m] => _ | _ => _) = _ := named
    cases asked
    split at named
    · cases named
      exact List.mem_singleton_self _
    · cases named

def sampleRuled : Option (FacadeSession Ruled memoryHandles Unit Nat Nat × MemoryFileSystem) :=
  match (CommitCoordinator.create sampleInstallation.scope sampleRetention sampleInstallation.finalName Storage.sampleVault 7
    (Ruled.mk (sampleRule (sampleVersion 0)))).run (MemoryFileSystem.new 100000) with
  | (.ok c, files) =>
    (AuthorizedCoordinator.new c (sampleKernel (sampleVersion 0)) 0).toOption.map fun facade => (⟨facade, ∅, []⟩, files)
  | (.error _, _) => none

def sampleReplacement (files : MemoryFileSystem) : FacadeCall MemoryFileSystem Unit Nat Nat :=
  .commit samplePrincipal ⟨⟨Octets.zero 16⟩, ⟨sampleOnes⟩, [0, 1], none⟩ (some sampleNow) false false files

theorem sampleRuled_opened {s : FacadeSession Ruled memoryHandles Unit Nat Nat} {files : MemoryFileSystem}
    (h : sampleRuled = some (s, files)) : s.Opened := by
  unfold sampleRuled at h
  split at h
  case h_1 c _ _ =>
    obtain ⟨facade, made, same⟩ := Option.map_eq_some_iff.mp h
    cases same
    rcases new : AuthorizedCoordinator.new c (sampleKernel (sampleVersion 0)) 0 with _ | facade'
    · rw [new] at made
      cases made
    · rw [new] at made
      cases made
      exact ⟨⟨c, _, _, new⟩, rfl⟩
  case h_2 => cases h

end Sample

end Uste.Txn
