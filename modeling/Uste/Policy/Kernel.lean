import Uste.Types.Identity
import Uste.Foundation.Program

/-!
The policy kernel: default-deny authorization of one principal at a time against the current
policy of a namespace. A lease names the policy version it was issued under and dies with it.
-/

namespace Uste.Policy

open Types Std

def maxPrincipalsPerNamespace : Nat := 65536
def maxRecordRulesPerGrant : Nat := 100000
def maxAuthorizationRequirementsPerRequest : Nat := 100000
def hardMaxRequestBytes : Nat := 16 * 1024 * 1024
def hardMaxStagedBlobBytes : Nat := 1024 * 1024 * 1024 * 1024
def hardMaxCommittedBlobBytes : Nat := 1024 * 1024 * 1024 * 1024
def hardMaxLiveUploads : Nat := 32
def hardMaxBlobReadBytes : Nat := 1024 * 1024

inductive PolicyError where
  | unauthorized
  | resourceLimit
  | invalidPolicy
  | stalePolicy
  deriving DecidableEq, Repr

structure PrincipalDigest where
  bytes : Octets 32
  deriving DecidableEq

namespace PrincipalDigest

theorem ext {a b : PrincipalDigest} (h : a.bytes = b.bytes) : a = b := by
  cases a
  cases b
  cases h
  rfl

instance : Ord PrincipalDigest := ⟨compareOn bytes⟩

instance : TransOrd PrincipalDigest := inferInstanceAs (TransCmp (compareOn bytes))

instance : LawfulEqOrd PrincipalDigest := lawfulEqCmp_compareOn fun _ _ => ext

end PrincipalDigest

structure PolicyVersion where
  value : Nat
  nonzero : 0 < value
  fits : value < 2 ^ 64

instance : DecidableEq PolicyVersion := fun a b => decidable_of_iff (a.value = b.value) (by cases a; cases b; simp)

def PolicyVersion.new (value : Nat) : Except PolicyError PolicyVersion :=
  if nonzero : 0 < value then
    if fits : value < 2 ^ 64 then .ok ⟨value, nonzero, fits⟩ else .error .invalidPolicy
  else .error .invalidPolicy

inductive Action where
  | readRecord
  | readHistory
  | expandGraph
  | search
  | aggregate
  | readBlob
  | export
  | commit
  | startUpload
  | resumeUpload
  | writeUpload
  | finishUpload
  | abortUpload
  | readOwnOutcome
  | readAllOutcomes
  | inspectQuota
  | evaluateBranch
  | subscribe
  | managePolicy
  | manageSchema
  | import
  | promote
  | manageRetention
  | manageKeys
  | executeProcedure
  deriving DecidableEq, Repr

def actionCount : Nat := 25

/-- One bit an action, and no other bits. -/
structure PermissionSet where
  bits : Nat
  valid : bits < 2 ^ actionCount
  deriving DecidableEq

namespace PermissionSet

def fromBits (bits : Nat) : Except PolicyError PermissionSet :=
  if valid : bits < 2 ^ actionCount then .ok ⟨bits, valid⟩ else .error .invalidPolicy

def contains (permissions : PermissionSet) (action : Action) : Bool := permissions.bits.testBit action.ctorIdx

end PermissionSet

structure QuotaLimits where
  maxRequestBytes : Nat
  maxStagedBlobBytes : Nat
  maxCommittedBlobBytes : Nat
  maxLiveUploads : Nat
  maxBlobReadBytesPerCall : Nat
  withinHardCaps : maxRequestBytes ≤ hardMaxRequestBytes ∧ maxStagedBlobBytes ≤ hardMaxStagedBlobBytes ∧
    maxCommittedBlobBytes ≤ hardMaxCommittedBlobBytes ∧ maxLiveUploads ≤ hardMaxLiveUploads ∧
    maxBlobReadBytesPerCall ≤ hardMaxBlobReadBytes
  deriving DecidableEq

namespace QuotaLimits

def new (maxRequestBytes maxStagedBlobBytes maxCommittedBlobBytes maxLiveUploads maxBlobReadBytesPerCall : Nat) :
    Except PolicyError QuotaLimits :=
  if within : maxRequestBytes ≤ hardMaxRequestBytes ∧ maxStagedBlobBytes ≤ hardMaxStagedBlobBytes ∧
      maxCommittedBlobBytes ≤ hardMaxCommittedBlobBytes ∧ maxLiveUploads ≤ hardMaxLiveUploads ∧
      maxBlobReadBytesPerCall ≤ hardMaxBlobReadBytes then
    .ok ⟨maxRequestBytes, maxStagedBlobBytes, maxCommittedBlobBytes, maxLiveUploads, maxBlobReadBytesPerCall, within⟩
  else .error .invalidPolicy

def min (a b : QuotaLimits) : QuotaLimits where
  maxRequestBytes := Nat.min a.maxRequestBytes b.maxRequestBytes
  maxStagedBlobBytes := Nat.min a.maxStagedBlobBytes b.maxStagedBlobBytes
  maxCommittedBlobBytes := Nat.min a.maxCommittedBlobBytes b.maxCommittedBlobBytes
  maxLiveUploads := Nat.min a.maxLiveUploads b.maxLiveUploads
  maxBlobReadBytesPerCall := Nat.min a.maxBlobReadBytesPerCall b.maxBlobReadBytesPerCall
  withinHardCaps := by
    obtain ⟨request, staged, committed, live, read⟩ := a.withinHardCaps
    exact ⟨(Nat.min_le_left _ _).trans request, (Nat.min_le_left _ _).trans staged,
      (Nat.min_le_left _ _).trans committed, (Nat.min_le_left _ _).trans live, (Nat.min_le_left _ _).trans read⟩

end QuotaLimits

/-- What a principal may do in a namespace, and the records it may not do it to. -/
structure NamespaceGrant where
  permissions : PermissionSet
  quotas : QuotaLimits
  recordRules : ExtTreeMap RecordId PermissionSet
  bounded : recordRules.size ≤ maxRecordRulesPerGrant
  deriving DecidableEq

namespace NamespaceGrant

def new (permissions : PermissionSet) (quotas : QuotaLimits) : NamespaceGrant :=
  ⟨permissions, quotas, ∅, by simp⟩

def denyRecord (grant : NamespaceGrant) (record : RecordId) (deny : PermissionSet) : Except PolicyError NamespaceGrant :=
  if bounded : (grant.recordRules.insert record deny).size ≤ maxRecordRulesPerGrant then
    .ok { grant with recordRules := grant.recordRules.insert record deny, bounded := bounded }
  else .error .resourceLimit

end NamespaceGrant

structure NamespacePolicy where
  scope : NamespaceRef
  version : PolicyVersion
  quotas : QuotaLimits
  grants : ExtTreeMap PrincipalDigest NamespaceGrant
  bounded : grants.size ≤ maxPrincipalsPerNamespace
  within : ∀ (principal : PrincipalDigest) (grant : NamespaceGrant), grants[principal]? = some grant →
    grant.quotas.min quotas = grant.quotas

namespace NamespacePolicy

theorem ext {a b : NamespacePolicy} (scope : a.scope = b.scope) (version : a.version = b.version)
    (quotas : a.quotas = b.quotas) (grants : a.grants = b.grants) : a = b := by
  cases a
  cases b
  cases scope
  cases version
  cases quotas
  cases grants
  rfl

instance : DecidableEq NamespacePolicy := fun a b =>
  decidable_of_iff (a.scope = b.scope ∧ a.version = b.version ∧ a.quotas = b.quotas ∧ a.grants = b.grants)
    ⟨fun h => ext h.1 h.2.1 h.2.2.1 h.2.2.2, fun h => h ▸ ⟨rfl, rfl, rfl, rfl⟩⟩

def new (scope : NamespaceRef) (version : PolicyVersion) (quotas : QuotaLimits) : NamespacePolicy :=
  ⟨scope, version, quotas, ∅, by simp, by simp⟩

def grant (policy : NamespacePolicy) (principal : PrincipalDigest) (grant : NamespaceGrant) :
    Except PolicyError NamespacePolicy :=
  if bounded : (policy.grants.insert principal grant).size ≤ maxPrincipalsPerNamespace then
    if within : grant.quotas.min policy.quotas = grant.quotas then
      .ok { policy with
        grants := policy.grants.insert principal grant
        bounded := bounded
        within := by
          intro other given found
          rw [ExtTreeMap.getElem?_insert] at found
          split at found
          · cases found
            exact within
          · exact policy.within other given found }
    else .error .invalidPolicy
  else .error .resourceLimit

end NamespacePolicy

inductive Target where
  | namespace (scope : NamespaceRef)
  | record (reference : RecordRef)
  deriving DecidableEq

def Target.scope : Target → NamespaceRef
  | .namespace scope => scope
  | .record reference => reference.scope

structure AuthorizationRequirement where
  action : Action
  target : Target
  deriving DecidableEq

structure AuthorizationRequirements where
  requirements : List AuthorizationRequirement
  bounded : requirements.length ≤ maxAuthorizationRequirementsPerRequest

def AuthorizationRequirements.new (requirements : List AuthorizationRequirement) :
    Except PolicyError AuthorizationRequirements :=
  if bounded : requirements.length ≤ maxAuthorizationRequirementsPerRequest then .ok ⟨requirements, bounded⟩
  else .error .resourceLimit

/-- The shared allocation that ties principals and leases to the kernel that issued them. -/
abbrev Authority := Nat

structure AuthenticatedPrincipal where
  digest : PrincipalDigest
  authority : Authority
  deriving DecidableEq

structure AuthorizationLease where
  principal : PrincipalDigest
  scope : NamespaceRef
  action : Action
  version : PolicyVersion
  authority : Authority
  deriving DecidableEq

/-- Every policy stands under its own scope. -/
structure PolicyKernel where
  policies : ExtTreeMap NamespaceRef NamespacePolicy
  authority : Authority
  keyed : ∀ (scope : NamespaceRef) (policy : NamespacePolicy), policies[scope]? = some policy → policy.scope = scope

structure AuthorizationEvaluator where
  scope : NamespaceRef
  version : PolicyVersion
  grant : NamespaceGrant

def AuthorizationEvaluator.authorize (evaluator : AuthorizationEvaluator) (action : Action) (target : Target) :
    Except PolicyError Unit := do
  require (target.scope = evaluator.scope ∧ evaluator.grant.permissions.contains action = true) .unauthorized
  match target with
  | .namespace _ => pure ()
  | .record record =>
    require (∀ deny ∈ evaluator.grant.recordRules[record.id]?, deny.contains action = false) .unauthorized

namespace PolicyKernel

def new (authority : Authority) : PolicyKernel := ⟨∅, authority, by simp⟩

def put (kernel : PolicyKernel) (policy : NamespacePolicy) : PolicyKernel where
  policies := kernel.policies.insert policy.scope policy
  authority := kernel.authority
  keyed := by
    intro scope other found
    rw [ExtTreeMap.getElem?_insert] at found
    split at found
    · rename_i same
      cases found
      exact LawfulEqOrd.eq_of_compare same
    · exact kernel.keyed scope other found

def installInitialPolicy (kernel : PolicyKernel) (policy : NamespacePolicy) : Except PolicyError PolicyKernel := do
  require (policy.scope ∉ kernel.policies) .invalidPolicy
  pure (kernel.put policy)

def authorizationEvaluator (kernel : PolicyKernel) (principal : AuthenticatedPrincipal) (scope : NamespaceRef) :
    Except PolicyError AuthorizationEvaluator := do
  require (kernel.authority = principal.authority) .unauthorized
  let policy ← orError .unauthorized kernel.policies[scope]?
  let grant ← orError .unauthorized policy.grants[principal.digest]?
  pure ⟨scope, policy.version, grant⟩

def authorize (kernel : PolicyKernel) (principal : AuthenticatedPrincipal) (action : Action) (target : Target) :
    Except PolicyError AuthorizationLease := do
  let evaluator ← kernel.authorizationEvaluator principal target.scope
  evaluator.authorize action target
  pure ⟨principal.digest, evaluator.scope, action, evaluator.version, kernel.authority⟩

def revalidate (kernel : PolicyKernel) (lease : AuthorizationLease) : Except PolicyError Unit := do
  require (kernel.authority = lease.authority) .unauthorized
  let policy ← orError .unauthorized kernel.policies[lease.scope]?
  require (policy.version = lease.version) .stalePolicy
  let grant ← orError .unauthorized policy.grants[lease.principal]?
  require (grant.permissions.contains lease.action = true) .unauthorized

def quotas (kernel : PolicyKernel) (principal : AuthenticatedPrincipal) (scope : NamespaceRef) :
    Except PolicyError QuotaLimits := do
  require (kernel.authority = principal.authority) .unauthorized
  let policy ← orError .unauthorized kernel.policies[scope]?
  let grant ← orError .unauthorized policy.grants[principal.digest]?
  pure (policy.quotas.min grant.quotas)

def namespaceQuotas (kernel : PolicyKernel) (scope : NamespaceRef) : Except PolicyError QuotaLimits :=
  orError .unauthorized (kernel.policies[scope]?.map (·.quotas))

def namespacePolicy (kernel : PolicyKernel) (scope : NamespaceRef) : Option NamespacePolicy := kernel.policies[scope]?

def replaceNamespacePolicy (kernel : PolicyKernel) (authority : AuthenticatedPrincipal) (expected : PolicyVersion)
    (next : NamespacePolicy) : Except PolicyError PolicyKernel := do
  require (kernel.authority = authority.authority) .unauthorized
  let current ← orError .unauthorized kernel.policies[next.scope]?
  require (current.version = expected ∧ current.version.value < next.version.value) .stalePolicy
  let grant ← orError .unauthorized current.grants[authority.digest]?
  require (grant.permissions.contains .managePolicy = true) .unauthorized
  pure (kernel.put next)

/-! ### What the kernel answers -/

variable {kernel kernel' : PolicyKernel} {principal : AuthenticatedPrincipal} {action : Action} {target : Target}
  {scope : NamespaceRef} {policy next : NamespacePolicy}

theorem namespacePolicy_put (kernel : PolicyKernel) (policy : NamespacePolicy) :
    (kernel.put policy).namespacePolicy policy.scope = some policy := by
  simp [namespacePolicy, put]

theorem authorize_ok {lease : AuthorizationLease} (h : kernel.authorize principal action target = .ok lease) :
    kernel.authority = principal.authority ∧ ∃ policy grant, kernel.namespacePolicy target.scope = some policy ∧
      policy.grants[principal.digest]? = some grant ∧ grant.permissions.contains action = true ∧
      lease = ⟨principal.digest, target.scope, action, policy.version, kernel.authority⟩ := by
  obtain ⟨evaluator, evaluated, _, allowed, h⟩ := bind_ok₂ h
  obtain ⟨_, owner, policy, current, grant, granted, evaluated⟩ := bind_ok₃ evaluated
  cases evaluated
  cases h
  obtain ⟨_, permitted, _⟩ := bind_ok allowed
  exact ⟨require_ok.mp owner, policy, grant, orError_ok.mp current, orError_ok.mp granted,
    (require_ok.mp permitted).2, rfl⟩

theorem revalidate_ok {lease : AuthorizationLease} (h : kernel.revalidate lease = .ok ()) :
    ∃ policy, kernel.namespacePolicy lease.scope = some policy ∧ policy.version = lease.version := by
  obtain ⟨_, -, policy, current, _, version, -⟩ := bind_ok₃ h
  exact ⟨policy, orError_ok.mp current, require_ok.mp version⟩

theorem replaceNamespacePolicy_succeeds (current : kernel.policies[next.scope]? = some policy)
    (newer : policy.version.value < next.version.value)
    (allowed : ∃ lease, kernel.authorize principal .managePolicy (.namespace next.scope) = .ok lease) :
    kernel.replaceNamespacePolicy principal policy.version next = .ok (kernel.put next) := by
  obtain ⟨lease, allowed⟩ := allowed
  obtain ⟨owner, policy', grant, current', granted, permitted, -⟩ := authorize_ok allowed
  obtain rfl : policy = policy' := Option.some.inj (current.symm.trans current')
  unfold replaceNamespacePolicy
  rw [require_pos _ owner, ok_bind, orError_ok.mpr current, ok_bind, require_pos _ ⟨rfl, newer⟩, ok_bind,
    orError_ok.mpr granted, ok_bind, require_pos _ permitted, ok_bind]
  rfl

end PolicyKernel

end Uste.Policy
