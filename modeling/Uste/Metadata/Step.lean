import Uste.Metadata.Staging

/-!
Run-backed staging: the roots of the first transaction, and the roots of a base extended by the
transaction after it. Nothing is published; a staged root has no generation.
-/

namespace Uste.Metadata

open Types Crypto Policy Storage Txn Std List

structure IndexRootInput where
  anchor : IndexRootAnchor
  indexProfile : Octets 32

def ValidRuns (runs : List (UInt8 × Family)) : Prop :=
  runs.Pairwise (fun a b => a.1 < b.1) ∧ ∀ run ∈ runs, run.1 ≠ 0 ∧ run.2.size ≠ 0

instance (runs : List (UInt8 × Family)) : Decidable (ValidRuns runs) := inferInstanceAs (Decidable (_ ∧ _))

variable {runs : List (UInt8 × Family)}

theorem ValidRuns.nodup (valid : ValidRuns runs) : (runs.map Prod.fst).Nodup := by
  refine pairwise_map.mpr (valid.1.imp fun {a b} less same => ?_)
  rw [same] at less
  exact Nat.lt_irrefl _ less

theorem ValidRuns.filled (valid : ValidRuns runs) (family : UInt8) (contents : Family)
    (found : (tabulate Prod.fst Prod.snd runs)[family]? = some contents) : contents.size ≠ 0 := by
  obtain ⟨run, mem, -, rfl⟩ := (tabulate_getElem? valid.nodup _ _).mp found
  exact (valid.2 run mem).2

def stageRoot (input : IndexRootInput) (runs : List (UInt8 × Family)) : Except StorageError RecoveredIndexRoot := do
  require (runs ≠ []) .resourceLimit
  if valid : ValidRuns runs then
    pure ⟨input.anchor, 0, input.indexProfile, tabulate Prod.fst Prod.snd runs, valid.filled⟩
  else .error .integrityFailure

def mergeIndexRun (anchors : CertificateAnchors) (input : IndexRootInput) (family : UInt8)
    (base : Option RecoveredIndexRoot) (deltas : List IndexDelta) : Except StorageError MergedIndexRun :=
  match base with
  | none => mergeRun ∅ deltas
  | some root => do
    require (root.anchor.scope = input.anchor.scope ∧ root.indexProfile = input.indexProfile) .invalidState
    mergeRun (← anchors.indexRun root family) deltas

def insertedRun (anchors : CertificateAnchors) (input : IndexRootInput) (family : UInt8)
    (base : Option RecoveredIndexRoot) (deltas : List IndexDelta) (entries : Nat) : Except TransactionError Family := do
  let merged ← (mergeIndexRun anchors input family base deltas).mapError .storage
  exactMergedRun merged entries deltas.length

section

variable (recovery : AuthenticatedIndexRecovery) (t : RecoveredTransaction)

def retryDelta : IndexDelta := .insertion t.retryKey.bytes (outcomeValue t.outcome)

def transactionDelta : IndexDelta := .insertion t.outcome.transactionId.bytes.bytes (transactionValue t.principal t.outcome)

def ownerDeltas (owners : List BlobReference) : List IndexDelta :=
  owners.map fun r => .insertion r.id.bytes (ownerValue r t.principal)

def firstReferenceDeltas (owners : List BlobReference) : List IndexDelta :=
  owners.map fun r => .insertion r.id.bytes (bigEndian 8 t.revision.value)

/-- The metadata root of a base, or of nothing, extended by a transaction with these new owners. -/
def stageMetadata (base : Option RecoveredIndexRoot) (baseOwners : Nat) (anchor : IndexRootAnchor) (owners : List BlobReference) :
    Except TransactionError RecoveredIndexRoot := do
  let input : IndexRootInput := ⟨anchor, coordinatorMetadataProfile⟩
  let ownerCount := baseOwners + owners.length
  let metadata ← insertedRun recovery.anchors input familyMetadata none
    [.insertion metadataKey (metadataValue anchor.revision anchor.revision.value ownerCount)] 1
  let retry ← insertedRun recovery.anchors input familyOutcome base [retryDelta t] anchor.revision.value
  if ownerCount ≠ 0 then
    let owner ← insertedRun recovery.anchors input familyBlobOwner (if baseOwners ≠ 0 then base else none) (ownerDeltas t owners) ownerCount
    (stageRoot input [(familyMetadata, metadata), (familyOutcome, retry), (familyBlobOwner, owner)]).mapError .storage
  else (stageRoot input [(familyMetadata, metadata), (familyOutcome, retry)]).mapError .storage

def stageTransactions (base : Option RecoveredIndexRoot) (anchor : IndexRootAnchor) : Except TransactionError RecoveredIndexRoot := do
  let input : IndexRootInput := ⟨anchor, coordinatorTransactionProfile⟩
  let run ← insertedRun recovery.anchors input familyOnly base [transactionDelta t] anchor.revision.value
  (stageRoot input [(familyOnly, run)]).mapError .storage

def stageFirstReferences (base : Option RecoveredIndexRoot) (ownerCount : Nat) (anchor : IndexRootAnchor)
    (owners : List BlobReference) : Except TransactionError RecoveredIndexRoot := do
  let input : IndexRootInput := ⟨anchor, coordinatorFirstReferenceProfile⟩
  let run ← insertedRun recovery.anchors input familyOnly base (firstReferenceDeltas t owners) ownerCount
  (stageRoot input [(familyOnly, run)]).mapError .storage

end

structure GenesisState where
  scope : NamespaceRef
  revision : Option CommitRevision
  reducerProfile : Octets 32
  logicalStateDigest : Octets 32

section

variable (recovery : AuthenticatedIndexRecovery) (t : RecoveredTransaction) (state : GenesisState) (maximumBlobOwners : Nat)

def genesisAnchor : IndexRootAnchor := ⟨recovery.scope, .first, t.certificateDigest, state.reducerProfile, state.logicalStateDigest⟩

def checkGenesis : Except TransactionError Unit := do
  require (t.scope = recovery.scope ∧ t.revision = .first ∧ state.scope = recovery.scope ∧ state.revision = some .first)
    .integrityFailure
  require (t.references.length ≤ maximumBlobOwners ∧ maximumBlobOwners ≤ maxCommittedBlobsPerJournal) .resourceLimit

def stagePrimaryGenesisMetadata : Except TransactionError (RecoveredIndexRoot × RecoveredIndexRoot) := do
  checkGenesis recovery t state maximumBlobOwners
  let metadata ← stageMetadata recovery t none 0 (genesisAnchor recovery t state) t.references
  let transactions ← stageTransactions recovery t none (genesisAnchor recovery t state)
  pure (metadata, transactions)

def stageGenesisFirstReferences : Except TransactionError (Option RecoveredIndexRoot) := do
  checkGenesis recovery t state maximumBlobOwners
  if t.references = [] then pure none
  else some <$> stageFirstReferences recovery t none t.references.length (genesisAnchor recovery t state) t.references

end

def baseNewOwner (recovery : AuthenticatedIndexRecovery) (base : CoordinatorDiskBase) (maximumBlobOwners : Nat)
    (found : List BlobReference) (reference : BlobReference) : Except TransactionError (List BlobReference) := do
  require (reference.scope = recovery.scope) .integrityFailure
  let existing ← base.owner recovery.anchors reference.id
  recordNewOwner existing base.ownerCount maximumBlobOwners found reference

/-- The roots after one more transaction; what they say about usage comes after. -/
def stagePrimaryMetadataStep (recovery : AuthenticatedIndexRecovery) (base : CoordinatorDiskBase) (t : RecoveredTransaction)
    (anchor : IndexRootAnchor) (owners : List BlobReference) (preserveFirstReferences : Bool) :
    Except TransactionError (RecoveredIndexRoot × RecoveredIndexRoot × Option RecoveredIndexRoot) := do
  require ((preserveFirstReferences = false → base.firstReferences = none) ∧
    (preserveFirstReferences = true → base.ownerCount ≠ 0 → base.firstReferences ≠ none) ∧ t.scope = recovery.scope ∧
    anchor.scope = recovery.scope ∧ anchor.revision = t.revision ∧ anchor.certificateDigest = t.certificateDigest ∧
    anchor.reducerProfile = base.metadata.anchor.reducerProfile ∧
    base.metadata.anchor.revision.value + 1 = t.revision.value) .integrityFailure
  let ownerCount := base.ownerCount + owners.length
  require (ownerCount ≤ maxCommittedBlobsPerJournal) .resourceLimit
  let metadata ← stageMetadata recovery t (some base.metadata) base.ownerCount anchor owners
  let transactions ← stageTransactions recovery t (some base.transactions.root) anchor
  if preserveFirstReferences = true ∧ ownerCount ≠ 0 then
    let firstReferences ← stageFirstReferences recovery t base.firstReferences ownerCount anchor owners
    pure (metadata, transactions, some firstReferences)
  else pure (metadata, transactions, none)

/-! ### What is staged -/

def Source (anchors : CertificateAnchors) (input : IndexRootInput) (family : UInt8) (contents : Family) :
    Option RecoveredIndexRoot → Prop
  | none => contents = ∅
  | some root => root.anchor.scope = input.anchor.scope ∧ root.indexProfile = input.indexProfile ∧
    anchors.indexRun root family = .ok contents

section Runs

variable {anchors : CertificateAnchors} {input : IndexRootInput} {family : UInt8} {contents : Family}
  {base : Option RecoveredIndexRoot}

theorem Source.merge (source : Source anchors input family contents base) (deltas : List IndexDelta) :
    mergeIndexRun anchors input family base deltas = mergeRun contents deltas := by
  cases base with
  | none =>
    obtain rfl : contents = ∅ := source
    rfl
  | some root =>
    obtain ⟨scope, profile, run⟩ := source
    rw [mergeIndexRun, require_pos _ ⟨scope, profile⟩, ok_bind, run, ok_bind]

theorem insertedRun_ok {δ : Type} (key value : δ → List UInt8) (items : List δ) (source : Source anchors input family contents base)
    (inOrder : InOrder key items) (new : ∀ item ∈ items, key item ∉ contents) {entries : Nat}
    (size : (extend key value contents items).size = entries) (some : entries ≠ 0) :
    insertedRun anchors input family base (items.map fun item => .insertion (key item) (value item)) entries =
      .ok (extend key value contents items) := by
  rw [insertedRun, source.merge, mergeRun_insertions.mpr ⟨inOrder, new, rfl⟩, mapError_ok, ok_bind, length_map]
  exact exactMergedRun_ok.mpr ⟨rfl, size, rfl, some⟩

theorem validRuns_sole {contents : Family} (some : contents.size ≠ 0) : ValidRuns [(familyOnly, contents)] := by
  refine ⟨pairwise_singleton _ _, fun run mem => ?_⟩
  obtain rfl := mem_singleton.mp mem
  exact ⟨(by decide : familyOnly ≠ 0), some⟩

structure Staged (input : IndexRootInput) (runs : ExtTreeMap UInt8 Family) (root : RecoveredIndexRoot) : Prop where
  anchored : root.anchor = input.anchor
  profile : root.indexProfile = input.indexProfile
  runs : root.runs = runs

theorem stageRoot_ok (input : IndexRootInput) {runs : List (UInt8 × Family)} (some : runs ≠ []) (valid : ValidRuns runs) :
    ∃ root, stageRoot input runs = .ok root ∧ Staged input (tabulate Prod.fst Prod.snd runs) root := by
  refine ⟨⟨input.anchor, 0, input.indexProfile, tabulate Prod.fst Prod.snd runs, valid.filled⟩, ?_, rfl, rfl, rfl⟩
  rw [stageRoot, require_pos _ some, ok_bind, dif_pos valid]
  rfl

theorem stageSole_ok {δ : Type} {key value : δ → List UInt8} {items : List δ} {grown : Family}
    (source : Source anchors input familyOnly contents base) (inOrder : InOrder key items)
    (new : ∀ item ∈ items, key item ∉ contents) (extends_ : extend key value contents items = grown) {entries : Nat}
    (size : grown.size = entries) (some : entries ≠ 0) : ∃ root, (do
      let run ← insertedRun anchors input familyOnly base (items.map fun item => .insertion (key item) (value item)) entries
      (stageRoot input [(familyOnly, run)]).mapError .storage : Except TransactionError _) = .ok root ∧
      Staged input ((∅ : ExtTreeMap UInt8 Family).insert familyOnly grown) root := by
  subst extends_
  obtain ⟨root, staged, rest⟩ := stageRoot_ok input (cons_ne_nil _ _) (validRuns_sole (size ▸ some))
  refine ⟨root, ?_, rest⟩
  rw [insertedRun_ok key value items source inOrder new size some, ok_bind, staged, mapError_ok]

end Runs

section Staged

variable {recovery : AuthenticatedIndexRecovery} {scope : NamespaceRef} {us : List RecoveredTransaction} {t : RecoveredTransaction}
  {anchor : IndexRootAnchor} {base ownerBase : Option RecoveredIndexRoot}

theorem stageTransactions_root (h : Coherent scope (us ++ [t])) (at_ : anchor.revision = t.revision)
    (source : Source recovery.anchors ⟨anchor, coordinatorTransactionProfile⟩ familyOnly (transactionFamily us) base) :
    ∃ root, stageTransactions recovery t base anchor = .ok root ∧ Staged ⟨anchor, coordinatorTransactionProfile⟩
      ((∅ : ExtTreeMap UInt8 Family).insert familyOnly (transactionFamily (us ++ [t]))) root := by
  have next := h.next_revision
  have size : (transactionFamily (us ++ [t])).size = anchor.revision.value := by
    rw [transactionFamily, tabulate_size h.transactionKeys, at_, next, length_append, length_singleton]
  have some : anchor.revision.value ≠ 0 := by rw [at_, next]; omega
  exact stageSole_ok source (pairwise_singleton _ _) (by simpa using h.transaction_new) transactionFamily_snoc size some

theorem stageFirstReferences_root {ownerCount : Nat}
    (count : ownerCount = (firstReferences (us ++ [t])).length) (some : ownerCount ≠ 0)
    (source : Source recovery.anchors ⟨anchor, coordinatorFirstReferenceProfile⟩ familyOnly (firstReferenceFamily us) base) :
    ∃ root, stageFirstReferences recovery t base ownerCount anchor (newOwners us t) = .ok root ∧
      Staged ⟨anchor, coordinatorFirstReferenceProfile⟩
        ((∅ : ExtTreeMap UInt8 Family).insert familyOnly (firstReferenceFamily (us ++ [t]))) root := by
  have size : (firstReferenceFamily (us ++ [t])).size = ownerCount := by
    rw [firstReferenceFamily, tabulate_size (firstReferenceKeys_nodup _), count]
  exact stageSole_ok source newOwners_inOrder (fun r mem => firstReference_new mem) firstReferenceFamily_snoc size some

theorem stageMetadata_root (h : Coherent scope (us ++ [t])) (at_ : anchor.revision = t.revision)
    (source : Source recovery.anchors ⟨anchor, coordinatorMetadataProfile⟩ familyOutcome (outcomeFamily us) base)
    (ownerSource : Source recovery.anchors ⟨anchor, coordinatorMetadataProfile⟩ familyBlobOwner (ownerFamily us)
      (if (firstReferences us).length ≠ 0 then base else none)) :
    ∃ root, stageMetadata recovery t base (firstReferences us).length anchor (newOwners us t) = .ok root ∧
      Staged ⟨anchor, coordinatorMetadataProfile⟩ (metadataRuns anchor.revision (us ++ [t])) root := by
  have next := h.next_revision
  have length : (us ++ [t]).length = anchor.revision.value := by
    rw [at_, next, length_append, length_singleton]
  have some : anchor.revision.value ≠ 0 := by rw [at_, next]; omega
  have count : (firstReferences us).length + (newOwners us t).length = (firstReferences (us ++ [t])).length :=
    length_firstReferences_snoc.symm
  have headSize : (metadataFamily anchor.revision (us ++ [t])).size = 1 := by
    rw [← ExtTreeMap.length_toList, metadataFamily, toList_eq_singleton.mpr rfl, length_singleton]
  have metadata : insertedRun recovery.anchors ⟨anchor, coordinatorMetadataProfile⟩ familyMetadata none
      [.insertion metadataKey (metadataValue anchor.revision anchor.revision.value (firstReferences (us ++ [t])).length)] 1 =
        .ok (metadataFamily anchor.revision (us ++ [t])) := by
    have empty : Source recovery.anchors ⟨anchor, coordinatorMetadataProfile⟩ familyMetadata ∅ none := rfl
    rw [metadataFamily, length] at headSize ⊢
    exact insertedRun_ok (fun _ : Unit => metadataKey)
      (fun _ => metadataValue anchor.revision anchor.revision.value (firstReferences (us ++ [t])).length) [()] empty
      (pairwise_singleton _ _) (by simp) headSize (by decide)
  have retrySize : (outcomeFamily (us ++ [t])).size = anchor.revision.value := (tabulate_size h.outcomeKeys).trans length
  have retry : insertedRun recovery.anchors ⟨anchor, coordinatorMetadataProfile⟩ familyOutcome base [retryDelta t]
      anchor.revision.value = .ok (outcomeFamily (us ++ [t])) := by
    rw [← outcomeFamily_snoc] at retrySize ⊢
    exact insertedRun_ok (fun t : RecoveredTransaction => t.retryKey.bytes) (fun t => outcomeValue t.outcome) [t] source
      (pairwise_singleton _ _) (by simpa using h.retry_new) retrySize some
  have ownerSize : (ownerFamily (us ++ [t])).size = (firstReferences (us ++ [t])).length :=
    tabulate_size (firstReferenceKeys_nodup _)
  unfold stageMetadata
  simp only [count, metadata, retry, ok_bind]
  by_cases empty : firstReferences (us ++ [t]) = []
  · have valid : ValidRuns [(familyMetadata, metadataFamily anchor.revision (us ++ [t])),
        (familyOutcome, outcomeFamily (us ++ [t]))] := by
      refine ⟨by simp [familyMetadata, familyOutcome], ?_⟩
      simp only [forall_mem_cons, headSize, retrySize]
      exact ⟨⟨by decide, by decide⟩, ⟨by decide, some⟩, by simp⟩
    obtain ⟨root, staged, made⟩ := stageRoot_ok ⟨anchor, coordinatorMetadataProfile⟩ (cons_ne_nil _ _) valid
    refine ⟨root, ?_, made.anchored, made.profile, made.runs.trans ?_⟩
    · rw [if_neg (by simp [empty]), staged, mapError_ok]
    · rw [metadataRuns, if_pos empty]
      rfl
  · have owners : (firstReferences (us ++ [t])).length ≠ 0 := mt length_eq_zero_iff.mp empty
    have owner : insertedRun recovery.anchors ⟨anchor, coordinatorMetadataProfile⟩ familyBlobOwner
        (if (firstReferences us).length ≠ 0 then base else none) (ownerDeltas t (newOwners us t))
        (firstReferences (us ++ [t])).length = .ok (ownerFamily (us ++ [t])) := by
      rw [← ownerFamily_snoc] at ownerSize ⊢
      exact insertedRun_ok (fun r : BlobReference => r.id.bytes) (fun r => ownerValue r t.principal) _ ownerSource
        newOwners_inOrder (fun r mem => owner_new mem) ownerSize owners
    have valid : ValidRuns [(familyMetadata, metadataFamily anchor.revision (us ++ [t])),
        (familyOutcome, outcomeFamily (us ++ [t])), (familyBlobOwner, ownerFamily (us ++ [t]))] := by
      refine ⟨by simp [familyMetadata, familyOutcome, familyBlobOwner], ?_⟩
      simp only [forall_mem_cons, headSize, retrySize, ownerSize]
      exact ⟨⟨by decide, by decide⟩, ⟨by decide, some⟩, ⟨by decide, owners⟩, by simp⟩
    obtain ⟨root, staged, made⟩ := stageRoot_ok ⟨anchor, coordinatorMetadataProfile⟩ (cons_ne_nil _ _) valid
    refine ⟨root, ?_, made.anchored, made.profile, made.runs.trans ?_⟩
    · rw [if_pos owners, owner, ok_bind, staged, mapError_ok]
    · rw [metadataRuns, if_neg empty]
      rfl

end Staged

/-! ### Staged roots are the roots of the longer prefix -/

section Extended

variable {scope : NamespaceRef} {ts : List RecoveredTransaction} {t : RecoveredTransaction}

theorem Coherent.upTo_next (h : Coherent scope ts) (mem : t ∈ ts) {revision : CommitRevision}
    (next : revision.value + 1 = t.revision.value) : upTo t.revision ts = upTo revision ts ++ [t] := by
  obtain ⟨index, below, same⟩ := getElem_of_mem mem
  have at_ : t.revision.value = index + 1 := by
    have revisions := congrArg (fun l : List Nat => l[index]?) h.revisions
    simp only [List.getElem?_map, List.getElem?_eq_getElem below, same, Option.map_some] at revisions
    rw [List.getElem?_range' (by simpa using below)] at revisions
    have equal := Option.some.inj revisions
    omega
  have start : revision.value = index := by omega
  rw [h.upTo_eq_take, h.upTo_eq_take, at_, start, take_add_one, List.getElem?_eq_getElem below, same]
  rfl

theorem Coherent.upTo_first (h : Coherent scope ts) (mem : t ∈ ts) (first : t.revision = .first) :
    upTo t.revision ts = [] ++ [t] := by
  cases ts with
  | nil => cases mem
  | cons head rest =>
    have revisions := h.revisions
    have same : head = t := by
      refine h.revision_unique mem_cons_self mem ?_
      rw [first]
      exact CommitRevision.ext (List.cons.inj revisions).1
    rw [h.upTo_eq_take, first, same]
    rfl

theorem newOwners_nil : newOwners [] t = t.references := by
  unfold newOwners
  rw [filter_eq_self]
  intro r _
  exact decide_eq_true fun f there => absurd there not_mem_nil

structure Anchors (recovery : AuthenticatedIndexRecovery) (t : RecoveredTransaction) (anchor : IndexRootAnchor) : Prop where
  inScope : anchor.scope = recovery.scope
  revision : anchor.revision = t.revision
  certificate : anchor.certificateDigest = t.certificateDigest

variable [Primitives] {recovery : AuthenticatedIndexRecovery} {us : List RecoveredTransaction} {anchor : IndexRootAnchor}

theorem roots_of_families (reads : Reads recovery ts) (mem : t ∈ ts) (anchors : Anchors recovery t anchor)
    (whole : upTo t.revision ts = us ++ [t]) {metadata transactions : RecoveredIndexRoot}
    (stagedMetadata : Staged ⟨anchor, coordinatorMetadataProfile⟩ (metadataRuns anchor.revision (us ++ [t])) metadata)
    (stagedTransactions : Staged ⟨anchor, coordinatorTransactionProfile⟩
      ((∅ : ExtTreeMap UInt8 Family).insert familyOnly (transactionFamily (us ++ [t]))) transactions) :
    MetadataRoot recovery ts metadata ∧ TransactionRoot recovery ts transactions := by
  have certified : recovery.certificateAnchor anchor.revision = some anchor.certificateDigest := by
    rw [anchors.revision, anchors.certificate]
    exact reads.certificate_of_mem mem
  have prefixes : us ++ [t] = upTo anchor.revision ts := by rw [anchors.revision, whole]
  refine ⟨⟨?_, stagedMetadata.profile, ?_, ?_⟩, ?_, stagedTransactions.profile, ?_, ?_⟩
  · rw [stagedMetadata.anchored, anchors.inScope]
  · rw [stagedMetadata.anchored, certified]
  · rw [stagedMetadata.anchored, stagedMetadata.runs, prefixes]
  · rw [stagedTransactions.anchored, anchors.inScope]
  · rw [stagedTransactions.anchored, certified]
  · rw [stagedTransactions.anchored, stagedTransactions.runs, prefixes]

variable {state : GenesisState} {maximum : Nat}

omit [Primitives] in
theorem genesisAnchors (checked : checkGenesis recovery t state maximum = .ok ()) :
    t.revision = .first ∧ Anchors recovery t (genesisAnchor recovery t state) := by
  obtain ⟨_, named, -⟩ := bind_ok checked
  obtain ⟨-, first, -⟩ := require_ok.mp named
  exact ⟨first, rfl, first.symm, rfl⟩

section

variable (reads : Reads recovery ts) (mem : t ∈ ts) (checked : checkGenesis recovery t state maximum = .ok ())

include reads mem checked

theorem stagePrimaryGenesis_roots : ∃ metadata transactions,
      stagePrimaryGenesisMetadata recovery t state maximum = .ok (metadata, transactions) ∧
      metadata.anchor = genesisAnchor recovery t state ∧ transactions.anchor = genesisAnchor recovery t state ∧
      MetadataRoot recovery ts metadata ∧ TransactionRoot recovery ts transactions := by
  obtain ⟨initial, anchors⟩ := genesisAnchors checked
  have whole := reads.coherent.upTo_first mem initial
  have coherent : Coherent recovery.scope ([] ++ [t]) := whole ▸ reads.coherent.restrict t.revision
  have source : Source recovery.anchors ⟨genesisAnchor recovery t state, coordinatorMetadataProfile⟩ familyOutcome
      (outcomeFamily []) none := rfl
  have ownerSource : Source recovery.anchors ⟨genesisAnchor recovery t state, coordinatorMetadataProfile⟩ familyBlobOwner
      (ownerFamily []) (if (firstReferences []).length ≠ 0 then none else none) := rfl
  have transactionSource : Source recovery.anchors ⟨genesisAnchor recovery t state, coordinatorTransactionProfile⟩ familyOnly
      (transactionFamily []) none := rfl
  obtain ⟨metadata, stagedMetadata, first⟩ := stageMetadata_root coherent anchors.revision source ownerSource
  obtain ⟨transactions, stagedTransactions, second⟩ := stageTransactions_root coherent anchors.revision transactionSource
  refine ⟨metadata, transactions, ?_, first.anchored, second.anchored, roots_of_families reads mem anchors whole first second⟩
  have none : (firstReferences []).length = 0 := rfl
  rw [newOwners_nil, none] at stagedMetadata
  rw [stagePrimaryGenesisMetadata, checked, ok_bind, stagedMetadata, ok_bind, stagedTransactions]
  rfl

theorem stageGenesisFirstReferences_root : ∃ evidence,
      stageGenesisFirstReferences recovery t state maximum = .ok evidence ∧
      (evidence = none ↔ firstReferences (upTo t.revision ts) = []) ∧
      ∀ root ∈ evidence, FirstReferenceRoot ts (genesisAnchor recovery t state) root := by
  obtain ⟨first, anchors⟩ := genesisAnchors checked
  have whole := reads.coherent.upTo_first mem first
  have references : firstReferences (upTo t.revision ts) = t.references.map fun r => ⟨t, r⟩ := by
    rw [whole, firstReferences_snoc, newReferences_eq]
    exact congrArg (List.map fun r => FirstReference.mk t r) newOwners_nil
  unfold stageGenesisFirstReferences
  rw [checked, ok_bind, references, map_eq_nil_iff]
  by_cases empty : t.references = []
  · rw [if_pos empty]
    exact ⟨none, rfl, by simp [empty], nofun⟩
  · have source : Source recovery.anchors ⟨genesisAnchor recovery t state, coordinatorFirstReferenceProfile⟩ familyOnly
        (firstReferenceFamily []) none := rfl
    have count : t.references.length = (firstReferences ([] ++ [t])).length := by
      rw [← whole, references, length_map]
    obtain ⟨root, staged, made⟩ := stageFirstReferences_root count (mt length_eq_zero_iff.mp empty) source
    rw [newOwners_nil] at staged
    rw [if_neg empty, staged]
    refine ⟨some root, rfl, by simp [empty], fun other same => ?_⟩
    obtain rfl := Option.some.inj same
    refine ⟨made.anchored, made.profile, made.runs.trans ?_⟩
    rw [anchors.revision, whole]

end

variable {base : CoordinatorDiskBase}

theorem baseNewOwner_fold (reads : Reads recovery ts) (h : BaseOf recovery ts base) (mem : t ∈ ts)
    (next : base.metadata.anchor.revision.value + 1 = t.revision.value)
    (room : base.ownerCount ≤ maximum) {out : List BlobReference} :
    t.references.foldlM (baseNewOwner recovery base maximum) [] = .ok out ↔
      out = newOwners (upTo base.metadata.anchor.revision ts) t ∧ base.ownerCount + out.length ≤ maximum := by
  have coherent : Coherent recovery.scope (upTo base.metadata.anchor.revision ts ++ [t]) :=
    reads.coherent.upTo_next mem next ▸ reads.coherent.restrict t.revision
  refine newOwner_fold coherent (fun r there found => ?_) room
  rw [baseNewOwner, require_pos _ (reads.coherent.shapes t mem r there).1, ok_bind, h.owner reads, ok_bind]

theorem stagePrimaryStep_roots (reads : Reads recovery ts) (h : BaseOf recovery ts base)
    (mem : t ∈ ts) (anchors : Anchors recovery t anchor) (next : base.metadata.anchor.revision.value + 1 = t.revision.value)
    (reducer : anchor.reducerProfile = base.metadata.anchor.reducerProfile) {preserve : Bool}
    (kind : if preserve then base.ownerCount ≠ 0 → base.firstReferences ≠ none else base.firstReferences = none) :
    ∃ metadata transactions evidence,
      stagePrimaryMetadataStep recovery base t anchor (newOwners (upTo base.metadata.anchor.revision ts) t) preserve =
        .ok (metadata, transactions, evidence) ∧
      metadata.anchor = anchor ∧ transactions.anchor = anchor ∧ MetadataRoot recovery ts metadata ∧
      TransactionRoot recovery ts transactions ∧ ∀ root ∈ evidence, FirstReferenceRoot ts anchor root := by
  have whole := reads.coherent.upTo_next mem next
  have coherent : Coherent recovery.scope (upTo base.metadata.anchor.revision ts ++ [t]) :=
    whole ▸ reads.coherent.restrict t.revision
  have count := h.ownerCount
  have total : (firstReferences (upTo base.metadata.anchor.revision ts ++ [t])).length =
      base.ownerCount + (newOwners (upTo base.metadata.anchor.revision ts) t).length := by
    rw [length_firstReferences_snoc, count]
  have source : Source recovery.anchors ⟨anchor, coordinatorMetadataProfile⟩ familyOutcome
      (outcomeFamily (upTo base.metadata.anchor.revision ts)) (some base.metadata) := by
    refine ⟨by rw [h.metadata.inScope, anchors.inScope], h.metadata.profile, indexRun_ok.mpr ⟨h.certified, ?_⟩⟩
    rw [h.metadata.runs, metadataRuns_getElem?, if_neg (by decide), if_pos rfl]
  have ownerSource : Source recovery.anchors ⟨anchor, coordinatorMetadataProfile⟩ familyBlobOwner
      (ownerFamily (upTo base.metadata.anchor.revision ts))
      (if (firstReferences (upTo base.metadata.anchor.revision ts)).length ≠ 0 then some base.metadata else none) := by
    by_cases some : (firstReferences (upTo base.metadata.anchor.revision ts)).length ≠ 0
    · rw [if_pos some]
      exact ⟨by rw [h.metadata.inScope, anchors.inScope], h.metadata.profile,
        indexRun_ok.mpr ⟨h.certified, metadataRoot_ownerRun h.metadata some⟩⟩
    · rw [if_neg some]
      have empty := length_eq_zero_iff.mp (not_not.mp some)
      show ownerFamily _ = ∅
      rw [ownerFamily, empty]
      rfl
  have transactionSource : Source recovery.anchors ⟨anchor, coordinatorTransactionProfile⟩ familyOnly
      (transactionFamily (upTo base.metadata.anchor.revision ts)) (some base.transactions.root) := by
    refine ⟨by rw [h.transactions.inScope, anchors.inScope], h.transactions.profile,
      indexRun_ok.mpr ⟨h.transactionsCertified, ?_⟩⟩
    rw [← h.paired]
    exact runs_singleton h.transactions.runs
  obtain ⟨metadata, stagedMetadata, first⟩ := stageMetadata_root coherent anchors.revision source ownerSource
  obtain ⟨transactions, stagedTransactions, second⟩ := stageTransactions_root coherent anchors.revision transactionSource
  obtain ⟨metadataRoot, transactionRoot⟩ := roots_of_families reads mem anchors whole first second
  rw [← count] at stagedMetadata
  have few : base.ownerCount + (newOwners (upTo base.metadata.anchor.revision ts) t).length ≤ maxCommittedBlobsPerJournal :=
    total ▸ coherent.fewBlobs
  have guard : (preserve = false → base.firstReferences = none) ∧
      (preserve = true → base.ownerCount ≠ 0 → base.firstReferences ≠ none) ∧ t.scope = recovery.scope ∧
      anchor.scope = recovery.scope ∧ anchor.revision = t.revision ∧ anchor.certificateDigest = t.certificateDigest ∧
      anchor.reducerProfile = base.metadata.anchor.reducerProfile ∧
      base.metadata.anchor.revision.value + 1 = t.revision.value := by
    refine ⟨?_, ?_, reads.coherent.inScope t mem, anchors.inScope, anchors.revision, anchors.certificate, reducer, next⟩
    · rintro rfl
      exact kind
    · rintro rfl
      exact kind
  unfold stagePrimaryMetadataStep
  rw [require_pos _ guard, ok_bind]
  simp only [require_pos _ few, ok_bind, stagedMetadata, stagedTransactions]
  by_cases evident : preserve = true ∧ base.ownerCount + (newOwners (upTo base.metadata.anchor.revision ts) t).length ≠ 0
  · have evidenceSource : Source recovery.anchors ⟨anchor, coordinatorFirstReferenceProfile⟩ familyOnly
        (firstReferenceFamily (upTo base.metadata.anchor.revision ts)) base.firstReferences := by
      cases known : base.firstReferences with
      | none =>
        have zero : base.ownerCount = 0 := by
          by_contra some
          rw [if_pos evident.1] at kind
          exact kind some known
        have empty := length_eq_zero_iff.mp (count.symm.trans zero)
        show firstReferenceFamily _ = ∅
        rw [firstReferenceFamily, empty]
        rfl
      | some root =>
        have evidence := h.evidence root known
        have certified : recovery.anchors.Certified root := by
          unfold CertificateAnchors.Certified
          rw [evidence.anchored]
          exact h.certified
        exact ⟨by rw [evidence.anchored, h.metadata.inScope, anchors.inScope], evidence.profile,
          indexRun_ok.mpr ⟨certified, runs_singleton evidence.runs⟩⟩
    obtain ⟨root, staged, made⟩ := stageFirstReferences_root total.symm evident.2 evidenceSource
    refine ⟨metadata, transactions, some root, ?_, first.anchored, second.anchored, metadataRoot, transactionRoot,
      fun other same => ?_⟩
    · simp only [if_pos evident, staged, ok_bind]
      rfl
    · obtain rfl := Option.some.inj same
      refine ⟨made.anchored, made.profile, made.runs.trans ?_⟩
      rw [anchors.revision, whole]
  · refine ⟨metadata, transactions, none, ?_, first.anchored, second.anchored, metadataRoot, transactionRoot, by simp⟩
    simp only [if_neg evident]
    rfl

end Extended

end Uste.Metadata
