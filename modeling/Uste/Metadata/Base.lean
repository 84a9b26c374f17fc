import Uste.Metadata.Exact

/-!
The retry outcomes and first owners of a candidate, checked against the journal with an index of
first references or by searching the journal for every owner.
-/

namespace Uste.Metadata

open Types Crypto Policy Storage Txn Std List

/-! ### Searching the journal for an owner -/

section Search

variable {ts : List RecoveredTransaction} {t : RecoveredTransaction} {reference : BlobReference} {principal : PrincipalDigest}

/-- A blob that has no first reference yet gets one where the transaction refers to it. -/
theorem find?_newReferences {found : List FirstReference} {id : BlobId} (new : ∀ f ∈ found, f.reference.id ≠ id) :
    (newReferences found t).find? (fun f => f.reference.id = id) =
      (t.references.find? fun r => r.id = id).map fun r => ⟨t, r⟩ := by
  unfold newReferences
  rw [List.find?_map, List.find?_filter]
  congr 2
  funext r
  by_cases same : r.id = id
  · simp only [same, Function.comp_apply, decide_true, decide_eq_true_eq]
    exact ⟨new, trivial⟩
  · simp [same]

theorem findOwner_eq (ts : List RecoveredTransaction) (reference : BlobReference) (principal : PrincipalDigest) :
    ts.foldlM (findOwner reference principal) false =
      match (firstReferences ts).find? (fun f => f.reference.id = reference.id) with
      | none => .ok false
      | some f =>
        if f.reference = reference ∧ f.transaction.principal = principal then .ok true else .error .integrityFailure := by
  induction ts using List.reverseRecOn with
  | nil => rfl
  | append_singleton ts t ih =>
    rw [foldlM_append, ih, firstReferences_snoc, List.find?_append]
    cases known : (firstReferences ts).find? (fun f => f.reference.id = reference.id) with
    | some f =>
      by_cases right : f.reference = reference ∧ f.transaction.principal = principal
      · simp only [if_pos right, Option.some_or, foldlM_cons, foldlM_nil]
        rfl
      · simp only [if_neg right, Option.some_or]
        rfl
    | none =>
      have new : ∀ f ∈ firstReferences ts, f.reference.id ≠ reference.id := by
        simpa using List.find?_eq_none.mp known
      rw [Option.none_or, find?_newReferences new]
      simp only [foldlM_cons, ok_bind, foldlM_nil, findOwner, Bool.false_eq_true, if_false]
      cases t.references.find? (fun r => r.id = reference.id) with
      | none => rfl
      | some actual =>
        by_cases right : actual = reference ∧ t.principal = principal
        · simp only [Option.map_some, if_pos right, require_pos _ right]
          rfl
        · simp only [Option.map_some, if_neg right, require]
          rfl

theorem findOwner_ok : ts.foldlM (findOwner reference principal) false = .ok true ↔
    ∃ f ∈ firstReferences ts, f.reference = reference ∧ f.transaction.principal = principal := by
  rw [findOwner_eq]
  constructor
  · intro h
    split at h
    · cases h
    · rename_i f found
      split at h
      · rename_i right
        exact ⟨f, mem_of_find?_eq_some found, right⟩
      · cases h
  · rintro ⟨f, mem, right⟩
    have here : (firstReferences ts).find? (fun g => g.reference.id = reference.id) = some f := by
      cases found : (firstReferences ts).find? (fun g => g.reference.id = reference.id) with
      | none =>
        have absent := List.find?_eq_none.mp found f mem
        simp [right.1] at absent
      | some g =>
        have same : g.reference.id = reference.id := by simpa using List.find?_some found
        rw [firstReference_unique (mem_of_find?_eq_some found) mem (same.trans (congrArg _ right.1.symm))]
    rw [here]
    exact if_pos right

end Search

/-! ### One pass over the journal -/

section Pass

variable {recovery : AuthenticatedIndexRecovery} {candidate root : RecoveredIndexRoot} {t : RecoveredTransaction}
  {outcomes owners firsts : Family} {r : BlobReference} {n m : Nat}

theorem visitFamily_ok {anchors : CertificateAnchors} {family : UInt8} {expected : Nat}
    {visitor : Unit → List UInt8 → List UInt8 → Except StorageError Unit} {u : Unit} :
    anchors.visitFamily candidate family expected visitor () = .ok u ↔ anchors.Certified candidate ∧ ∃ contents,
      candidate.runs[family]? = some contents ∧ contents.size = expected ∧
      ∀ key value, contents[key]? = some value → visitor () key value = .ok () := by
  simp only [CertificateAnchors.visitFamily, bind_eq_ok, mapError_ok_iff, indexRun_ok, require_ok, visitIndexRun_ok, pure_eq_ok,
    exists_const]
  constructor
  · rintro ⟨contents, ⟨certified, run⟩, -, ⟨-, contents', run', each⟩, size, -⟩
    rw [run] at run'
    cases run'
    exact ⟨certified, contents, run, size, each⟩
  · rintro ⟨certified, contents, run, size, each⟩
    exact ⟨contents, ⟨certified, run⟩, size.le, ⟨certified, contents, run, each⟩, size, trivial⟩

section

variable (certified : recovery.anchors.Certified candidate)

include certified

theorem matchReference_none (shape : r.scope = recovery.scope ∧ r.validReferenceShape = true) :
    matchReference recovery candidate none t n r = .ok m ↔
      (∃ owners, candidate.runs[familyBlobOwner]? = some owners ∧ ∃ principal,
        owners[r.id.bytes]? = some (ownerValue r principal)) ∧ m = n := by
  simp only [matchReference, bind_eq_ok, indexGet_ok, orError_ok, require_ok, pure_eq_ok, exists_const, decodeOwner_ok,
    Prod.exists, certified, true_and]
  constructor
  · rintro ⟨_, ⟨owners, run, rfl⟩, _, there, _, principal, ⟨entry, -⟩, rfl, rfl⟩
    exact ⟨⟨owners, run, principal, there.trans (congrArg (some ·.value) entry)⟩, rfl⟩
  · rintro ⟨⟨owners, run, principal, there⟩, rfl⟩
    exact ⟨_, ⟨owners, run, there⟩, _, rfl, r, principal, ⟨rfl, shape⟩, rfl, rfl⟩

theorem matchReference_some (rootCertified : recovery.anchors.Certified root)
    (ownerRun : candidate.runs[familyBlobOwner]? = some owners) (firstRun : root.runs[familyOnly]? = some firsts)
    (shape : r.scope = recovery.scope ∧ r.validReferenceShape = true)
    (within : t.revision.value ≤ candidate.anchor.revision.value) :
    matchReference recovery candidate (some root) t n r = .ok m ↔
      (∃ principal first, Witnessed owners firsts t r principal first) ∧ m = n + if claims firsts t r then 1 else 0 := by
  simp only [matchReference, indexGet_eq certified ownerRun, indexGet_eq rootCertified firstRun, ok_bind, bind_eq_ok, orError_ok,
    require_ok, exists_const, decodeOwner_ok, decodeFirstReference_ok, Prod.exists]
  constructor
  · rintro ⟨_, owner, _, principal, ⟨entry, -⟩, rfl, _, firstAt, first, ⟨-, rfl, -⟩, le, h⟩
    have owner := owner.trans (congrArg (some ·.value) entry)
    have counted := claims_iff (t := t) firstAt
    split at h
    · rename_i own
      simp only [bind_eq_ok, require_ok, exists_const, pure_eq_ok] at h
      obtain ⟨principals, rfl⟩ := h
      exact ⟨⟨principal, first, owner, firstAt, le, fun _ => principals⟩, by rw [if_pos (counted.mpr own)]⟩
    · rename_i other
      cases h
      exact ⟨⟨principal, first, owner, firstAt, le, fun own => absurd own other⟩, by rw [if_neg (mt counted.mp other)]; rfl⟩
  · rintro ⟨⟨principal, first, witnessed⟩, rfl⟩
    have counted := claims_iff (t := t) witnessed.revision
    refine ⟨_, witnessed.owner, r, principal, ⟨rfl, shape⟩, rfl, _, witnessed.revision, first,
      ⟨Octets.length_bytes _, rfl, witnessed.le.trans within⟩, witnessed.le, ?_⟩
    by_cases own : first = t.revision
    · rw [if_pos own, if_pos (counted.mpr own), require_pos _ (witnessed.own own)]
      rfl
    · rw [if_neg own, if_neg (mt counted.mp own)]
      rfl

theorem matchTransaction_ok {firstReferences : Option RecoveredIndexRoot} {P : BlobReference → Prop}
    {count : BlobReference → Nat} (run : candidate.runs[familyOutcome]? = some outcomes)
    (each : ∀ r ∈ t.references, ∀ n m, matchReference recovery candidate firstReferences t n r = .ok m ↔ P r ∧ m = n + count r) :
    matchTransaction recovery candidate firstReferences n t = .ok m ↔
      (outcomes[t.retryKey.bytes]? = some (outcomeValue t.outcome) ∧ ∀ r ∈ t.references, P r) ∧
      m = n + (t.references.map count).sum := by
  simp only [matchTransaction, indexGet_eq certified run, ok_bind, bind_eq_ok, require_ok, exists_const]
  rw [and_assoc, ← foldlM_count_iff each]
  exact Iff.rfl

end

end Pass

/-! ### The roots the journal determines -/

def metadataRuns (revision : CommitRevision) (ts : List RecoveredTransaction) : ExtTreeMap UInt8 Family :=
  let runs := ((∅ : ExtTreeMap UInt8 Family).insert familyMetadata (metadataFamily revision ts)).insert familyOutcome
    (outcomeFamily ts)
  if firstReferences ts = [] then runs else runs.insert familyBlobOwner (ownerFamily ts)

structure MetadataRoot (recovery : AuthenticatedIndexRecovery) (ts : List RecoveredTransaction) (root : RecoveredIndexRoot) :
    Prop where
  inScope : root.anchor.scope = recovery.scope
  profile : root.indexProfile = coordinatorMetadataProfile
  certified : recovery.certificateAnchor root.anchor.revision = some root.anchor.certificateDigest
  runs : root.runs = metadataRuns root.anchor.revision (upTo root.anchor.revision ts)

structure FirstReferenceRoot (ts : List RecoveredTransaction) (anchor : IndexRootAnchor) (root : RecoveredIndexRoot) : Prop where
  anchored : root.anchor = anchor
  profile : root.indexProfile = coordinatorFirstReferenceProfile
  runs : root.runs = (∅ : ExtTreeMap UInt8 Family).insert familyOnly (firstReferenceFamily (upTo anchor.revision ts))

section Runs

variable {revision : CommitRevision} {ts : List RecoveredTransaction} {runs : ExtTreeMap UInt8 Family}

theorem metadataRuns_getElem? (family : UInt8) : (metadataRuns revision ts)[family]? =
    if family = familyMetadata then some (metadataFamily revision ts)
    else if family = familyOutcome then some (outcomeFamily ts)
    else if family = familyBlobOwner ∧ firstReferences ts ≠ [] then some (ownerFamily ts) else none := by
  unfold metadataRuns
  split <;> grind [Std.compare_eq_iff_eq, familyMetadata, familyOutcome, familyBlobOwner]

end Runs

/-! ### What an admission checks -/

section Checks

variable [Primitives] {recovery : AuthenticatedIndexRecovery} {candidate : RecoveredIndexRoot}
  {evidence : Option RecoveredIndexRoot} {transactions : CoordinatorTransactionIndex} {limits : CoordinatorDiskAdmissionLimits}
  {base : CoordinatorDiskBase} {ts : List RecoveredTransaction} {head : MetadataHead}

structure Checked (recovery : AuthenticatedIndexRecovery) (candidate : RecoveredIndexRoot)
    (evidence : Option RecoveredIndexRoot) (limits : CoordinatorDiskAdmissionLimits) (head : MetadataHead) (count : Nat) :
    Prop where
  read : readHead recovery candidate = .ok head
  shape : validateShape candidate head limits.metadata = .ok ()
  outcomes : head.outcomes = candidate.anchor.revision.value
  groups : ((if evidence.isSome then 0 else head.owners) + 1) * candidate.anchor.revision.value ≤
    limits.maximumTotalJournalGroups
  evident : checkEvidence recovery candidate evidence head = .ok ()
  decoded : recovery.anchors.visitFamily candidate familyOutcome head.outcomes (fun _ key value => do
    let _ ← decodeOutcome key value candidate.anchor.revision) () = .ok ()
  owned : visitOwners recovery candidate evidence head = .ok ()
  passed : recovery.visitTransactionsReverse .first candidate.anchor.revision candidate.anchor.revision.value
    (matchTransaction recovery candidate evidence) 0 = .ok count
  counted : evidence.isSome = true → count = head.owners

theorem admitBase_checked : admitBase recovery candidate evidence transactions limits = .ok base ↔
    base = ⟨candidate, transactions, evidence, none⟩ ∧ candidate.anchor.scope = recovery.scope ∧
    candidate.indexProfile = coordinatorMetadataProfile ∧ candidate.anchor = transactions.root.anchor ∧
    ∃ head count, Checked recovery candidate evidence limits head count := by
  simp only [admitBase, bind_eq_ok, require_ok, exists_const, pure_eq_ok]
  constructor
  · rintro ⟨⟨inScope, profile, anchor⟩, head, read, _, shape, outcomes, groups, _, evident, _, decoded, _, owned, count, passed,
      counted, rfl⟩
    exact ⟨rfl, inScope, profile, anchor, head, count, read, shape, outcomes, groups, evident, decoded, owned, passed, counted⟩
  · rintro ⟨rfl, inScope, profile, anchor, head, count, h⟩
    exact ⟨⟨inScope, profile, anchor⟩, head, h.read, (), h.shape, h.outcomes, h.groups, (), h.evident, (), h.decoded, (), h.owned,
      count, h.passed, h.counted, rfl⟩

variable {revision : CommitRevision}

omit [Primitives] in
theorem runs_of_parts (shaped : Shaped candidate head) (owners : head.owners = (firstReferences ts).length)
    (metadata : candidate.runs[familyMetadata]? = some (metadataFamily revision ts))
    (outcomes : candidate.runs[familyOutcome]? = some (outcomeFamily ts))
    (owned : firstReferences ts ≠ [] → candidate.runs[familyBlobOwner]? = some (ownerFamily ts)) :
    candidate.runs = metadataRuns revision ts := by
  apply ExtTreeMap.ext_getElem?
  intro family
  have size := shaped family
  rw [metadataRuns_getElem?]
  grind [MetadataHead.entries]

def headOf (ts : List RecoveredTransaction) : MetadataHead :=
  ⟨ts.length, (firstReferences ts).length, ts.length * outcomeLogicalBytes, (firstReferences ts).length * ownerLogicalBytes⟩

variable {scope : NamespaceRef}

omit [Primitives] in
theorem shaped_of_runs (coherent : Coherent scope ts) (some : ts ≠ [])
    (runs : candidate.runs = metadataRuns revision ts) : Shaped candidate (headOf ts) := by
  have outcomeSize : (outcomeFamily ts).size = ts.length := tabulate_size coherent.outcomeKeys
  have ownerSize : (ownerFamily ts).size = (firstReferences ts).length := tabulate_size (firstReferenceKeys_nodup ts)
  have headSize : (metadataFamily revision ts).size = 1 := by
    rw [← ExtTreeMap.length_toList, metadataFamily, toList_eq_singleton.mpr rfl, length_singleton]
  intro family
  rw [runs, metadataRuns_getElem?]
  grind [MetadataHead.entries, headOf]

theorem visitOwners_ok : visitOwners recovery candidate evidence head = .ok () ↔ (head.owners ≠ 0 →
    recovery.anchors.Certified candidate ∧ ∃ contents, candidate.runs[familyBlobOwner]? = some contents ∧
      contents.size = head.owners ∧
      ∀ key value, contents[key]? = some value → checkOwner recovery candidate evidence (key, value) = .ok ()) := by
  unfold visitOwners
  by_cases none : head.owners = 0
  · simp [none]
  · simp only [ne_eq, none, not_false_eq_true, if_true, true_implies, bind_eq_ok, mapError_ok_iff, indexRun_ok, require_ok, exists_const,
      forM_ok_iff, Prod.forall, ExtTreeMap.mem_toList_iff_getElem?_eq_some]
    constructor
    · rintro ⟨contents, ⟨certified, run⟩, -, each, size⟩
      exact ⟨certified, contents, run, size, each⟩
    · rintro ⟨certified, contents, run, size, each⟩
      exact ⟨contents, ⟨certified, run⟩, size.le, each, size⟩

variable {key value : List UInt8}

theorem checkOwner_none (reads : Reads recovery ts) (within : candidate.anchor.revision.value ≤ ts.length) :
    checkOwner recovery candidate none (key, value) = .ok () ↔ ∃ f ∈ firstReferences (upTo candidate.anchor.revision ts),
      f.reference.id.bytes = key ∧ ownerValue f.reference f.transaction.principal = value := by
  simp only [checkOwner, bind_eq_ok, mapError_ok_iff, Prod.exists, decodeOwner_ok, reads.visit within le_rfl, require_ok]
  constructor
  · rintro ⟨reference, principal, ⟨entry, -⟩, _, searched, rfl⟩
    obtain ⟨f, mem, rfl, rfl⟩ := findOwner_ok.mp searched
    exact ⟨f, mem, (congrArg IndexEntry.key entry).symm, (congrArg IndexEntry.value entry).symm⟩
  · rintro ⟨f, mem, rfl, rfl⟩
    obtain ⟨transaction, reference⟩ := firstReferences_mem mem
    have shape := (reads.coherent.restrict candidate.anchor.revision).shapes _ transaction _ reference
    exact ⟨_, _, ⟨rfl, shape⟩, true, findOwner_ok.mpr ⟨f, mem, rfl, rfl⟩, rfl⟩

variable {root : RecoveredIndexRoot} {firsts : Family}

theorem checkOwner_some
    (certified : recovery.anchors.Certified root) (run : root.runs[familyOnly]? = some firsts) {reference : BlobReference}
    {principal : PrincipalDigest} {first : CommitRevision}
    (shape : reference.scope = recovery.scope ∧ reference.validReferenceShape = true)
    (owner : ⟨key, value⟩ = encodeOwner reference principal) (found : firsts[key]? = some (bigEndian 8 first.value))
    (below : first.value ≤ candidate.anchor.revision.value) :
    checkOwner recovery candidate (some root) (key, value) = .ok () := by
  have length : key.length = 16 := (congrArg (·.key.length) owner).trans (Octets.length_bytes _)
  simp only [checkOwner, bind_eq_ok, mapError_ok_iff, Prod.exists, decodeOwner_ok, indexGet_eq certified run, decodeFirstReference_ok]
  exact ⟨_, _, ⟨owner, shape⟩, _, rfl, _, orError_ok.mpr found, first, ⟨length, rfl, below⟩, rfl⟩

omit [Primitives] in
theorem checkEvidence_some : checkEvidence recovery candidate (some root) head = .ok () ↔
    root.anchor = candidate.anchor ∧ root.indexProfile = coordinatorFirstReferenceProfile ∧ head.owners ≠ 0 ∧
    recovery.anchors.Certified root ∧ ∃ firsts, root.runs = (∅ : ExtTreeMap UInt8 Family).insert familyOnly firsts ∧
      firsts.size = head.owners ∧ ∀ key value, firsts[key]? = some value →
        ∃ first, decodeFirstReference key value candidate.anchor.revision = .ok first := by
  simp only [checkEvidence, bind_eq_ok, require_ok, any_decide, soleRun_eq, exists_const, visitIndexRun_ok, pure_eq_ok]
  constructor
  · rintro ⟨⟨anchor, profile, ⟨firsts, runs, size⟩, some⟩, certified, contents, run, each⟩
    rw [runs_singleton runs] at run
    cases run
    exact ⟨anchor, profile, some, certified, firsts, runs, size, fun key value there => by simpa using each key value there⟩
  · rintro ⟨anchor, profile, some, certified, firsts, runs, size, each⟩
    exact ⟨⟨anchor, profile, ⟨firsts, runs, size⟩, some⟩, certified, firsts, runs_singleton runs,
      fun key value there => by simpa using each key value there⟩

variable {count : Nat}

theorem Checked.parts (reads : Reads recovery ts) (h : Checked recovery candidate evidence limits head count) :
    recovery.anchors.Certified candidate ∧ candidate.anchor.revision.value ≤ ts.length ∧ Fits limits.metadata head.outcomes head.owners ∧
    Shaped candidate head ∧ (∃ value, candidate.runs[familyMetadata]? = some ((∅ : Family).insert metadataKey value) ∧
      parseMetadata value candidate.anchor.revision =
        .ok ⟨head.outcomes, head.owners, head.outcomes * outcomeLogicalBytes, head.owners * ownerLogicalBytes⟩) ∧
    ∃ outcomes, candidate.runs[familyOutcome]? = some outcomes ∧ outcomes.size = candidate.anchor.revision.value := by
  obtain ⟨certified, value, run, parsed⟩ := readHead_ok.mp h.read
  obtain ⟨fits, same, shaped⟩ := validateShape_ok.mp h.shape
  obtain ⟨-, outcomes, outcomeRun, size, -⟩ := visitFamily_ok.mp h.decoded
  refine ⟨certified, (reads.of_certificate certified.2).1, fits, shaped, ⟨value, run, ?_⟩, outcomes, outcomeRun, ?_⟩
  · rw [← same]
    exact parsed
  · rw [size, h.outcomes]

omit [Primitives] in
theorem Coherent.small (coherent : Coherent scope ts) :
    ts.length * outcomeLogicalBytes < 2 ^ 64 ∧ (firstReferences ts).length * ownerLogicalBytes < 2 ^ 64 := by
  have transactions := coherent.fewTransactions
  have blobs := coherent.fewBlobs
  unfold maxOutcomesPerNamespace at transactions
  unfold maxCommittedBlobsPerJournal at blobs
  simp only [outcomeLogicalBytes, outcomeKeyBytes, outcomeValueBytes, ownerLogicalBytes, ownerKeyBytes, ownerValueBytes]
  omega

/-- A checked candidate whose owners are the journal's lists what the journal determines. -/
theorem Checked.metadataRoot (reads : Reads recovery ts) (inScope : candidate.anchor.scope = recovery.scope)
    (profile : candidate.indexProfile = coordinatorMetadataProfile)
    (h : Checked recovery candidate evidence limits head count)
    (found : ∀ outcomes, candidate.runs[familyOutcome]? = some outcomes → ∀ t ∈ upTo candidate.anchor.revision ts,
      outcomes[t.retryKey.bytes]? = some (outcomeValue t.outcome))
    (owners : head.owners = (firstReferences (upTo candidate.anchor.revision ts)).length)
    (owned : firstReferences (upTo candidate.anchor.revision ts) ≠ [] →
      candidate.runs[familyBlobOwner]? = some (ownerFamily (upTo candidate.anchor.revision ts))) :
    MetadataRoot recovery ts candidate := by
  obtain ⟨certified, within, -, shaped, ⟨value, metadataRun, parsed⟩, outcomes, outcomeRun, size⟩ := h.parts reads
  have coherent := reads.coherent.restrict candidate.anchor.revision
  have length := reads.coherent.length_upTo within
  refine ⟨inScope, profile, certified.2, runs_of_parts shaped owners ?_ ?_ owned⟩
  · rw [h.outcomes, owners, ← length] at parsed
    rw [metadataRun, (parseMetadata_ok coherent.small).mp parsed]
    rfl
  · rw [outcomeRun]
    exact congrArg some ((eq_tabulate_iff coherent.outcomeKeys).mpr ⟨size.trans length.symm, found outcomes outcomeRun⟩)

theorem MetadataRoot.parts (reads : Reads recovery ts) (root : MetadataRoot recovery ts candidate)
    (fits : Fits limits.metadata candidate.anchor.revision.value
      (firstReferences (upTo candidate.anchor.revision ts)).length) :
    recovery.anchors.Certified candidate ∧ candidate.anchor.revision.value ≤ ts.length ∧
    readHead recovery candidate = .ok (headOf (upTo candidate.anchor.revision ts)) ∧
    validateShape candidate (headOf (upTo candidate.anchor.revision ts)) limits.metadata = .ok () ∧
    recovery.anchors.visitFamily candidate familyOutcome (headOf (upTo candidate.anchor.revision ts)).outcomes (fun _ key value => do
      let _ ← decodeOutcome key value candidate.anchor.revision) () = .ok () := by
  have certified : recovery.anchors.Certified candidate := ⟨congrArg _ root.inScope, root.certified⟩
  obtain ⟨within, -⟩ := reads.of_certificate root.certified
  have coherent := reads.coherent.restrict candidate.anchor.revision
  have length := reads.coherent.length_upTo within
  have some : upTo candidate.anchor.revision ts ≠ [] := by
    intro empty
    have positive := candidate.anchor.revision.nonzero
    rw [empty, length_nil] at length
    omega
  refine ⟨certified, within, ?_, ?_, ?_⟩
  · refine readHead_ok.mpr ⟨certified, _, ?_, (parseMetadata_ok coherent.small).mpr rfl⟩
    rw [root.runs, metadataRuns_getElem?, if_pos rfl]
    rfl
  · refine validateShape_ok.mpr ⟨?_, rfl, shaped_of_runs coherent some root.runs⟩
    rw [← length] at fits
    exact fits
  · refine visitFamily_ok.mpr ⟨certified, outcomeFamily (upTo candidate.anchor.revision ts), ?_, ?_, fun key value there => ?_⟩
    · rw [root.runs, metadataRuns_getElem?, if_neg (by decide), if_pos rfl]
    · exact tabulate_size coherent.outcomeKeys
    · obtain ⟨t, mem, rfl, rfl⟩ := (tabulate_getElem? coherent.outcomeKeys key value).mp there
      have decoded : decodeOutcome t.retryKey.bytes (outcomeValue t.outcome) candidate.anchor.revision =
          .ok (t.principal, t.idempotencyKey, t.outcome) := decodeOutcome_ok.mpr ⟨rfl, reads.coherent.outcome_le mem⟩
      rw [decoded]
      rfl

/-- Limits that let the candidate through where it lists what it should. -/
structure Sufficient (limits : CoordinatorDiskAdmissionLimits) (revision : CommitRevision) (owners passes : Nat) : Prop where
  fits : Fits limits.metadata revision.value owners
  groups : (passes + 1) * revision.value ≤ limits.maximumTotalJournalGroups

variable {outcomes : Family}

theorem passed_none (reads : Reads recovery ts) (certified : recovery.anchors.Certified candidate)
    (within : candidate.anchor.revision.value ≤ ts.length) (run : candidate.runs[familyOutcome]? = some outcomes) :
    recovery.visitTransactionsReverse .first candidate.anchor.revision candidate.anchor.revision.value
        (matchTransaction recovery candidate none) 0 = .ok count ↔
      (∀ t ∈ upTo candidate.anchor.revision ts, outcomes[t.retryKey.bytes]? = some (outcomeValue t.outcome) ∧
        ∀ r ∈ t.references, ∃ owners, candidate.runs[familyBlobOwner]? = some owners ∧ ∃ principal,
          owners[r.id.bytes]? = some (ownerValue r principal)) ∧ count = 0 := by
  have coherent := reads.coherent.restrict candidate.anchor.revision
  have step : ∀ t ∈ (upTo candidate.anchor.revision ts).reverse, ∀ n m,
      matchTransaction recovery candidate none n t = .ok m ↔ (outcomes[t.retryKey.bytes]? = some (outcomeValue t.outcome) ∧
        ∀ r ∈ t.references, ∃ owners, candidate.runs[familyBlobOwner]? = some owners ∧ ∃ principal,
          owners[r.id.bytes]? = some (ownerValue r principal)) ∧ m = n + (t.references.map fun _ => 0).sum :=
    fun t mem n m => matchTransaction_ok certified run fun r there n m =>
      matchReference_none certified (coherent.shapes t (mem_reverse.mp mem) r there)
  rw [reads.visitReverse within (Nat.le_refl _), foldlM_count_iff step]
  simp

theorem passed_some (reads : Reads recovery ts) (certified : recovery.anchors.Certified candidate)
    (rootCertified : recovery.anchors.Certified root) (within : candidate.anchor.revision.value ≤ ts.length)
    {owners : Family} (run : candidate.runs[familyOutcome]? = some outcomes)
    (ownerRun : candidate.runs[familyBlobOwner]? = some owners) (firstRun : root.runs[familyOnly]? = some firsts) :
    recovery.visitTransactionsReverse .first candidate.anchor.revision candidate.anchor.revision.value
        (matchTransaction recovery candidate (some root)) 0 = .ok count ↔
      (∀ t ∈ upTo candidate.anchor.revision ts, outcomes[t.retryKey.bytes]? = some (outcomeValue t.outcome) ∧
        ∀ r ∈ t.references, ∃ principal first, Witnessed owners firsts t r principal first) ∧
      count = (claimed firsts (upTo candidate.anchor.revision ts)).length := by
  have coherent := reads.coherent.restrict candidate.anchor.revision
  have below : ∀ t ∈ upTo candidate.anchor.revision ts, t.revision.value ≤ candidate.anchor.revision.value :=
    fun t mem => of_decide_eq_true (mem_filter.mp mem).2
  have step : ∀ t ∈ (upTo candidate.anchor.revision ts).reverse, ∀ n m,
      matchTransaction recovery candidate (some root) n t = .ok m ↔
        (outcomes[t.retryKey.bytes]? = some (outcomeValue t.outcome) ∧
          ∀ r ∈ t.references, ∃ principal first, Witnessed owners firsts t r principal first) ∧
        m = n + (t.references.map fun r => if claims firsts t r then 1 else 0).sum :=
    fun t mem n m => matchTransaction_ok certified run fun r there n m =>
      matchReference_some certified rootCertified ownerRun firstRun (coherent.shapes t (mem_reverse.mp mem) r there)
        (below t (mem_reverse.mp mem))
  rw [reads.visitReverse within (Nat.le_refl _), foldlM_count_iff step, length_claimed, map_reverse, sum_reverse]
  simp

theorem mem_ownerRun (reads : Reads recovery ts) (root : MetadataRoot recovery ts candidate) {t : RecoveredTransaction}
    {r : BlobReference} (mem : t ∈ upTo candidate.anchor.revision ts) (there : r ∈ t.references) :
    candidate.runs[familyBlobOwner]? = some (ownerFamily (upTo candidate.anchor.revision ts)) ∧
    ∃ f ∈ firstReferences (upTo candidate.anchor.revision ts), f.reference = r := by
  obtain ⟨f, first, same⟩ := firstReferences_covers mem there
  obtain ⟨transaction, reference⟩ := firstReferences_mem first
  have coherent := reads.coherent.restrict candidate.anchor.revision
  refine ⟨?_, f, first, coherent.agree _ transaction _ mem _ reference _ there same⟩
  rw [root.runs, metadataRuns_getElem?, if_neg (by decide), if_neg (by decide), if_pos ⟨rfl, ne_nil_of_mem first⟩]

omit [Primitives] in
theorem metadataRoot_ownerRun (root : MetadataRoot recovery ts candidate)
    (some : (firstReferences (upTo candidate.anchor.revision ts)).length ≠ 0) :
    candidate.runs[familyBlobOwner]? = .some (ownerFamily (upTo candidate.anchor.revision ts)) := by
  rw [root.runs, metadataRuns_getElem?, if_neg (by decide), if_neg (by decide), if_pos ⟨rfl, mt length_eq_zero_iff.mpr some⟩]

theorem admitBase_search (reads : Reads recovery ts) : admitBase recovery candidate none transactions limits = .ok base ↔
    base = ⟨candidate, transactions, none, none⟩ ∧ candidate.anchor = transactions.root.anchor ∧
    MetadataRoot recovery ts candidate ∧
    Sufficient limits candidate.anchor.revision (firstReferences (upTo candidate.anchor.revision ts)).length
      (firstReferences (upTo candidate.anchor.revision ts)).length := by
  rw [admitBase_checked]
  constructor
  · rintro ⟨rfl, inScope, profile, anchor, head, count, h⟩
    obtain ⟨certified, within, fits, shaped, -, outcomes, outcomeRun, -⟩ := h.parts reads
    obtain ⟨each, -⟩ := (passed_none reads certified within outcomeRun).mp h.passed
    have visited := visitOwners_ok.mp h.owned
    -- every blob of the journal has an owner, and every owner is one of the journal's
    have exactly : head.owners = (firstReferences (upTo candidate.anchor.revision ts)).length ∧
        (firstReferences (upTo candidate.anchor.revision ts) ≠ [] →
          candidate.runs[familyBlobOwner]? = some (ownerFamily (upTo candidate.anchor.revision ts))) := by
      by_cases zero : head.owners = 0
      · have absent : candidate.runs[familyBlobOwner]? = none := by
          have size := shaped familyBlobOwner
          have entries : head.entries familyBlobOwner = 0 := zero
          rw [if_pos entries] at size
          exact Option.map_eq_none_iff.mp size
        have empty : firstReferences (upTo candidate.anchor.revision ts) = [] := by
          apply eq_nil_iff_forall_not_mem.mpr
          intro f mem
          obtain ⟨transaction, reference⟩ := firstReferences_mem mem
          obtain ⟨owners, run, -⟩ := (each _ transaction).2 _ reference
          rw [absent] at run
          cases run
        rw [zero, empty]
        exact ⟨rfl, fun some => absurd rfl some⟩
      · obtain ⟨-, owners, run, size, right⟩ := visited zero
        have same : owners = ownerFamily (upTo candidate.anchor.revision ts) := by
          have keys := firstReferenceKeys_nodup (upTo candidate.anchor.revision ts)
          apply ExtTreeMap.ext_getElem?
          intro key
          ext value
          rw [ownerFamily, tabulate_getElem? keys]
          constructor
          · intro there
            exact (checkOwner_none reads within).mp (right key value there)
          · rintro ⟨f, mem, rfl, rfl⟩
            obtain ⟨transaction, reference⟩ := firstReferences_mem mem
            obtain ⟨owners', run', principal, there⟩ := (each _ transaction).2 _ reference
            rw [run] at run'
            cases run'
            obtain ⟨g, member, key, value⟩ := (checkOwner_none reads within).mp (right _ _ there)
            rw [firstReference_unique member mem (Octets.ext key)] at value
            rw [there, value]
        rw [← size, same]
        exact ⟨tabulate_size (firstReferenceKeys_nodup _), fun _ => run.trans (congrArg some same)⟩
    have groups := h.groups
    rw [h.outcomes, exactly.1] at fits
    rw [exactly.1] at groups
    refine ⟨rfl, anchor, h.metadataRoot reads inScope profile (fun contents run t mem => ?_) exactly.1 exactly.2, fits, groups⟩
    rw [outcomeRun] at run
    cases run
    exact (each t mem).1
  · rintro ⟨rfl, anchor, root, enough⟩
    obtain ⟨certified, within, read, shape, decoded⟩ := root.parts reads enough.fits
    have length := reads.coherent.length_upTo within
    have coherent := reads.coherent.restrict candidate.anchor.revision
    have outcomeRun : candidate.runs[familyOutcome]? = some (outcomeFamily (upTo candidate.anchor.revision ts)) := by
      rw [root.runs, metadataRuns_getElem?, if_neg (by decide), if_pos rfl]
    have keys := firstReferenceKeys_nodup (upTo candidate.anchor.revision ts)
    refine ⟨rfl, root.inScope, root.profile, anchor, headOf _, 0, read, shape, length, enough.groups, rfl, decoded,
      visitOwners_ok.mpr fun some => ⟨certified, _, metadataRoot_ownerRun root some, tabulate_size keys, fun key value there =>
        (checkOwner_none reads within).mpr ((tabulate_getElem? keys key value).mp there)⟩,
      (passed_none reads certified within outcomeRun).mpr ⟨fun t mem => ⟨?_, fun r there => ?_⟩, rfl⟩, nofun⟩
    · exact tabulate_found coherent.outcomeKeys mem
    · obtain ⟨run, f, first, rfl⟩ := mem_ownerRun reads root mem there
      exact ⟨_, run, f.transaction.principal, tabulate_found keys first⟩

theorem admitBase_evidence (reads : Reads recovery ts) :
    admitBase recovery candidate (some root) transactions limits = .ok base ↔
      base = ⟨candidate, transactions, some root, none⟩ ∧ candidate.anchor = transactions.root.anchor ∧
      MetadataRoot recovery ts candidate ∧ FirstReferenceRoot ts candidate.anchor root ∧
      Sufficient limits candidate.anchor.revision (firstReferences (upTo candidate.anchor.revision ts)).length 0 := by
  have coherent := reads.coherent.restrict candidate.anchor.revision
  have keys := firstReferenceKeys_nodup (upTo candidate.anchor.revision ts)
  rw [admitBase_checked]
  constructor
  · rintro ⟨rfl, inScope, profile, anchor, head, count, h⟩
    obtain ⟨certified, within, fits, -, -, outcomes, outcomeRun, -⟩ := h.parts reads
    obtain ⟨rootAnchor, rootProfile, nonzero, rootCertified, firsts, runs, firstSize, -⟩ := checkEvidence_some.mp h.evident
    obtain ⟨-, owners, ownerRun, ownerSize, -⟩ := visitOwners_ok.mp h.owned nonzero
    obtain ⟨each, counted⟩ :=
      (passed_some reads certified rootCertified within outcomeRun ownerRun (runs_singleton runs)).mp h.passed
    have number := (counted.symm.trans (h.counted rfl)).trans ownerSize.symm
    obtain ⟨rfl, rfl, size⟩ := families_of_witnessed coherent (fun t mem => (each t mem).2) (firstSize.trans ownerSize.symm) number
    have exactly := ownerSize.symm.trans size
    have groups := h.groups
    rw [h.outcomes, exactly] at fits
    refine ⟨rfl, anchor, h.metadataRoot reads inScope profile (fun contents run t mem => ?_) exactly fun _ => ownerRun,
      ⟨rootAnchor, rootProfile, runs⟩, fits, groups⟩
    rw [outcomeRun] at run
    cases run
    exact (each t mem).1
  · rintro ⟨rfl, anchor, metadata, evidence, enough⟩
    obtain ⟨certified, within, read, shape, decoded⟩ := metadata.parts reads enough.fits
    have length := reads.coherent.length_upTo within
    have nonzero : (firstReferences (upTo candidate.anchor.revision ts)).length ≠ 0 := by
      rw [← tabulate_size keys]
      exact root.filled _ _ (runs_singleton evidence.runs)
    have outcomeRun : candidate.runs[familyOutcome]? = .some (outcomeFamily (upTo candidate.anchor.revision ts)) := by
      rw [metadata.runs, metadataRuns_getElem?, if_neg (by decide), if_pos rfl]
    have ownerRun := metadataRoot_ownerRun metadata nonzero
    have rootCertified : recovery.anchors.Certified root := by
      unfold CertificateAnchors.Certified
      rw [evidence.anchored]
      exact certified
    have below : ∀ f ∈ firstReferences (upTo candidate.anchor.revision ts),
        f.transaction.revision.value ≤ candidate.anchor.revision.value :=
      fun f mem => of_decide_eq_true (mem_filter.mp (firstReferences_mem mem).1).2
    obtain ⟨each, count⟩ := families_witnessed coherent
    refine ⟨rfl, metadata.inScope, metadata.profile, anchor, headOf _, (headOf (upTo candidate.anchor.revision ts)).owners, read,
      shape, length, enough.groups, ?_, decoded, ?_,
      (passed_some reads certified rootCertified within outcomeRun ownerRun (runs_singleton evidence.runs)).mpr
        ⟨fun t mem => ⟨tabulate_found coherent.outcomeKeys mem, each t mem⟩, count.symm⟩, fun _ => rfl⟩
    · refine checkEvidence_some.mpr ⟨evidence.anchored, evidence.profile, nonzero, rootCertified, _, evidence.runs,
        tabulate_size keys, fun key value there => ?_⟩
      obtain ⟨f, mem, rfl, rfl⟩ := (tabulate_getElem? keys key value).mp there
      exact ⟨_, decodeFirstReference_ok.mpr ⟨Octets.length_bytes _, rfl, below f mem⟩⟩
    · refine visitOwners_ok.mpr fun _ => ⟨certified, _, ownerRun, tabulate_size keys, fun key value there => ?_⟩
      obtain ⟨f, mem, rfl, rfl⟩ := (tabulate_getElem? keys key value).mp there
      obtain ⟨transaction, reference⟩ := firstReferences_mem mem
      exact checkOwner_some rootCertified (runs_singleton evidence.runs) (coherent.shapes _ transaction _ reference) rfl
        (tabulate_found keys mem) (below f mem)

end Checks

end Uste.Metadata
