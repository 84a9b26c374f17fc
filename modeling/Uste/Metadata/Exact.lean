import Uste.Metadata.Admission
import Uste.Metadata.Evidence

/-!
Admission accepts exactly the roots whose families the journal determines. Lookups go one way only,
from the journal to the root; that nothing else is in a root follows from the counts.
-/

namespace Uste.Metadata

open Types Crypto Policy Storage Txn Std List

structure Reads [Primitives] (recovery : AuthenticatedIndexRecovery) (ts : List RecoveredTransaction) : Prop where
  captured : recovery.groups.mapM (captureGroup recovery.scope) = .ok ts
  coherent : Coherent recovery.scope ts

variable {t : RecoveredTransaction}

theorem captureGroup_ok [Primitives] {scope : NamespaceRef} {group : RecoveredGroup}
    (h : captureGroup scope group = .ok t) : t.revision = group.revision ∧ t.certificateDigest = group.certificateDigest := by
  obtain ⟨decoded, -, h⟩ := bind_ok h
  cases h
  exact ⟨rfl, rfl⟩

section Reading

variable [Primitives] {recovery : AuthenticatedIndexRecovery} {ts : List RecoveredTransaction} {root : RecoveredIndexRoot}
  {revision : CommitRevision} (reads : Reads recovery ts)

include reads

theorem Reads.certificate : recovery.certificateAnchor revision =
    (ts.find? fun t => t.revision = revision).map (·.certificateDigest) := by
  have pairs : recovery.groups.map (fun group => (group.revision, group.certificateDigest)) =
      ts.map fun t => (t.revision, t.certificateDigest) :=
    map_eq_of_mapM reads.captured fun group t captured => by
      obtain ⟨revision, certificate⟩ := captureGroup_ok captured
      rw [revision, certificate]
  have found := congrArg (fun pairs : List (CommitRevision × Octets 32) =>
    (pairs.find? fun pair => pair.1 = revision).map (·.2)) pairs
  unfold AuthenticatedIndexRecovery.certificateAnchor
  simpa only [List.find?_map, Option.map_map, Function.comp_def] using found

theorem Reads.frontier : recovery.frontier = ts.getLast?.map (·.revision) := by
  have revisions : recovery.groups.map (·.revision) = ts.map (·.revision) :=
    map_eq_of_mapM reads.captured fun group t captured => (captureGroup_ok captured).1.symm
  rw [AuthenticatedIndexRecovery.frontier, ← List.getLast?_map, revisions, List.getLast?_map]

theorem Reads.of_certificate {digest : Octets 32} (h : recovery.certificateAnchor revision = some digest) :
    revision.value ≤ ts.length ∧ ∃ t ∈ ts, t.revision = revision ∧ t.certificateDigest = digest := by
  rw [reads.certificate] at h
  obtain ⟨t, found, same⟩ := Option.map_eq_some_iff.mp h
  have mem := mem_of_find?_eq_some found
  have at_ : t.revision = revision := by simpa using List.find?_some found
  refine ⟨?_, t, mem, at_, same⟩
  have there : t.revision.value ∈ ts.map (·.revision.value) := mem_map_of_mem mem
  rw [reads.coherent.revisions, mem_range'_1, at_] at there
  omega

theorem Reads.certificate_of_mem {t : RecoveredTransaction} (mem : t ∈ ts) :
    recovery.certificateAnchor t.revision = some t.certificateDigest := by
  obtain ⟨found, there⟩ : ∃ found, ts.find? (fun other => other.revision = t.revision) = some found := by
    rw [← Option.isSome_iff_exists, List.find?_isSome]
    exact ⟨t, mem, by simp⟩
  have same : found.revision = t.revision := by simpa using List.find?_some there
  rw [reads.certificate, there, reads.coherent.revision_unique (mem_of_find?_eq_some there) mem same]
  rfl

variable {maximum : Nat}

theorem Reads.range (within : revision.value ≤ ts.length) (enough : revision.value ≤ maximum) :
    ∃ groups, recovery.range .first revision maximum = .ok groups ∧
      groups.mapM (captureGroup recovery.scope) = .ok (upTo revision ts) := by
  have positive := revision.nonzero
  have last : recovery.frontier.any (fun frontier => decide (revision.value ≤ frontier.value)) = true := by
    rw [reads.frontier]
    rcases eq_nil_or_concat ts with rfl | ⟨before, t, rfl⟩
    · rw [length_nil] at within
      omega
    · have revisions := reads.coherent.revisions
      rw [concat_eq_append, map_append, length_append, length_singleton, List.range'_1_concat] at revisions
      have at_ : t.revision.value = 1 + before.length := by
        simpa using (append_inj_right' revisions rfl)
      rw [concat_eq_append, length_append, length_singleton] at within
      rw [concat_eq_append, List.getLast?_append, List.getLast?_singleton]
      simp only [Option.some_or, Option.map_some, Option.any_some, decide_eq_true_eq]
      omega
  refine ⟨recovery.groups.filter fun group =>
    CommitRevision.first.value ≤ group.revision.value ∧ group.revision.value ≤ revision.value, ?_,
    filter_mapM reads.captured ?_⟩
  · rw [AuthenticatedIndexRecovery.range, require_pos _ ⟨positive, last⟩, ok_bind, require_pos, ok_bind]
    · rfl
    · show revision.value - 1 + 1 ≤ maximum
      omega
  · intro group t captured
    have nonzero := group.revision.nonzero
    rw [(captureGroup_ok captured).1, decide_eq_decide]
    exact ⟨fun h => h.2, fun h => ⟨nonzero, h⟩⟩

variable {β : Type} {visitor : β → RecoveredTransaction → Except StorageError β} {init b : β}

theorem Reads.visit (within : revision.value ≤ ts.length) (enough : revision.value ≤ maximum) :
    recovery.visitTransactions .first revision maximum visitor init = .ok b ↔
      (upTo revision ts).foldlM visitor init = .ok b := by
  obtain ⟨groups, ranged, captured⟩ := reads.range within enough
  rw [AuthenticatedIndexRecovery.visitTransactions, mapError_ok_iff, ranged, ok_bind, foldlM_mapM captured]

theorem Reads.visitReverse (within : revision.value ≤ ts.length) (enough : revision.value ≤ maximum) :
    recovery.visitTransactionsReverse .first revision maximum visitor init = .ok b ↔
      (upTo revision ts).reverse.foldlM visitor init = .ok b := by
  obtain ⟨groups, ranged, captured⟩ := reads.range within enough
  rw [AuthenticatedIndexRecovery.visitTransactionsReverse, mapError_ok_iff, ranged, ok_bind, foldlM_mapM (reverse_mapM captured)]

end Reading

section Roots

variable {anchors : CertificateAnchors} {root : RecoveredIndexRoot} {family : UInt8} {contents : Family}

@[simp] theorem indexRun_ok : anchors.indexRun root family = .ok contents ↔
    anchors.Certified root ∧ root.runs[family]? = some contents := by
  simp [CertificateAnchors.indexRun]

@[simp] theorem indexGet_ok {key : List UInt8} {value : Option (List UInt8)} : anchors.indexGet root family key = .ok value ↔
    anchors.Certified root ∧ ∃ contents, root.runs[family]? = some contents ∧ contents[key]? = value := by
  simp [CertificateAnchors.indexGet, and_assoc]

theorem indexGet_eq (certified : anchors.Certified root) (found : root.runs[family]? = some contents) (key : List UInt8) :
    anchors.indexGet root family key = .ok contents[key]? :=
  indexGet_ok.mpr ⟨certified, contents, found, rfl⟩

@[simp] theorem visitIndexRun_ok {visitor : Unit → List UInt8 → List UInt8 → Except StorageError Unit} {u : Unit} :
    anchors.visitIndexRun root family visitor () = .ok u ↔ anchors.Certified root ∧ ∃ contents,
      root.runs[family]? = some contents ∧ ∀ key value, contents[key]? = some value → visitor () key value = .ok () := by
  simp [CertificateAnchors.visitIndexRun, foldlM_unit_iff, and_assoc]

theorem toList_singleton (contents : Family) :
    ((∅ : ExtTreeMap UInt8 Family).insert family contents).toList = [(family, contents)] := by
  have perm := Totals.perm_insert (m := (∅ : ExtTreeMap UInt8 Family)) (k := family) (by simp) contents
  exact perm_singleton.mp perm

theorem soleRun_eq : root.soleRun = some contents ↔ root.runs = (∅ : ExtTreeMap UInt8 Family).insert familyOnly contents := by
  unfold RecoveredIndexRoot.soleRun
  constructor
  · intro h
    split at h
    · rename_i run only
      split at h
      · rename_i first
        cases h
        apply ExtTreeMap.ext_getElem?
        intro k
        ext a
        rw [← ExtTreeMap.mem_toList_iff_getElem?_eq_some, ← ExtTreeMap.mem_toList_iff_getElem?_eq_some, only,
          toList_singleton, ← first]
      · cases h
    · cases h
  · intro h
    rw [h, toList_singleton]
    exact if_pos rfl

end Roots

/-! ### The transaction index -/

structure TransactionRoot (recovery : AuthenticatedIndexRecovery) (ts : List RecoveredTransaction) (root : RecoveredIndexRoot) :
    Prop where
  inScope : root.anchor.scope = recovery.scope
  profile : root.indexProfile = coordinatorTransactionProfile
  certified : recovery.certificateAnchor root.anchor.revision = some root.anchor.certificateDigest
  runs : root.runs = (∅ : ExtTreeMap UInt8 Family).insert familyOnly (transactionFamily (upTo root.anchor.revision ts))

theorem any_decide {α : Type} {o : Option α} {P : α → Prop} [DecidablePred P] :
    o.any (fun a => decide (P a)) = true ↔ ∃ a, o = some a ∧ P a := by
  cases o <;> simp

variable {root : RecoveredIndexRoot} {contents : Family}

theorem runs_singleton
    (runs : root.runs = (∅ : ExtTreeMap UInt8 Family).insert familyOnly contents) : root.runs[familyOnly]? = some contents := by
  rw [runs, ExtTreeMap.getElem?_insert_self]

section Transactions

variable {scope : NamespaceRef} {ts : List RecoveredTransaction} {t : RecoveredTransaction} {revision : CommitRevision}

theorem Coherent.transactionKeys (h : Coherent scope ts) : (ts.map fun t => t.outcome.transactionId.bytes.bytes).Nodup := by
  have distinct := h.transactionIds.map (f := fun id : TransactionId => id.bytes.bytes) fun a b same =>
    Identity.ext (Octets.ext same)
  rwa [map_map] at distinct

theorem Coherent.outcomeKeys (h : Coherent scope ts) : (ts.map fun t => t.retryKey.bytes).Nodup := by
  have distinct := h.retryKeys.map (f := RetryKey.bytes) fun a b => RetryKey.bytes_injective a b
  rwa [map_map] at distinct

theorem Coherent.outcome_le (h : Coherent scope ts) (mem : t ∈ upTo revision ts) : t.outcome.revision.value ≤ revision.value := by
  obtain ⟨there, below⟩ := mem_filter.mp mem
  rw [h.outcomes t there]
  exact of_decide_eq_true below

end Transactions

variable {recovery : AuthenticatedIndexRecovery}

theorem checkIndexedTransaction_ok
    (certified : recovery.anchors.Certified root) (found : root.runs[familyOnly]? = some contents) :
    checkIndexedTransaction recovery root t = .ok () ↔
      (t.revision = root.anchor.revision → t.certificateDigest = root.anchor.certificateDigest) ∧
      contents[t.outcome.transactionId.bytes.bytes]? = some (transactionValue t.principal t.outcome) := by
  have head : slice (transactionValue t.principal t.outcome) 0 32 = t.principal.bytes.bytes := slice_here (by simp)
  have rest : (transactionValue t.principal t.outcome).drop 32 = outcomeValue t.outcome := drop_left' (by simp)
  have length : (transactionValue t.principal t.outcome).length = transactionValueBytes := by
    simp [transactionValue, length_outcomeValue, outcomeValueBytes, transactionValueBytes]
  simp only [checkIndexedTransaction, indexGet_eq certified found, ok_bind, bind_eq_ok, require_ok, orError_ok, exists_const]
  refine and_congr_right fun _ => ⟨?_, fun there => ⟨_, there, length, head, rest⟩⟩
  rintro ⟨value, there, -, head, rest⟩
  rw [there, ← take_append_drop 32 value, rest]
  exact congrArg (fun bytes => some (bytes ++ _)) head

theorem admitTransactionIndex_ok [Primitives] {ts : List RecoveredTransaction}
    {limits : CoordinatorTransactionAdmissionLimits} {index : CoordinatorTransactionIndex} (reads : Reads recovery ts) :
    admitCoordinatorTransactionIndexForRecovery recovery root limits = .ok index ↔
      index = ⟨root⟩ ∧ root.anchor.revision.value ≤ limits.maximumGroups ∧ TransactionRoot recovery ts root := by
  have keys := (reads.coherent.restrict root.anchor.revision).transactionKeys
  simp only [admitCoordinatorTransactionIndexForRecovery, bind_eq_ok, require_ok, exists_const, visitIndexRun_ok, pure_eq_ok,
    any_decide, soleRun_eq]
  constructor
  · rintro ⟨⟨inScope, profile, contents, runs, size⟩, enough, ⟨certified, -⟩, _, passed, rfl⟩
    obtain ⟨within, -⟩ := reads.of_certificate certified.2
    have each := foldlM_unit_iff.mp ((reads.visitReverse within enough).mp passed)
    refine ⟨rfl, enough, inScope, profile, certified.2, ?_⟩
    rw [runs]
    refine congrArg _ ((eq_tabulate_iff keys).mpr ⟨?_, fun t mem => ?_⟩)
    · rw [size, reads.coherent.length_upTo within]
    · exact ((checkIndexedTransaction_ok certified (runs_singleton runs)).mp (each t (mem_reverse.mpr mem))).2
  · rintro ⟨rfl, enough, exact⟩
    have certified : recovery.anchors.Certified root := ⟨congrArg _ exact.inScope, exact.certified⟩
    obtain ⟨within, own, member, at_, digest⟩ := reads.of_certificate exact.certified
    have found := runs_singleton exact.runs
    refine ⟨⟨exact.inScope, exact.profile, _, exact.runs, ?_⟩, enough, ⟨certified, _, found, fun key value there => ?_⟩, (),
      (reads.visitReverse within enough).mpr (foldlM_unit_iff.mpr fun t mem => ?_), rfl⟩
    · rw [transactionFamily, tabulate_size keys, reads.coherent.length_upTo within]
    · obtain ⟨t, mem, rfl, rfl⟩ := (tabulate_getElem? keys key value).mp there
      have decoded : decodeTransaction (transactionValue t.principal t.outcome) root.anchor.revision =
          .ok (t.principal, t.outcome) := decodeTransaction_ok.mpr ⟨rfl, reads.coherent.outcome_le mem⟩
      simp [checkTransactionEntry, decoded]
    · have there := mem_reverse.mp mem
      refine (checkIndexedTransaction_ok certified found).mpr ⟨fun same => ?_, tabulate_found keys there⟩
      rw [reads.coherent.revision_unique (mem_filter.mp there).1 member (same.trans at_.symm), digest]

/-! ### The parts of a metadata root -/

section Parts

variable {recovery : AuthenticatedIndexRecovery} {candidate : RecoveredIndexRoot} {head : MetadataHead}

theorem toList_eq_singleton {contents : Family} {key value : List UInt8} :
    contents.toList = [(key, value)] ↔ contents = (∅ : Family).insert key value := by
  have single : ((∅ : Family).insert key value).toList = [(key, value)] :=
    perm_singleton.mp (Totals.perm_insert (m := (∅ : Family)) (k := key) (by simp) value)
  constructor
  · intro only
    apply ExtTreeMap.ext_getElem?
    intro k
    ext a
    rw [← ExtTreeMap.mem_toList_iff_getElem?_eq_some, ← ExtTreeMap.mem_toList_iff_getElem?_eq_some, only, single]
  · rintro rfl
    exact single

theorem readHead_ok : readHead recovery candidate = .ok head ↔ recovery.anchors.Certified candidate ∧ ∃ value,
    candidate.runs[familyMetadata]? = some ((∅ : Family).insert metadataKey value) ∧
    parseMetadata value candidate.anchor.revision = .ok head := by
  simp only [readHead, CertificateAnchors.visitFamily, CertificateAnchors.visitIndexRun, bind_eq_ok, mapError_ok_iff, indexRun_ok,
    require_ok, orError_ok, pure_eq_ok, exists_const]
  constructor
  · rintro ⟨_, ⟨contents, ⟨certified, run⟩, -, _, ⟨_, ⟨-, run'⟩, passed⟩, size, rfl⟩, rfl⟩
    rw [run] at run'
    cases run'
    rw [← ExtTreeMap.length_toList, length_eq_one_iff] at size
    obtain ⟨⟨key, value⟩, only⟩ := size
    simp [only] at passed
    obtain ⟨rfl, parses⟩ := passed
    exact ⟨certified, value, by rw [run, toList_eq_singleton.mp only], parses⟩
  · rintro ⟨certified, value, run, parses⟩
    have only : ((∅ : Family).insert metadataKey value).toList = [(metadataKey, value)] := toList_eq_singleton.mpr rfl
    have size : ((∅ : Family).insert metadataKey value).size = 1 := by rw [← ExtTreeMap.length_toList, only, length_singleton]
    exact ⟨some head, ⟨_, ⟨certified, run⟩, size.le, _, ⟨_, ⟨certified, run⟩, by simp [only, parses]⟩, size, rfl⟩, rfl⟩

def Shaped (candidate : RecoveredIndexRoot) (head : MetadataHead) : Prop :=
  ∀ family, candidate.runs[family]?.map (·.size) = if head.entries family = 0 then none else some (head.entries family)

theorem shaped_iff : Shaped candidate head ↔
    (∀ run ∈ candidate.runs.toList, head.entries run.1 ≠ 0 ∧ run.2.size = head.entries run.1) ∧
    ∀ family ∈ [familyMetadata, familyOutcome, familyBlobOwner], family ∈ candidate.runs ↔ head.entries family ≠ 0 := by
  constructor
  · intro shaped
    constructor
    · rintro ⟨family, contents⟩ mem
      have found := ExtTreeMap.mem_toList_iff_getElem?_eq_some.mp mem
      have size := shaped family
      rw [found, Option.map_some] at size
      split at size
      · cases size
      · rename_i some
        exact ⟨some, Option.some.inj size⟩
    · intro family _
      have size := shaped family
      rw [ExtTreeMap.mem_iff_isSome_getElem?]
      split at size
      · rename_i none
        simp [Option.map_eq_none_iff.mp size, none]
      · rename_i some
        obtain ⟨contents, found, -⟩ := Option.map_eq_some_iff.mp size
        simp [found, some]
  · rintro ⟨runs, present⟩ family
    cases found : candidate.runs[family]? with
    | some contents =>
      obtain ⟨some, size⟩ := runs (family, contents) (ExtTreeMap.mem_toList_iff_getElem?_eq_some.mpr found)
      rw [if_neg some, Option.map_some, size]
    | none =>
      have absent : family ∉ candidate.runs := not_mem_of_none found
      rw [if_pos, Option.map_none]
      by_cases listed : family ∈ [familyMetadata, familyOutcome, familyBlobOwner]
      · by_contra some
        exact absent ((present family listed).mpr some)
      · simp only [mem_cons, not_mem_nil, or_false, not_or] at listed
        simp [MetadataHead.entries, listed.1, listed.2.1, listed.2.2]

structure Fits (limits : CoordinatorMetadataLoadLimits) (outcomes owners : Nat) : Prop where
  fewOutcomes : outcomes ≤ limits.maximumOutcomes
  fewOwners : owners ≤ limits.maximumBlobOwners
  fewEntries : 1 + outcomes + owners ≤ limits.maximumTotalEntries
  fewBytes : metadataLogicalBytes + outcomes * outcomeLogicalBytes + owners * ownerLogicalBytes ≤ limits.maximumLogicalBytes

theorem validateShape_ok {limits : CoordinatorMetadataLoadLimits} : validateShape candidate head limits = .ok () ↔
    Fits limits head.outcomes head.owners ∧
    head = ⟨head.outcomes, head.owners, head.outcomes * outcomeLogicalBytes, head.owners * ownerLogicalBytes⟩ ∧
    Shaped candidate head := by
  rw [shaped_iff]
  simp only [validateShape, bind_eq_ok, require_ok, exists_const, forM_ok_iff]
  constructor
  · rintro ⟨⟨a, b, c, d⟩, ⟨outcomeBytes, ownerBytes⟩, shaped⟩
    refine ⟨⟨a, b, c, d⟩, ?_, shaped⟩
    rw [← outcomeBytes, ← ownerBytes]
  · rintro ⟨⟨a, b, c, d⟩, same, shaped⟩
    exact ⟨⟨a, b, c, d⟩, ⟨congrArg _ same, congrArg _ same⟩, shaped⟩

end Parts

end Uste.Metadata
