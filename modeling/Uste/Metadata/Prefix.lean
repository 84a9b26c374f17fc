import Uste.Metadata.Format
import Uste.Txn.Replay

/-!
What a prefix of the journal determines: one outcome per transaction, and per blob the transaction
that refers to it first. The families of the coordinator's metadata list exactly these.
-/

namespace Uste.Metadata

open Types Crypto Policy Storage Txn Std List

abbrev Family := ExtTreeMap (List UInt8) (List UInt8)

structure RecoveredTransaction where
  scope : NamespaceRef
  revision : CommitRevision
  certificateDigest : Octets 32
  principal : PrincipalDigest
  idempotencyKey : IdempotencyKey
  outcome : TransactionOutcome
  canonicalRequest : List UInt8
  blobInventory : Option BlobInventory
  deriving DecidableEq

namespace RecoveredTransaction

def references (t : RecoveredTransaction) : List BlobReference := referencesOf t.blobInventory

def retryKey (t : RecoveredTransaction) : RetryKey := ⟨t.principal, t.idempotencyKey⟩

theorem references_nodup (t : RecoveredTransaction) : (t.references.map (·.id)).Nodup := by
  unfold references
  cases t.blobInventory with
  | none => exact nodup_nil
  | some inventory =>
    refine List.Pairwise.map _ ?_ inventory.valid.sorted
    intro a b less same
    rw [same, ReflOrd.compare_self] at less
    cases less

end RecoveredTransaction

def captureGroup [Primitives] (scope : NamespaceRef) (group : RecoveredGroup) : Except StorageError RecoveredTransaction := do
  let decoded ← decodeRecoveredGroup scope group
  pure ⟨scope, group.revision, group.certificateDigest, decoded.retryKey.principal, decoded.retryKey.key, decoded.outcome,
    decoded.request, decoded.blobInventory⟩

/-! ### First references -/

structure FirstReference where
  transaction : RecoveredTransaction
  reference : BlobReference

def newReferences (found : List FirstReference) (t : RecoveredTransaction) : List FirstReference :=
  (t.references.filter fun r => decide (∀ f ∈ found, f.reference.id ≠ r.id)).map fun r => ⟨t, r⟩

def firstReferences (transactions : List RecoveredTransaction) : List FirstReference :=
  transactions.foldl (fun found t => found ++ newReferences found t) []

section FirstReferences

variable {ts : List RecoveredTransaction} {t : RecoveredTransaction} {r : BlobReference} {f : FirstReference}

theorem firstReferences_snoc (ts : List RecoveredTransaction) (t : RecoveredTransaction) :
    firstReferences (ts ++ [t]) = firstReferences ts ++ newReferences (firstReferences ts) t := by
  simp [firstReferences, foldl_append]

theorem mem_newReferences {found : List FirstReference} : f ∈ newReferences found t ↔
    f.transaction = t ∧ f.reference ∈ t.references ∧ ∀ g ∈ found, g.reference.id ≠ f.reference.id := by
  unfold newReferences
  simp only [mem_map, mem_filter, decide_eq_true_eq]
  constructor
  · rintro ⟨r, ⟨mem, new⟩, rfl⟩
    exact ⟨rfl, mem, new⟩
  · rintro ⟨rfl, mem, new⟩
    exact ⟨f.reference, ⟨mem, new⟩, rfl⟩

theorem firstReferences_mem (h : f ∈ firstReferences ts) : f.transaction ∈ ts ∧ f.reference ∈ f.transaction.references := by
  induction ts using List.reverseRecOn with
  | nil => cases h
  | append_singleton ts t ih =>
    rw [firstReferences_snoc, mem_append] at h
    rcases h with h | h
    · exact ⟨mem_append_left _ (ih h).1, (ih h).2⟩
    · obtain ⟨rfl, mem, -⟩ := mem_newReferences.mp h
      exact ⟨by simp, mem⟩

theorem firstReferences_covers (h : t ∈ ts) (mem : r ∈ t.references) : ∃ f ∈ firstReferences ts, f.reference.id = r.id := by
  induction ts using List.reverseRecOn with
  | nil => cases h
  | append_singleton ts last ih =>
    rw [firstReferences_snoc]
    rcases mem_append.mp h with h | h
    · obtain ⟨f, there, same⟩ := ih h
      exact ⟨f, mem_append_left _ there, same⟩
    · obtain rfl := mem_singleton.mp h
      by_cases known : ∃ f ∈ firstReferences ts, f.reference.id = r.id
      · obtain ⟨f, there, same⟩ := known
        exact ⟨f, mem_append_left _ there, same⟩
      · refine ⟨⟨t, r⟩, mem_append_right _ (mem_newReferences.mpr ⟨rfl, mem, ?_⟩), rfl⟩
        exact fun g there same => known ⟨g, there, same⟩

theorem firstReferences_nodup (ts : List RecoveredTransaction) : ((firstReferences ts).map (·.reference.id)).Nodup := by
  induction ts using List.reverseRecOn with
  | nil => exact nodup_nil
  | append_singleton ts t ih =>
    rw [firstReferences_snoc, map_append, nodup_append]
    refine ⟨ih, ?_, ?_⟩
    · have own : (newReferences (firstReferences ts) t).map (·.reference.id) =
          (t.references.filter fun r => decide (∀ f ∈ firstReferences ts, f.reference.id ≠ r.id)).map (·.id) := by
        simp [newReferences]
      rw [own]
      exact t.references_nodup.sublist (List.Sublist.map _ filter_sublist)
    · intro id earlier id' new
      obtain ⟨f, there, rfl⟩ := mem_map.mp earlier
      obtain ⟨g, here, rfl⟩ := mem_map.mp new
      exact (mem_newReferences.mp here).2.2 f there

theorem firstReference_unique {g : FirstReference} (hf : f ∈ firstReferences ts) (hg : g ∈ firstReferences ts)
    (same : f.reference.id = g.reference.id) : f = g :=
  inj_on_of_nodup_map (firstReferences_nodup ts) hf hg same

theorem firstReferences_earliest (ordered : ts.Pairwise fun a b => a.revision.value < b.revision.value)
    (there : f ∈ firstReferences ts) (h : t ∈ ts) (mem : r ∈ t.references) (same : r.id = f.reference.id) :
    f.transaction.revision.value ≤ t.revision.value := by
  induction ts using List.reverseRecOn with
  | nil => cases h
  | append_singleton ts last ih =>
    obtain ⟨before, -, later⟩ := pairwise_append.mp ordered
    rw [firstReferences_snoc, mem_append] at there
    rcases there with there | there
    · rcases mem_append.mp h with h | h
      · exact ih before there h
      · obtain rfl := mem_singleton.mp h
        exact (later _ (firstReferences_mem there).1 _ mem_cons_self).le
    · obtain ⟨rfl, -, new⟩ := mem_newReferences.mp there
      rcases mem_append.mp h with h | h
      · obtain ⟨g, known, there⟩ := firstReferences_covers h mem
        exact absurd (there.trans same) (new g known)
      · rw [mem_singleton.mp h]

end FirstReferences

/-! ### The families of a prefix -/

def outcomeFamily (ts : List RecoveredTransaction) : Family :=
  tabulate (fun t => t.retryKey.bytes) (fun t => outcomeValue t.outcome) ts

def transactionFamily (ts : List RecoveredTransaction) : Family :=
  tabulate (fun t => t.outcome.transactionId.bytes.bytes) (fun t => transactionValue t.principal t.outcome) ts

def ownerFamily (ts : List RecoveredTransaction) : Family :=
  tabulate (fun f => f.reference.id.bytes) (fun f => ownerValue f.reference f.transaction.principal) (firstReferences ts)

def firstReferenceFamily (ts : List RecoveredTransaction) : Family :=
  tabulate (fun f => f.reference.id.bytes) (fun f => bigEndian 8 f.transaction.revision.value) (firstReferences ts)

def metadataFamily (revision : CommitRevision) (ts : List RecoveredTransaction) : Family :=
  (∅ : Family).insert metadataKey (metadataValue revision ts.length (firstReferences ts).length)

def upTo (revision : CommitRevision) (ts : List RecoveredTransaction) : List RecoveredTransaction :=
  ts.filter fun t => t.revision.value ≤ revision.value

theorem take_range'_one (k n : Nat) : (List.range' 1 n).take k = List.range' 1 (min k n) := by
  rcases Nat.le_total k n with less | more
  · obtain ⟨m, rfl⟩ := Nat.exists_eq_add_of_le less
    rw [← List.range'_append_1, take_left' (by simp), Nat.min_eq_left less]
  · rw [take_of_length_le (by simpa using more), Nat.min_eq_right more]

/-- The transactions of a journal that one coordinator has written. -/
structure Coherent (scope : NamespaceRef) (ts : List RecoveredTransaction) : Prop where
  revisions : ts.map (·.revision.value) = List.range' 1 ts.length
  inScope : ∀ t ∈ ts, t.scope = scope
  outcomes : ∀ t ∈ ts, t.outcome.revision = t.revision
  retryKeys : (ts.map (·.retryKey)).Nodup
  transactionIds : (ts.map (·.outcome.transactionId)).Nodup
  shapes : ∀ t ∈ ts, ∀ r ∈ t.references, r.scope = scope ∧ r.validReferenceShape = true
  agree : ∀ t ∈ ts, ∀ t' ∈ ts, ∀ r ∈ t.references, ∀ r' ∈ t'.references, r.id = r'.id → r = r'
  fewTransactions : ts.length ≤ maxOutcomesPerNamespace
  fewBlobs : (firstReferences ts).length ≤ maxCommittedBlobsPerJournal

namespace Coherent

variable {scope : NamespaceRef} {ts : List RecoveredTransaction} {revision : CommitRevision} (h : Coherent scope ts)

include h

theorem ordered : ts.Pairwise fun a b => a.revision.value < b.revision.value := by
  have sorted : (ts.map (·.revision.value)).Pairwise (· < ·) := h.revisions ▸ pairwise_lt_range'
  exact pairwise_map.mp sorted

theorem revision_unique {t t' : RecoveredTransaction} (mem : t ∈ ts) (mem' : t' ∈ ts) (same : t.revision = t'.revision) :
    t = t' := by
  have nodup : (ts.map (·.revision.value)).Nodup := h.revisions ▸ nodup_range'
  exact inj_on_of_nodup_map nodup mem mem' (congrArg _ same)

theorem upTo_eq_take : upTo revision ts = ts.take revision.value := by
  have parts := take_append_drop revision.value ts
  have low : ∀ t ∈ ts.take revision.value, t.revision.value ≤ revision.value := by
    intro t mem
    have there : t.revision.value ∈ (ts.take revision.value).map (·.revision.value) := mem_map_of_mem mem
    rw [map_take, h.revisions, take_range'_one, mem_range'_1] at there
    omega
  have high : ∀ t ∈ ts.drop revision.value, ¬ t.revision.value ≤ revision.value := by
    intro t mem
    have there : t.revision.value ∈ (ts.drop revision.value).map (·.revision.value) := mem_map_of_mem mem
    rw [map_drop, h.revisions, drop_range', mem_range'_1] at there
    omega
  calc upTo revision ts = upTo revision (ts.take revision.value ++ ts.drop revision.value) := by rw [parts]
    _ = ts.take revision.value := by
      unfold upTo
      rw [filter_append, filter_eq_self.mpr (by simpa using low), filter_eq_nil_iff.mpr (by simpa using high),
        append_nil]

theorem length_upTo (within : revision.value ≤ ts.length) : (upTo revision ts).length = revision.value := by
  rw [h.upTo_eq_take, length_take]
  omega

end Coherent

theorem firstReferences_append (ts more : List RecoveredTransaction) :
    firstReferences ts <+: firstReferences (ts ++ more) := by
  induction more using List.reverseRecOn with
  | nil => simp
  | append_singleton more t ih =>
    rw [← append_assoc, firstReferences_snoc]
    exact ih.trans (prefix_append _ _)

theorem Coherent.of_append {scope : NamespaceRef} {ts more : List RecoveredTransaction} (h : Coherent scope (ts ++ more)) :
    Coherent scope ts where
  revisions := by
    have whole := congrArg (List.take ts.length) h.revisions
    rw [map_append, take_left' (by simp), take_range'_one, length_append] at whole
    rw [whole, Nat.min_eq_left (Nat.le_add_right _ _)]
  inScope t mem := h.inScope t (mem_append_left _ mem)
  outcomes t mem := h.outcomes t (mem_append_left _ mem)
  retryKeys := (nodup_append.mp (map_append ▸ h.retryKeys)).1
  transactionIds := (nodup_append.mp (map_append ▸ h.transactionIds)).1
  shapes t mem := h.shapes t (mem_append_left _ mem)
  agree t mem t' mem' := h.agree t (mem_append_left _ mem) t' (mem_append_left _ mem')
  fewTransactions := by
    have few := h.fewTransactions
    rw [length_append] at few
    omega
  fewBlobs := (firstReferences_append ts more).length_le.trans h.fewBlobs

theorem Coherent.restrict {scope : NamespaceRef} {ts : List RecoveredTransaction} (h : Coherent scope ts)
    (revision : CommitRevision) : Coherent scope (upTo revision ts) := by
  rw [h.upTo_eq_take]
  exact (take_append_drop revision.value ts ▸ h).of_append

end Uste.Metadata
