import Uste.Metadata.Prefix

/-!
First owners proved by counting. A pass over the journal finds an owner and a first revision for
every reference, none later than the reference itself, and counts the references that have the
first revision of their blob. Where the count is the size of both families, they are the owners and
the first revisions the journal determines.
-/

namespace Uste.Metadata

open Types Crypto Policy Storage Txn Std List

/-- What is found for a reference of a transaction. -/
structure Witnessed (owners firsts : Family) (t : RecoveredTransaction) (r : BlobReference) (principal : PrincipalDigest)
    (first : CommitRevision) : Prop where
  owner : owners[r.id.bytes]? = some (ownerValue r principal)
  revision : firsts[r.id.bytes]? = some (bigEndian 8 first.value)
  le : first.value ≤ t.revision.value
  own : first = t.revision → principal = t.principal

def claims (firsts : Family) (t : RecoveredTransaction) (r : BlobReference) : Bool :=
  firsts[r.id.bytes]? = some (bigEndian 8 t.revision.value)

def claimed (firsts : Family) (ts : List RecoveredTransaction) : List FirstReference :=
  ts.flatMap fun t => (t.references.filter (claims firsts t)).map fun r => ⟨t, r⟩

section

variable {scope : NamespaceRef} {ts : List RecoveredTransaction} {t : RecoveredTransaction} {r : BlobReference}
  {f : FirstReference} {owners firsts : Family}

theorem revisionBytes_inj {a b : CommitRevision} (same : bigEndian 8 a.value = bigEndian 8 b.value) : a = b := by
  have values := congrArg ofBigEndian same
  rw [ofBigEndian_bigEndian a.fits, ofBigEndian_bigEndian b.fits] at values
  exact CommitRevision.ext values

theorem claims_iff {firsts : Family} {first : CommitRevision} (found : firsts[r.id.bytes]? = some (bigEndian 8 first.value)) :
    claims firsts t r = true ↔ first = t.revision := by
  rw [claims, found, decide_eq_true_eq, Option.some.injEq]
  exact ⟨revisionBytes_inj, fun same => by rw [same]⟩

theorem mem_claimed : f ∈ claimed firsts ts ↔ f.transaction ∈ ts ∧ f.reference ∈ f.transaction.references ∧
    firsts[f.reference.id.bytes]? = some (bigEndian 8 f.transaction.revision.value) := by
  unfold claimed claims
  simp only [mem_flatMap, mem_map, mem_filter, decide_eq_true_eq]
  constructor
  · rintro ⟨t, mem, r, ⟨there, first⟩, rfl⟩
    exact ⟨mem, there, first⟩
  · rintro ⟨mem, there, first⟩
    exact ⟨f.transaction, mem, f.reference, ⟨there, first⟩, rfl⟩

theorem length_claimed (firsts : Family) (ts : List RecoveredTransaction) : (claimed firsts ts).length =
      (ts.map fun t => (t.references.map fun r => if claims firsts t r then 1 else 0).sum).sum := by
  unfold claimed
  rw [length_flatMap]
  congr 1
  refine map_congr_left fun t _ => ?_
  rw [length_map, ← countP_eq_length_filter]
  induction t.references with
  | nil => rfl
  | cons r rest ih => rw [countP_cons, map_cons, sum_cons, ih, Nat.add_comm]

theorem claimed_nodup (h : Coherent scope ts) : ((claimed firsts ts).map (·.reference.id)).Nodup := by
  unfold claimed
  rw [map_flatMap, nodup_flatMap]
  constructor
  · intro t _
    rw [map_map]
    exact t.references_nodup.sublist (List.Sublist.map _ filter_sublist)
  · refine h.ordered.imp fun {t t'} less => ?_
    intro id here there
    simp only [map_map, mem_map, mem_filter, Function.comp_apply] at here there
    obtain ⟨r, ⟨-, first⟩, rfl⟩ := here
    obtain ⟨r', ⟨-, first'⟩, same⟩ := there
    have first := of_decide_eq_true first
    have first' := of_decide_eq_true first'
    rw [same, first] at first'
    have equal := revisionBytes_inj (Option.some.inj first')
    rw [equal] at less
    exact Nat.lt_irrefl _ less

theorem firstReferenceKeys_nodup (ts : List RecoveredTransaction) :
    ((firstReferences ts).map fun f => f.reference.id.bytes).Nodup := by
  have distinct := (firstReferences_nodup ts).map (f := fun id : BlobId => id.bytes) fun a b => Octets.ext
  rwa [map_map] at distinct

theorem claimed_subset : (claimed firsts ts).map (·.reference.id) ⊆ (firstReferences ts).map (·.reference.id) := by
  intro id there
  obtain ⟨c, counted, rfl⟩ := mem_map.mp there
  obtain ⟨transaction, reference, -⟩ := mem_claimed.mp counted
  obtain ⟨f, first, same⟩ := firstReferences_covers transaction reference
  exact mem_map.mpr ⟨f, first, same⟩

section

variable (h : Coherent scope ts)

include h

theorem claimed_le : (claimed firsts ts).length ≤ (firstReferences ts).length := by
  have inside : (claimed firsts ts).map (·.reference.id) ⊆ (firstReferences ts).map (·.reference.id) := claimed_subset
  simpa using (claimed_nodup h).length_le_of_subset inside

theorem claimed_covers (enough : (firstReferences ts).length ≤ (claimed firsts ts).length)
    (mem : f ∈ firstReferences ts) : ∃ c ∈ claimed firsts ts, c.reference.id = f.reference.id := by
  have perm := ((claimed_nodup h).subperm claimed_subset).perm_of_length_le (by simpa using enough)
  exact mem_map.mp (perm.mem_iff.mpr (mem_map_of_mem mem))

theorem families_of_witnessed
    (each : ∀ t ∈ ts, ∀ r ∈ t.references, ∃ principal first, Witnessed owners firsts t r principal first)
    (sizes : firsts.size = owners.size) (count : (claimed firsts ts).length = owners.size) :
    owners = ownerFamily ts ∧ firsts = firstReferenceFamily ts ∧ owners.size = (firstReferences ts).length := by
  have known : ∀ f ∈ firstReferences ts, f.reference.id.bytes ∈ owners := by
    intro f mem
    obtain ⟨transaction, reference⟩ := firstReferences_mem mem
    obtain ⟨principal, first, witnessed⟩ := each _ transaction _ reference
    exact mem_of_some witnessed.owner
  have few : (firstReferences ts).length ≤ owners.size := by
    rw [← ExtTreeMap.length_keys, ← length_map (f := fun f : FirstReference => f.reference.id.bytes)]
    refine (firstReferenceKeys_nodup ts).length_le_of_subset fun key there => ?_
    obtain ⟨f, mem, rfl⟩ := mem_map.mp there
    exact ExtTreeMap.mem_keys.mpr (known f mem)
  have all : ∀ f ∈ firstReferences ts, Witnessed owners firsts f.transaction f.reference f.transaction.principal
      f.transaction.revision := by
    intro f mem
    obtain ⟨c, counted, same⟩ := claimed_covers h (few.trans count.ge) mem
    obtain ⟨later, reference, revision⟩ := mem_claimed.mp counted
    obtain ⟨transaction, own⟩ := firstReferences_mem mem
    obtain ⟨principal, first, witnessed⟩ := each _ transaction _ own
    have found := witnessed.revision
    rw [← same, revision] at found
    obtain rfl := revisionBytes_inj (Option.some.inj found)
    have earliest := firstReferences_earliest h.ordered mem later reference same
    have equal : c.transaction.revision = f.transaction.revision := CommitRevision.ext (Nat.le_antisymm witnessed.le earliest)
    obtain rfl := witnessed.own equal
    rwa [equal] at witnessed
  have exactly : owners.size = (firstReferences ts).length := Nat.le_antisymm (count ▸ claimed_le h) few
  refine ⟨?_, ?_, exactly⟩
  · exact (eq_tabulate_iff (firstReferenceKeys_nodup ts)).mpr ⟨exactly, fun f mem => (all f mem).owner⟩
  · exact (eq_tabulate_iff (firstReferenceKeys_nodup ts)).mpr ⟨sizes.trans exactly, fun f mem => (all f mem).revision⟩

theorem families_witnessed : (∀ t ∈ ts, ∀ r ∈ t.references, ∃ principal first,
      Witnessed (ownerFamily ts) (firstReferenceFamily ts) t r principal first) ∧
    (claimed (firstReferenceFamily ts) ts).length = (firstReferences ts).length := by
  have keys := firstReferenceKeys_nodup ts
  constructor
  · intro t mem r there
    obtain ⟨f, first, same⟩ := firstReferences_covers mem there
    obtain ⟨transaction, reference⟩ := firstReferences_mem first
    have equal : f.reference = r := h.agree _ transaction _ mem _ reference _ there same
    refine ⟨f.transaction.principal, f.transaction.revision, ?_, ?_,
      firstReferences_earliest h.ordered first mem there same.symm, fun at_ => ?_⟩
    · rw [← equal]
      exact tabulate_found keys first
    · rw [← equal]
      exact tabulate_found keys first
    · rw [h.revision_unique transaction mem at_]
  · refine Nat.le_antisymm (claimed_le h) ?_
    have inside : (firstReferences ts).map (·.reference.id) ⊆
        (claimed (firstReferenceFamily ts) ts).map (·.reference.id) := by
      intro id there
      obtain ⟨f, first, rfl⟩ := mem_map.mp there
      obtain ⟨transaction, reference⟩ := firstReferences_mem first
      exact mem_map.mpr ⟨f, mem_claimed.mpr ⟨transaction, reference, tabulate_found keys first⟩, rfl⟩
    simpa using (firstReferences_nodup ts).length_le_of_subset inside

end

end

end Uste.Metadata
