import Uste.Metadata.Prefix

/-!
Changes to a family. A change says what it replaces; the coordinator only ever inserts, and the
report of a merge shows it.
-/

namespace Uste.Metadata

open Types Crypto Policy Storage Txn Std List

structure IndexDelta where
  key : List UInt8
  before : Option (List UInt8)
  after : Option (List UInt8)

def IndexDelta.insertion (key value : List UInt8) : IndexDelta := ⟨key, none, some value⟩

structure MergedIndexRun where
  contents : Family
  insertions : Nat
  replacements : Nat
  deletions : Nat

def applyDelta (merged : MergedIndexRun) (delta : IndexDelta) : Except StorageError MergedIndexRun :=
  match merged.contents[delta.key]?, delta.before, delta.after with
  | none, none, some value =>
    pure { merged with contents := merged.contents.insert delta.key value, insertions := merged.insertions + 1 }
  | some actual, some before, some value => do
    require (before = actual) .invalidState
    pure { merged with contents := merged.contents.insert delta.key value, replacements := merged.replacements + 1 }
  | some actual, some before, none => do
    require (before = actual) .invalidState
    pure { merged with contents := merged.contents.erase delta.key, deletions := merged.deletions + 1 }
  | _, _, _ => .error .invalidState

/-- The changes come in the order of their keys, so that each meets the base. -/
def mergeRun (base : Family) (deltas : List IndexDelta) : Except StorageError MergedIndexRun := do
  require (deltas.Pairwise fun a b => compare a.key b.key = .lt) .invalidState
  deltas.foldlM applyDelta ⟨base, 0, 0, 0⟩

/-- A merge without entries writes no run. -/
def exactMergedRun (merged : MergedIndexRun) (entries insertions : Nat) : Except TransactionError Family := do
  require (merged.contents.size = entries ∧ merged.insertions = insertions ∧ merged.replacements = 0 ∧ merged.deletions = 0)
    .integrityFailure
  require (merged.contents.size ≠ 0) .integrityFailure
  pure merged.contents

section Insertions

variable {δ : Type} {key value : δ → List UInt8} {items : List δ} {base : Family}

def InOrder (key : δ → List UInt8) (items : List δ) : Prop := items.Pairwise fun a b => compare (key a) (key b) = .lt

theorem InOrder.nodup (ordered : InOrder key items) : (items.map key).Nodup := by
  refine pairwise_map.mpr (ordered.imp fun {a b} less same => ?_)
  rw [same, ReflOrd.compare_self] at less
  cases less

def extend (key value : δ → List UInt8) (base : Family) (items : List δ) : Family :=
  items.foldl (fun family item => family.insert (key item) (value item)) base

theorem extend_tabulate {before : List δ} :
    extend key value (tabulate key value before) items = tabulate key value (before ++ items) := by
  simp [extend, tabulate, foldl_append]

theorem foldlM_insertions {merged final : MergedIndexRun} (nodup : (items.map key).Nodup) :
    (items.map fun item => IndexDelta.insertion (key item) (value item)).foldlM applyDelta merged = .ok final ↔
      (∀ item ∈ items, key item ∉ merged.contents) ∧
      final = { merged with
        contents := extend key value merged.contents items, insertions := merged.insertions + items.length } := by
  induction items generalizing merged with
  | nil =>
    simp only [map_nil, foldlM_nil, pure_eq_ok, extend, foldl_nil, length_nil]
    exact ⟨fun same => ⟨by simp, same.symm⟩, fun h => h.2.symm⟩
  | cons item rest ih =>
    obtain ⟨apart, nodup⟩ := nodup_cons.mp nodup
    rw [map_cons, foldlM_cons]
    cases found : merged.contents[key item]? with
    | some actual =>
      have there : key item ∈ merged.contents := mem_of_some found
      have refused : applyDelta merged (IndexDelta.insertion (key item) (value item)) = .error .invalidState := by
        simp [applyDelta, IndexDelta.insertion, found]
      rw [refused]
      constructor
      · rintro ⟨⟩
      · rintro ⟨absent, -⟩
        exact absurd there (absent item mem_cons_self)
    | none =>
      have new : key item ∉ merged.contents := not_mem_of_none found
      have step : applyDelta merged (IndexDelta.insertion (key item) (value item)) = .ok { merged with
          contents := merged.contents.insert (key item) (value item), insertions := merged.insertions + 1 } := by
        simp [applyDelta, IndexDelta.insertion, found]
      rw [step, ok_bind, ih nodup, forall_mem_cons]
      have others : (∀ other ∈ rest, key other ∉ merged.contents.insert (key item) (value item)) ↔
          ∀ other ∈ rest, key other ∉ merged.contents := by
        refine forall_congr' fun other => forall_congr' fun mem => not_congr ?_
        have different : compare (key item) (key other) ≠ .eq := by
          intro same
          apply apart
          rw [LawfulEqOrd.eq_of_compare same]
          exact mem_map_of_mem mem
        simp [different]
      rw [others, and_assoc, length_cons]
      simp only [extend, foldl_cons, new, not_false_eq_true, true_and, Nat.add_assoc, Nat.add_comm 1]

theorem mergeRun_insertions {merged : MergedIndexRun} :
    mergeRun base (items.map fun item => IndexDelta.insertion (key item) (value item)) = .ok merged ↔
      InOrder key items ∧ (∀ item ∈ items, key item ∉ base) ∧ merged = ⟨extend key value base items, items.length, 0, 0⟩ := by
  have ordered : (items.map fun item => IndexDelta.insertion (key item) (value item)).Pairwise
      (fun a b => compare a.key b.key = .lt) ↔ InOrder key items := pairwise_map
  simp only [mergeRun, bind_eq_ok, require_ok, exists_const, ordered]
  refine and_congr_right fun inOrder => ?_
  rw [foldlM_insertions inOrder.nodup]
  simp

theorem exactMergedRun_ok {contents family : Family} {entries inserted insertions : Nat} :
    exactMergedRun ⟨contents, inserted, 0, 0⟩ entries insertions = .ok family ↔
      family = contents ∧ contents.size = entries ∧ inserted = insertions ∧ entries ≠ 0 := by
  simp only [exactMergedRun, bind_eq_ok, require_ok, pure_eq_ok, exists_const]
  grind

end Insertions

end Uste.Metadata
