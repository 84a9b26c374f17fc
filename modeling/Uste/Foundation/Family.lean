import Uste.Foundation.Totals

/-!
Families: maps from keys to values that list the items of some sequence, each under its own key.
A map of the right size that has every item is the family of the items, and nothing else is in it.
-/

namespace Uste

open Std List

variable {κ α δ : Type} [Ord κ] [TransOrd κ] [LawfulEqOrd κ]

def tabulate (key : δ → κ) (value : δ → α) (items : List δ) : ExtTreeMap κ α :=
  items.foldl (fun family item => family.insert (key item) (value item)) ∅

section

variable {key : δ → κ} {value : δ → α} {items : List δ} {family : ExtTreeMap κ α}

omit [LawfulEqOrd κ] in
@[simp] theorem tabulate_nil : tabulate key value [] = (∅ : ExtTreeMap κ α) := rfl

omit [LawfulEqOrd κ] in
theorem tabulate_snoc (item : δ) :
    tabulate key value (items ++ [item]) = (tabulate key value items).insert (key item) (value item) := by
  simp [tabulate, foldl_append]

theorem tabulate_none {k : κ} (absent : ∀ item ∈ items, key item ≠ k) : (tabulate key value items)[k]? = none := by
  induction items using List.reverseRecOn with
  | nil => simp
  | append_singleton items item ih =>
    rw [tabulate_snoc, getElem?_insert_ne (absent item (by simp))]
    exact ih fun other mem => absent other (mem_append_left _ mem)

theorem tabulate_fresh {item : δ} (nodup : ((items ++ [item]).map key).Nodup) :
    (items.map key).Nodup ∧ key item ∉ tabulate key value items := by
  rw [map_append, nodup_append] at nodup
  obtain ⟨before, -, apart⟩ := nodup
  exact ⟨before, not_mem_of_none (tabulate_none fun other mem => apart _ (mem_map_of_mem mem) _ (by simp))⟩

section

variable (nodup : (items.map key).Nodup)

include nodup

theorem tabulate_getElem? (k : κ) (a : α) :
    (tabulate key value items)[k]? = some a ↔ ∃ item ∈ items, key item = k ∧ value item = a := by
  induction items using List.reverseRecOn generalizing k a with
  | nil => simp
  | append_singleton items item ih =>
    obtain ⟨before, absent⟩ := tabulate_fresh nodup
    rw [tabulate_snoc]
    exact some_snoc (ih before) absent k a

theorem tabulate_found {item : δ} (mem : item ∈ items) : (tabulate key value items)[key item]? = some (value item) :=
  (tabulate_getElem? nodup _ _).mpr ⟨item, mem, rfl, rfl⟩

theorem tabulate_size : (tabulate key value items).size = items.length := by
  induction items using List.reverseRecOn with
  | nil => simp
  | append_singleton items item ih =>
    obtain ⟨before, absent⟩ := tabulate_fresh nodup
    rw [tabulate_snoc, size_insert_new absent, ih before]
    simp

/-- Among as many entries as there are items, finding every item leaves no room for another. -/
theorem mem_of_found (count : family.size ≤ items.length)
    (found : ∀ item ∈ items, key item ∈ family) {k : κ} (mem : k ∈ family) : ∃ item ∈ items, key item = k := by
  by_contra missing
  have apart : k ∉ items.map key := by
    intro there
    obtain ⟨item, member, same⟩ := mem_map.mp there
    exact missing ⟨item, member, same⟩
  have inside : k :: items.map key ⊆ family.keys := by
    intro k' there
    rw [ExtTreeMap.mem_keys]
    rcases mem_cons.mp there with rfl | there
    · exact mem
    · obtain ⟨item, member, rfl⟩ := mem_map.mp there
      exact found item member
  have more := (nodup_cons.mpr ⟨apart, nodup⟩).length_le_of_subset inside
  rw [length_cons, length_map, ExtTreeMap.length_keys] at more
  omega

theorem eq_tabulate_iff : family = tabulate key value items ↔
      family.size = items.length ∧ ∀ item ∈ items, family[key item]? = some (value item) := by
  constructor
  · rintro rfl
    exact ⟨tabulate_size nodup, fun item mem => tabulate_found nodup mem⟩
  · rintro ⟨count, found⟩
    apply ExtTreeMap.ext_getElem?
    intro k
    cases here : family[k]? with
    | none =>
      refine (tabulate_none fun item mem same => ?_).symm
      rw [← same, found item mem] at here
      cases here
    | some a =>
      have present : ∀ item ∈ items, key item ∈ family := fun item mem => by
        exact mem_of_some (found item mem)
      obtain ⟨item, mem, rfl⟩ := mem_of_found nodup (Nat.le_of_eq count) present (k := k) (by
        exact mem_of_some here)
      rw [found item mem] at here
      cases here
      exact (tabulate_found nodup mem).symm

end

end

end Uste
