import Mathlib

/-! Ordered maps, entry by entry. -/

namespace Uste

open Std ExtTreeMap

variable {κ α : Type} {k : κ}

section

variable {cmp : κ → κ → Ordering} [TransCmp cmp] {m m' : ExtTreeMap κ α cmp} {a : α}

theorem mem_iff_exists : k ∈ m ↔ ∃ a, m[k]? = some a := by
  rw [mem_iff_isSome_getElem?, Option.isSome_iff_exists]

theorem mem_of_some (found : m[k]? = some a) : k ∈ m := mem_iff_exists.mpr ⟨a, found⟩

theorem not_mem_of_none (none : m[k]? = none) : k ∉ m := by
  rw [mem_iff_exists, none]
  exact nofun

theorem size_insert_new (new : k ∉ m) : (m.insert k a).size = m.size + 1 := by
  rw [size_insert, if_neg fun there => new (contains_iff_mem.mp there)]

section Steps

variable {R : κ → Option α → Option α → Prop} (step : ∀ k, R k m[k]? m'[k]?)

include step

theorem step_from (found : m'[k]? = some a) : ∃ old, m[k]? = old ∧ R k old (some a) := ⟨_, rfl, found ▸ step k⟩

theorem step_to (found : m[k]? = some a) : ∃ new, m'[k]? = new ∧ R k (some a) new := ⟨_, rfl, found ▸ step k⟩

end Steps

variable [LawfulEqCmp cmp] {j : κ} {b : α}

theorem ext_some (same : ∀ (k : κ) a, m[k]? = some a ↔ m'[k]? = some a) : m = m' :=
  ext_getElem? fun k => Option.ext (same k)

theorem getElem?_insert_ne (apart : k ≠ j) : (m.insert k a)[j]? = m[j]? := by
  rw [ExtTreeMap.getElem?_insert, if_neg fun same => apart (LawfulEqCmp.eq_of_compare same)]

theorem getElem?_erase_ne (apart : k ≠ j) : (m.erase k)[j]? = m[j]? := by
  rw [ExtTreeMap.getElem?_erase, if_neg fun same => apart (LawfulEqCmp.eq_of_compare same)]

theorem some_insert : (m.insert k a)[j]? = some b ↔ k = j ∧ a = b ∨ k ≠ j ∧ m[j]? = some b := by
  by_cases same : k = j
  · subst same
    simp
  · simp [getElem?_insert_ne same, same]

theorem some_erase : (m.erase k)[j]? = some b ↔ k ≠ j ∧ m[j]? = some b := by
  by_cases same : k = j
  · subst same
    simp
  · simp [getElem?_erase_ne same, same]

theorem some_insert_new (new : k ∉ m) (found : m[j]? = some b) : (m.insert k a)[j]? = some b :=
  some_insert.mpr (.inr ⟨fun same => new (same ▸ mem_of_some found), found⟩)

theorem some_insertIfNew : (m.insertIfNew k a)[j]? = some b ↔ m[j]? = some b ∨ k ∉ m ∧ k = j ∧ a = b := by
  rw [ExtTreeMap.getElem?_insertIfNew]
  split
  · rename_i new
    obtain rfl := LawfulEqCmp.eq_of_compare new.1
    simp [new.2]
  · rename_i old
    have apart : ¬ (k ∉ m ∧ k = j ∧ a = b) := fun ⟨absent, same, _⟩ => old ⟨same ▸ ReflCmp.compare_self, absent⟩
    simp only [apart, or_false]

theorem insertIfNew_new (absent : k ∉ m) : m.insertIfNew k a = m.insert k a := by
  apply ext_getElem?
  intro j
  simp only [ExtTreeMap.getElem?_insertIfNew, ExtTreeMap.getElem?_insert, absent, not_false_iff, and_true]

theorem insertIfNew_old (present : k ∈ m) : m.insertIfNew k a = m := by
  apply ext_getElem?
  intro j
  simp only [ExtTreeMap.getElem?_insertIfNew, present, not_true, and_false, if_false]

theorem insert_same (found : m[k]? = some a) : m.insert k a = m := by
  apply ext_getElem?
  intro j
  by_cases same : k = j
  · subst same
    simp [found]
  · exact getElem?_insert_ne same

theorem erase_absent (absent : m[k]? = none) : m.erase k = m := by
  apply ext_getElem?
  intro j
  by_cases same : k = j
  · subst same
    simp [absent]
  · exact getElem?_erase_ne same

theorem mem_insert_iff : j ∈ m.insert k a ↔ k = j ∨ j ∈ m := by
  rw [mem_insert, LawfulEqCmp.compare_eq_iff_eq]

theorem mem_reinsert (old : k ∈ m) : j ∈ m.insert k a ↔ j ∈ m := by
  rw [mem_insert_iff, or_iff_right_of_imp]
  rintro rfl
  exact old

section Listed

variable {δ : Type} {key : δ → κ} {value : δ → α} {items : List δ} {item : δ}
  (listed : ∀ k a, m[k]? = some a ↔ ∃ x ∈ items, key x = k ∧ value x = a) (absent : key item ∉ m)

include listed absent

omit [LawfulEqCmp cmp] in
theorem apart_of_absent : ∀ x ∈ items, key x ≠ key item := by
  intro x mem same
  exact absent (same ▸ mem_of_some ((listed _ _).mpr ⟨x, mem, rfl, rfl⟩))

theorem some_snoc (k : κ) (a : α) :
    (m.insert (key item) (value item))[k]? = some a ↔ ∃ x ∈ items ++ [item], key x = k ∧ value x = a := by
  have apart := apart_of_absent listed absent
  by_cases same : key item = k
  · subst same
    simpa [or_and_right, exists_or] using fun x mem same => absurd same (apart x mem)
  · simp [getElem?_insert_ne same, listed, or_and_right, exists_or, same]

omit [LawfulEqCmp cmp] in
theorem nodup_snoc (nodup : (items.map key).Nodup) : ((items ++ [item]).map key).Nodup := by
  simpa [List.nodup_append, nodup] using apart_of_absent listed absent

end Listed

end

section Pointwise

variable [Ord κ] [TransOrd κ] [LawfulEqOrd κ] {m : ExtTreeMap κ α} {R : κ → Option α → Option α → Prop} {a : α} (kept : ∀ k x, R k x x) (step : R k m[k]? (some a))

include kept step

theorem pointwise_insert (i : κ) : R i m[i]? (m.insert k a)[i]? := by
  by_cases same : k = i
  · subst same
    rwa [ExtTreeMap.getElem?_insert_self]
  · rw [getElem?_insert_ne same]
    exact kept _ _

theorem pointwise_insert_two {j : κ} {b : α} (other : R j m[j]? (some b)) (i : κ) : R i m[i]? ((m.insert k a).insert j b)[i]? := by
  by_cases same : j = i
  · subst same
    rwa [ExtTreeMap.getElem?_insert_self]
  · rw [getElem?_insert_ne same]
    exact pointwise_insert kept step i

end Pointwise

end Uste
