import Uste.Foundation.Maps

/-!
Totals over the values of a map, and what one insertion or removal makes of them.
-/

namespace Uste

open Std List ExtTreeMap

variable {κ α β : Type} [Ord κ] [TransOrd κ] [LawfulEqOrd κ]

namespace Totals

theorem nodup_toList (m : ExtTreeMap κ α) : m.toList.Nodup := by
  refine (distinct_keys_toList (t := m)).imp ?_
  rintro a b different rfl
  exact different ReflOrd.compare_self

variable {m : ExtTreeMap κ α}

theorem perm_of_mem {entries : List (κ × α)} (nodup : entries.Nodup)
    (same : ∀ k v, m[k]? = some v ↔ (k, v) ∈ entries) : m.toList.Perm entries := by
  refine (perm_ext_iff_of_nodup (nodup_toList m) nodup).mpr ?_
  rintro ⟨k, v⟩
  rw [mem_toList_iff_getElem?_eq_some]
  exact same k v

theorem perm_replace (m : ExtTreeMap κ α) (k : κ) (v : α) : (m.insert k v).toList.Perm ((k, v) :: (m.erase k).toList) := by
  refine perm_of_mem (nodup_cons.mpr ⟨by simp, nodup_toList _⟩) ?_
  intro k' v'
  rw [some_insert, mem_cons, mem_toList_iff_getElem?_eq_some, some_erase, Prod.mk.injEq, eq_comm, @eq_comm _ v]

variable {k : κ}

theorem perm_insert (absent : m[k]? = none) (v : α) : (m.insert k v).toList.Perm ((k, v) :: m.toList) := by
  have perm := perm_replace m k v
  rwa [erase_absent absent] at perm

variable {v : α}

theorem perm_erase (present : m[k]? = some v) : m.toList.Perm ((k, v) :: (m.erase k).toList) := by
  have perm := perm_replace m k v
  rwa [insert_same present] at perm

theorem flatMap_insert (f : κ × α → List β) {more : List β}
    (gains : f (k, v) = ((m[k]?).map fun old => f (k, old)).getD [] ++ more) :
    ((m.insert k v).toList.flatMap f).Perm (m.toList.flatMap f ++ more) := by
  apply ((perm_replace m k v).flatMap_right f).trans
  rw [flatMap_cons, gains]
  cases found : m[k]? with
  | none =>
    rw [erase_absent found]
    exact perm_append_comm
  | some old =>
    apply List.Perm.trans _ (((perm_erase found).flatMap_right f).symm.append_right more)
    rw [flatMap_cons, append_assoc, append_assoc]
    exact perm_append_comm.append_left _

theorem flatMap_insert_same (f : κ × α → List β) (same : f (k, v) = ((m[k]?).map fun old => f (k, old)).getD []) :
    ((m.insert k v).toList.flatMap f).Perm (m.toList.flatMap f) := by
  have perm := flatMap_insert f (same.trans (append_nil _).symm)
  rwa [append_nil] at perm

theorem size_eq_of_mem_iff {m' : ExtTreeMap κ β} (same : ∀ k, k ∈ m ↔ k ∈ m') : m.size = m'.size := by
  have perm : m.keys.Perm m'.keys := by
    have nodup {γ : Type} (m : ExtTreeMap κ γ) : m.keys.Nodup := by
      apply (distinct_keys (t := m)).imp
      intro a b different same
      exact different (same ▸ ReflOrd.compare_self)
    apply (perm_ext_iff_of_nodup (nodup m) (nodup m')).mpr
    intro k
    rw [ExtTreeMap.mem_keys, ExtTreeMap.mem_keys, same]
  have lengths := perm.length_eq
  rwa [length_keys, length_keys] at lengths

end Totals

def total (f : α → Nat) (m : ExtTreeMap κ α) : Nat := (m.toList.map fun entry => f entry.2).sum

section

variable {m : ExtTreeMap κ α} {k : κ} {v : α} (f : α → Nat)

theorem total_insert_new (absent : m[k]? = none) (v : α) : total f (m.insert k v) = f v + total f m := by
  unfold total
  rw [((Totals.perm_insert absent v).map _).sum_eq]
  simp

theorem total_erase (present : m[k]? = some v) : total f m = f v + total f (m.erase k) := by
  unfold total
  rw [((Totals.perm_erase present).map _).sum_eq]
  simp

theorem total_replace (present : m[k]? = some v) (v' : α) : total f (m.insert k v') + f v = total f m + f v' := by
  have erased : (m.erase k)[k]? = none := by simp
  have same : m.insert k v' = (m.erase k).insert k v' := by
    refine ext_getElem? fun k' => ?_
    simp only [ExtTreeMap.getElem?_insert, ExtTreeMap.getElem?_erase]
    split <;> rfl
  rw [same, total_insert_new f erased, total_erase f present]
  omega

end

theorem sum_at [DecidableEq κ] (m : ExtTreeMap κ α) (k : κ) (f : α → Nat) :
    (m.toList.map fun entry => if entry.1 = k then f entry.2 else 0).sum = (m[k]?.map f).getD 0 := by
  have elsewhere (entries : List (κ × α)) (apart : ∀ entry ∈ entries, entry.1 ≠ k) :
      (entries.map fun entry => if entry.1 = k then f entry.2 else 0).sum = 0 := by
    refine sum_eq_zero fun n mem => ?_
    obtain ⟨entry, there, rfl⟩ := mem_map.mp mem
    exact if_neg (apart entry there)
  cases found : m[k]? with
  | some v =>
    rw [((Totals.perm_erase found).map _).sum_eq, map_cons, sum_cons, if_pos rfl, elsewhere]
    · rfl
    · rintro ⟨k', v'⟩ mem rfl
      simp at mem
  | none =>
    rw [elsewhere]
    · rfl
    · rintro ⟨k', v'⟩ mem rfl
      rw [mem_toList_iff_getElem?_eq_some, found] at mem
      cases mem

/-- Items counted key by key, over the keys whose value has a weight, are the items whose key has such a value. -/
theorem sum_countP [DecidableEq κ] (m : ExtTreeMap κ α) (weight : α → Bool) (items : List β) (key : β → κ) (p : β → Bool) :
    (m.toList.map fun entry =>
      if weight entry.2 = true then items.countP (fun item => p item && decide (key item = entry.1)) else 0).sum =
      items.countP fun item => p item && (m[key item]?).any weight := by
  induction items with
  | nil =>
    refine sum_eq_zero fun n mem => ?_
    obtain ⟨entry, -, rfl⟩ := mem_map.mp mem
    simp
  | cons item items ih =>
    rw [countP_cons, ← ih]
    have own := sum_at m (key item) fun v => if (p item && weight v) = true then 1 else 0
    have split : (if (p item && (m[key item]?).any weight) = true then 1 else 0) =
        ((m[key item]?).map fun v => if (p item && weight v) = true then 1 else 0).getD 0 := by
      cases m[key item]? <;> simp
    rw [split, ← own, ← sum_map_add]
    refine congrArg List.sum (map_congr_left fun entry _ => ?_)
    rw [countP_cons]
    by_cases heavy : weight entry.2 = true
    · by_cases here : entry.1 = key item
      · simp [heavy, here]
      · simp [heavy, here, Ne.symm here]
    · simp [heavy]

/-! ### Counting in a list one item of which is replaced or removed -/

section

variable {items : List α} {i : Nat} {a : α} (p : α → Bool)

theorem countP_eraseIdx (found : items[i]? = some a) :
    items.countP p = (if p a = true then 1 else 0) + (items.eraseIdx i).countP p := by
  obtain ⟨bound, rfl⟩ := List.getElem?_eq_some_iff.mp found
  rw [← (getElem_cons_eraseIdx_perm bound).countP_eq p, countP_cons, Nat.add_comm]

theorem countP_set_of_found (found : items[i]? = some a) (b : α) :
    (items.set i b).countP p = (if p b = true then 1 else 0) + (items.eraseIdx i).countP p := by
  obtain ⟨bound, rfl⟩ := List.getElem?_eq_some_iff.mp found
  rw [(set_perm_cons_eraseIdx bound b).countP_eq p, countP_cons, Nat.add_comm]

end

end Uste
