import Uste.Foundation.Program

/-!
Loops over the items of a collection that may go on, stop early or fail; and what two such loops
have in common when they differ only in items that the body passes over.
-/

namespace Uste

def loop {σ α ε : Type} (body : σ → α → Except ε (Bool × σ)) : List α → σ → Except ε σ
  | [], s => .ok s
  | a :: rest, s => do
    let (goOn, s') ← body s a
    if goOn then loop body rest s' else pure s'

namespace Loop

variable {σ α β ε : Type} {body body' : σ → α → Except ε (Bool × σ)} {items : List α} {s : σ}

@[simp] theorem loop_nil : loop body [] s = .ok s := rfl

theorem loop_cons {a : α} {rest : List α} : loop body (a :: rest) s = (do
    let (goOn, s') ← body s a
    if goOn then loop body rest s' else pure s') := rfl

theorem loop_congr (same : ∀ a ∈ items, ∀ s, body s a = body' s a) : loop body items s = loop body' items s := by
  induction items generalizing s with
  | nil => rfl
  | cons a rest ih =>
    have ih' (s : σ) := ih (s := s) fun b mem => same b (List.mem_cons_of_mem _ mem)
    rw [loop_cons, loop_cons, same a List.mem_cons_self]
    simp only [ih']

theorem loop_keeps {P : σ → Prop} (start : P s) (step : ∀ a ∈ items, ∀ s goOn s', P s → body s a = .ok (goOn, s') → P s')
    {s' : σ} (h : loop body items s = .ok s') : P s' := by
  induction items generalizing s with
  | nil =>
    cases h
    exact start
  | cons a rest ih =>
    obtain ⟨⟨goOn, next⟩, ran, h⟩ := bind_ok h
    have kept := step a List.mem_cons_self s goOn next start ran
    cases goOn with
    | false =>
      cases h
      exact kept
    | true => exact ih kept (fun b mem => step b (List.mem_cons_of_mem _ mem)) h

/-- What a loop collects, each at the end of what it has. -/
theorem loop_collects {P : β → Prop} (out : σ → List β) (start : out s = [])
    (step : ∀ a ∈ items, ∀ s goOn s', body s a = .ok (goOn, s') → out s' = out s ∨ ∃ b, P b ∧ out s' = out s ++ [b])
    {s' : σ} (h : loop body items s = .ok s') : ∀ b ∈ out s', P b := by
  refine loop_keeps (P := fun s => ∀ b ∈ out s, P b) (by simp [start]) (fun a mem s goOn s' kept ran => ?_) h
  rcases step a mem s goOn s' ran with same | ⟨b, holds, same⟩ <;> rw [same]
  · exact kept
  · simpa [or_imp, forall_and] using ⟨kept, holds⟩

/-- A body that shows some of its items and passes over the others runs on what it shows. -/
theorem loop_filterMap {view : α → Option β} {act : σ → β → Except ε (Bool × σ)}
    (skips : ∀ a ∈ items, view a = none → ∀ s, body s a = .ok (true, s))
    (acts : ∀ a ∈ items, ∀ b, view a = some b → ∀ s, body s a = act s b) :
    loop body items s = loop act (items.filterMap view) s := by
  induction items generalizing s with
  | nil => rfl
  | cons a rest ih =>
    have ih' (s : σ) := ih (s := s) (fun b mem => skips b (List.mem_cons_of_mem _ mem))
      fun b mem => acts b (List.mem_cons_of_mem _ mem)
    cases shown : view a with
    | none =>
      rw [List.filterMap_cons_none shown, loop_cons, skips a List.mem_cons_self shown s]
      exact ih' s
    | some b =>
      rw [List.filterMap_cons_some shown, loop_cons, loop_cons, acts a List.mem_cons_self b shown s]
      simp only [ih']

/-- A body that stops at the first item that fails a test runs up to there; where such items stay together at the end, it
runs on all the others. -/
theorem loop_until (view : α → β) (act : σ → β → Except ε (Bool × σ)) (p : α → Bool)
    (stops : ∀ a s, p a = false → body s a = .ok (false, s)) (acts : ∀ a s, p a = true → body s a = act s (view a))
    (order : items.Pairwise fun a b => p b = true → p a = true) :
    loop body items s = loop act (items.filterMap fun a => if p a then some (view a) else none) s := by
  induction items generalizing s with
  | nil => rfl
  | cons a rest ih =>
    obtain ⟨ahead, order⟩ := List.pairwise_cons.mp order
    cases keep : p a with
    | false =>
      have none : (a :: rest).filterMap (fun a => if p a then some (view a) else none) = [] := by
        apply List.filterMap_eq_nil_iff.mpr
        intro b mem
        apply if_neg
        intro passes
        obtain rfl | mem := List.mem_cons.mp mem
        · exact absurd passes (by simp [keep])
        · exact absurd (ahead b mem passes) (by simp [keep])
      rw [none, loop_cons, stops a s keep]
      rfl
    | true =>
      have shown : (if p a = true then some (view a) else none) = some (view a) := if_pos keep
      rw [List.filterMap_cons, shown, loop_cons, loop_cons, acts a s keep]
      simp only [fun s => ih (s := s) order]

end Loop

/-! ### Maps that show the same -/

section Maps

open Std List

variable {κ β₁ β₂ γ : Type} [Ord κ] [TransOrd κ] [LawfulEqOrd κ] {m₁ : ExtTreeMap κ β₁} {m₂ : ExtTreeMap κ β₂}

theorem toList_filterMap_eq {f₁ : κ → β₁ → Option γ} {f₂ : κ → β₂ → Option γ}
    (same : ∀ k, m₁[k]?.bind (f₁ k) = m₂[k]?.bind (f₂ k)) :
    m₁.toList.filterMap (fun p => f₁ p.1 p.2) = m₂.toList.filterMap (fun p => f₂ p.1 p.2) := by
  have maps : m₁.filterMap f₁ = m₂.filterMap f₂ := by
    refine ExtTreeMap.ext_getElem? fun k => ?_
    simpa using same k
  have lists := congrArg (fun m => m.toList.map Prod.snd) maps
  simpa [ExtTreeMap.toList_filterMap, map_filterMap, Function.comp_def] using lists

theorem keys_filterMap_eq {f₁ f₂ : κ → Option γ} (in₁ : ∀ k, f₁ k ≠ none → k ∈ m₁) (in₂ : ∀ k, f₂ k ≠ none → k ∈ m₂)
    (same : ∀ k, f₁ k = f₂ k) : m₁.keys.filterMap f₁ = m₂.keys.filterMap f₂ := by
  have found {β : Type} {m : ExtTreeMap κ β} {f : κ → Option γ} (only : ∀ k, f k ≠ none → k ∈ m) (k : κ) :
      m[k]?.bind (fun _ => f k) = f k := by
    cases shown : f k with
    | none => simp
    | some c =>
      have mem := only k (by simp [shown])
      rw [ExtTreeMap.getElem?_eq_some_getElem mem]
      rfl
  rw [← ExtTreeMap.map_fst_toList_eq_keys, ← ExtTreeMap.map_fst_toList_eq_keys, filterMap_map, filterMap_map]
  have bound (k : κ) : m₁[k]?.bind (fun _ => f₁ k) = m₂[k]?.bind (fun _ => f₂ k) := by
    rw [found in₁, found in₂, same]
  exact toList_filterMap_eq bound

end Maps

end Uste
