import Mathlib

/-!
Programs over a state that survives failure. A step returns a value or an error, and in both
cases the state it leaves behind, so that code which stops half way keeps what it did before.
`wp` is the weakest precondition for a pair of postconditions: one for the value, one for the
error.
-/

namespace Uste

open List

section Except

variable {ε α β : Type}

def require (c : Prop) [Decidable c] (e : ε) : Except ε Unit := if c then .ok () else .error e

variable {c : Prop} {e : ε}

@[simp] theorem require_ok [Decidable c] {u : Unit} : require c e = .ok u ↔ c := by
  unfold require
  split <;> simp_all

theorem require_pos [Decidable c] (e : ε) (h : c) : require c e = .ok () := if_pos h

def orError (e : ε) : Option α → Except ε α
  | some a => .ok a
  | none => .error e

variable {a : α}

@[simp] theorem orError_ok {o : Option α} : orError e o = .ok a ↔ o = some a := by
  cases o <;> simp [orError]

variable {f : α → Except ε β} {x : Except ε α}

theorem bind_ok {b : β} (h : (x >>= f) = .ok b) : ∃ a, x = .ok a ∧ f a = .ok b := by
  cases x with
  | error e => cases h
  | ok a => exact ⟨a, rfl, h⟩

/-! A chain of steps that ends well is one that every step of ends well. -/

section

variable {γ δ ζ : Type} {x : Except ε α} {f : α → Except ε β} {g : α → β → Except ε γ}

theorem bind_ok₂ {c : γ} (h : (x >>= fun a => f a >>= g a) = .ok c) :
    ∃ a, x = .ok a ∧ ∃ b, f a = .ok b ∧ g a b = .ok c := by
  obtain ⟨a, first, h⟩ := bind_ok h
  exact ⟨a, first, bind_ok h⟩

variable {k : α → β → γ → Except ε δ}

theorem bind_ok₃ {d : δ} (h : (x >>= fun a => f a >>= fun b => g a b >>= k a b) = .ok d) :
    ∃ a, x = .ok a ∧ ∃ b, f a = .ok b ∧ ∃ c, g a b = .ok c ∧ k a b c = .ok d := by
  obtain ⟨a, first, h⟩ := bind_ok h
  exact ⟨a, first, bind_ok₂ h⟩

theorem bind_ok₄ {l : α → β → γ → δ → Except ε ζ} {z : ζ}
    (h : (x >>= fun a => f a >>= fun b => g a b >>= fun c => k a b c >>= l a b c) = .ok z) :
    ∃ a, x = .ok a ∧ ∃ b, f a = .ok b ∧ ∃ c, g a b = .ok c ∧ ∃ d, k a b c = .ok d ∧ l a b c d = .ok z := by
  obtain ⟨a, first, h⟩ := bind_ok h
  exact ⟨a, first, bind_ok₃ h⟩

end

@[simp] theorem ok_bind (a : α) (f : α → Except ε β) : ((Except.ok a : Except ε α) >>= f) = f a := rfl

@[simp] theorem error_bind (e : ε) (f : α → Except ε β) : ((Except.error e : Except ε α) >>= f) = .error e := rfl

@[simp] theorem bind_eq_ok {b : β} : (x >>= f) = .ok b ↔ ∃ a, x = .ok a ∧ f a = .ok b := by
  cases x <;> simp

@[simp] theorem pure_eq_ok {a' : α} : (pure a : Except ε α) = .ok a' ↔ a = a' := by
  simp [pure, Except.pure]

@[simp] theorem map_eq_ok {g : α → β} {b : β} : (g <$> x) = .ok b ↔ ∃ a, x = .ok a ∧ g a = b := by
  cases x <;> simp [Functor.map, Except.map]

@[simp] theorem mapError_ok {ε' : Type} (f : ε → ε') (a : α) : (Except.ok a : Except ε α).mapError f = .ok a := rfl

@[simp] theorem mapError_ok_iff {ε' : Type} {f : ε → ε'} : x.mapError f = .ok a ↔ x = .ok a := by
  cases x <;> simp [Except.mapError]

variable {items : List α}

theorem forM_ok {f : α → Except ε Unit} (h : items.forM f = .ok ()) : ∀ a ∈ items, f a = .ok () := by
  induction items with
  | nil => exact nofun
  | cons item rest ih =>
    unfold List.forM at h
    obtain ⟨_, first, h⟩ := bind_ok h
    intro a mem
    rcases mem_cons.mp mem with rfl | mem
    · exact first
    · exact ih h a mem

@[simp] theorem forM_ok_iff {f : α → Except ε Unit} {u : Unit} : items.forM f = .ok u ↔ ∀ a ∈ items, f a = .ok () := by
  refine ⟨forM_ok, fun each => ?_⟩
  induction items with
  | nil => rfl
  | cons item rest ih =>
    unfold List.forM
    rw [each item mem_cons_self, ok_bind]
    exact ih fun a mem => each a (mem_cons_of_mem _ mem)

theorem foldlM_step {σ : Type} {f : σ → α → Except ε σ} {item : α} {rest : List α} {s s' : σ}
    (h : (item :: rest).foldlM f s = .ok s') : ∃ middle, f s item = .ok middle ∧ rest.foldlM f middle = .ok s' := by
  exact bind_ok h

theorem foldlM_keeps {σ : Type} {f : σ → α → Except ε σ} {s s' : σ} {P : σ → Prop}
    (h : items.foldlM f s = .ok s') (start : P s) (step : ∀ a ∈ items, ∀ s s', f s a = .ok s' → P s → P s') : P s' := by
  induction items generalizing s with
  | nil =>
    cases h
    exact start
  | cons item rest ih =>
    obtain ⟨middle, first, h⟩ := foldlM_step h
    exact ih h (step item mem_cons_self s middle first start) fun a mem => step a (mem_cons_of_mem _ mem)

theorem foldlM_reaches {σ : Type} {f : σ → α → Except ε σ} (items : List α) {s : σ} (R : List α → σ → Prop) (start : R [] s)
    (step : ∀ done item later s, items = done ++ item :: later → R done s → ∃ s', f s item = .ok s' ∧ R (done ++ [item]) s') :
    ∃ s', items.foldlM f s = .ok s' ∧ R items s' := by
  induction items using List.reverseRecOn with
  | nil => exact ⟨s, rfl, start⟩
  | append_singleton items item ih =>
    obtain ⟨middle, ran, holds⟩ := ih fun done next later s split =>
      step done next (later ++ [item]) s (by rw [split, append_assoc, cons_append])
    obtain ⟨s', last, holds'⟩ := step items item [] middle rfl holds
    exact ⟨s', by rw [foldlM_append, ran, ok_bind, foldlM_cons, last]; rfl, holds'⟩

theorem foldlM_unit_iff {f : Unit → α → Except ε Unit} {u : Unit} :
    items.foldlM f () = .ok u ↔ ∀ a ∈ items, f () a = .ok () := by
  induction items with
  | nil => simp
  | cons item rest ih =>
    rw [foldlM_cons, forall_mem_cons, ← ih]
    cases f () item <;> simp

theorem foldlM_count_iff {f : Nat → α → Except ε Nat} {P : α → Prop} {count : α → Nat}
    (step : ∀ a ∈ items, ∀ n m, f n a = .ok m ↔ P a ∧ m = n + count a) {n m : Nat} :
    items.foldlM f n = .ok m ↔ (∀ a ∈ items, P a) ∧ m = n + (items.map count).sum := by
  induction items generalizing n with
  | nil =>
    constructor
    · intro h
      cases h
      exact ⟨fun a mem => (not_mem_nil mem).elim, rfl⟩
    · rintro ⟨-, rfl⟩
      rfl
  | cons item rest ih =>
    have others : ∀ a ∈ rest, ∀ n m, f n a = .ok m ↔ P a ∧ m = n + count a :=
      fun a mem => step a (mem_cons_of_mem _ mem)
    rw [foldlM_cons, map_cons, sum_cons]
    constructor
    · intro h
      obtain ⟨middle, first, h⟩ := bind_ok h
      obtain ⟨passes, rfl⟩ := (step item mem_cons_self n middle).mp first
      obtain ⟨later, rfl⟩ := (ih others).mp h
      refine ⟨fun a mem => ?_, by omega⟩
      rcases mem_cons.mp mem with rfl | mem
      · exact passes
      · exact later a mem
    · rintro ⟨passes, rfl⟩
      rw [(step item mem_cons_self n _).mpr ⟨passes item mem_cons_self, rfl⟩, ok_bind]
      exact (ih others).mpr ⟨fun a mem => passes a (mem_cons_of_mem _ mem), by omega⟩

variable {results : List β}

theorem mapM_ok : items.mapM f = .ok results ↔ List.Forall₂ (fun a b => f a = .ok b) items results := by
  induction items generalizing results with
  | nil =>
    rw [forall₂_nil_left_iff]
    exact ⟨fun h => (Except.ok.inj h).symm, fun h => h ▸ rfl⟩
  | cons item rest ih =>
    rw [mapM_cons, forall₂_cons_left_iff]
    constructor
    · intro h
      obtain ⟨first, here, others, there, h⟩ := bind_ok₂ h
      cases h
      exact ⟨first, others, here, ih.mp there, rfl⟩
    · rintro ⟨first, others, here, there, rfl⟩
      rw [here, ok_bind, ih.mpr there]
      rfl

theorem mapM_ok_iff {P : α → Prop} {g : α → β} (each : ∀ a b, f a = .ok b ↔ P a ∧ g a = b) :
    items.mapM f = .ok results ↔ (∀ a ∈ items, P a) ∧ items.map g = results := by
  simp only [mapM_ok, each, forall₂_and_left]
  rw [← forall₂_eq_eq_eq, forall₂_map_left_iff]

theorem foldlM_mapM {σ : Type} {convert : α → Except ε β} {f : σ → β → Except ε σ}
    (converted : items.mapM convert = .ok results) (s : σ) :
    items.foldlM (fun s a => do f s (← convert a)) s = results.foldlM f s := by
  induction mapM_ok.mp converted generalizing s with
  | nil => rfl
  | @cons item first _ _ here there ih =>
    rw [foldlM_cons, foldlM_cons, here, ok_bind]
    cases f s first with
    | error e => rfl
    | ok s' => exact ih (mapM_ok.mpr there) s'

section

variable (converted : items.mapM f = .ok results)

include converted

theorem map_eq_of_mapM {γ : Type} {a : α → γ} {b : β → γ}
    (same : ∀ x y, f x = .ok y → a x = b y) : items.map a = results.map b := by
  rw [← forall₂_eq_eq_eq, forall₂_map_left_iff, forall₂_map_right_iff]
  exact (mapM_ok.mp converted).imp same

theorem filter_mapM {p : α → Bool} {q : β → Bool} (same : ∀ x y, f x = .ok y → p x = q y) :
    (items.filter p).mapM f = .ok (results.filter q) :=
  mapM_ok.mpr (rel_filter (fun x y h => iff_of_eq (congrArg (· = true) (same x y h))) (mapM_ok.mp converted))

theorem mapM_mapError {ε' : Type} {g : ε → ε'} : items.mapM (fun a => (f a).mapError g) = .ok results :=
  mapM_ok.mpr ((mapM_ok.mp converted).imp fun _ _ h => mapError_ok_iff.mpr h)

theorem reverse_mapM : items.reverse.mapM f = .ok results.reverse :=
  mapM_ok.mpr (forall₂_reverse_iff.mpr (mapM_ok.mp converted))

end

end Except

/-- A computation on a state `σ` that ends in a value or an error, the state kept either way. -/
def Program (σ ε α : Type) : Type := σ → Except ε α × σ

namespace Program

variable {σ τ ε ε' α β γ : Type}

def run (x : Program σ ε α) (s : σ) : Except ε α × σ := x s

instance : Monad (Program σ ε) where
  pure a := fun s => (.ok a, s)
  bind x f := fun s =>
    match x s with
    | (.ok a, s') => f a s'
    | (.error e, s') => (.error e, s')

def fail (e : ε) : Program σ ε α := fun s => (.error e, s)

def read : Program σ ε σ := fun s => (.ok s, s)

def update (f : σ → σ) : Program σ ε Unit := fun s => (.ok (), f s)

def ensure (c : Prop) [Decidable c] (e : ε) : Program σ ε Unit :=
  if c then pure () else fail e

def lift (f : ε' → ε) (r : Except ε' α) : Program σ ε α := fun s => (r.mapError f, s)

def mapError (f : ε' → ε) (x : Program σ ε' α) : Program σ ε α :=
  fun s => ((x s).1.mapError f, (x s).2)

def attempt (x : Program σ ε' α) : Program σ ε (Except ε' α) := fun s => (.ok (x s).1, (x s).2)

def onSnd (x : Program τ ε α) : Program (σ × τ) ε α := fun s => ((x s.2).1, (s.1, (x s.2).2))

def zoom (get : σ → τ) (set : τ → σ → σ) (x : Program τ ε α) : Program σ ε α :=
  fun s => ((x (get s)).1, set (x (get s)).2 s)

def withLocal (init : τ) (x : Program (τ × σ) ε α) : Program σ ε α :=
  fun s => ((x (init, s)).1, (x (init, s)).2.2)

def onError (undo : σ → σ) (x : Program σ ε α) : Program σ ε α := fun s =>
  match x s with
  | (.ok a, s') => (.ok a, s')
  | (.error e, s') => (.error e, undo s')

/-- What has to hold before `x` so that `Q` holds of its value and `E` of its error. -/
def wp (x : Program σ ε α) (Q : α → σ → Prop) (E : ε → σ → Prop) (s : σ) : Prop :=
  match x.run s with
  | (.ok a, s') => Q a s'
  | (.error e, s') => E e s'

variable {Q Q' : α → σ → Prop} {E E' : ε → σ → Prop} {s : σ} {x : Program σ ε α}

theorem wp_iff :
    wp x Q E s ↔ (∀ a s', x.run s = (.ok a, s') → Q a s') ∧ (∀ e s', x.run s = (.error e, s') → E e s') := by
  unfold wp
  rcases h : x.run s with ⟨a | e, s'⟩ <;> simp

variable {a : α} {s' : σ}

theorem wp_ok (h : wp x Q E s) (ran : x.run s = (.ok a, s')) : Q a s' :=
  (wp_iff.mp h).1 a s' ran

variable {e : ε}

theorem wp_error (h : wp x Q E s) (ran : x.run s = (.error e, s')) : E e s' :=
  (wp_iff.mp h).2 e s' ran

theorem wp_succeeds (h : wp x Q (fun _ _ => False) s) : ∃ a s', x.run s = (.ok a, s') ∧ Q a s' := by
  unfold wp at h
  rcases ran : x.run s with ⟨_ | a, s'⟩
  · rw [ran] at h
    exact h.elim
  · rw [ran] at h
    exact ⟨a, s', rfl, h⟩

theorem wp_mono (h : wp x Q E s) (value : ∀ a s', Q a s' → Q' a s')
    (error : ∀ e s', E e s' → E' e s') : wp x Q' E' s := by
  unfold wp at h ⊢
  split at h
  · exact value _ _ h
  · exact error _ _ h

theorem wp_and (h : wp x Q E s) (h' : wp x Q' E' s) :
    wp x (fun a s' => Q a s' ∧ Q' a s') (fun e s' => E e s' ∧ E' e s') s := by
  rw [wp_iff] at h h' ⊢
  exact ⟨fun a s' ran => ⟨h.1 a s' ran, h'.1 a s' ran⟩, fun e s' ran => ⟨h.2 e s' ran, h'.2 e s' ran⟩⟩

@[simp] theorem wp_pure (a : α) : wp (pure a : Program σ ε α) Q E s ↔ Q a s := Iff.rfl

@[simp] theorem wp_fail (e : ε) : wp (fail e : Program σ ε α) Q E s ↔ E e s := Iff.rfl

@[simp] theorem wp_read {Q : σ → σ → Prop} : wp (read : Program σ ε σ) Q E s ↔ Q s s := Iff.rfl

@[simp] theorem wp_update {Q : Unit → σ → Prop} (f : σ → σ) :
    wp (update f : Program σ ε Unit) Q E s ↔ Q () (f s) := Iff.rfl

variable {f : α → Program σ ε β}

theorem wp_bind {Q : β → σ → Prop} : wp (x >>= f) Q E s ↔ wp x (fun a s' => wp (f a) Q E s') E s := by
  simp only [wp, run, bind]
  rcases x s with ⟨a | e, s'⟩ <;> exact Iff.rfl

variable {Q' : β → σ → Prop}

theorem wp_step (first : wp x Q E s) (rest : ∀ a s', Q a s' → wp (f a) Q' E' s') (error : ∀ e s', E e s' → E' e s') :
    wp (x >>= f) Q' E' s :=
  wp_bind.mpr (wp_mono first rest error)

theorem wp_next (first : wp x Q E s) (rest : ∀ a s', Q a s' → wp (f a) Q' E s') : wp (x >>= f) Q' E s :=
  wp_step first rest fun _ _ h => h

variable {c : Prop}

theorem wp_ensure [Decidable c] {Q : Unit → σ → Prop} : wp (ensure c e) Q E s ↔ (c → Q () s) ∧ (¬ c → E e s) := by
  unfold ensure
  by_cases h : c <;> simp [h]

variable {r : Except ε' α}

theorem wp_lift {f : ε' → ε} : wp (lift f r) Q E s ↔ (∀ a, r = .ok a → Q a s) ∧ (∀ e, r = .error e → E (f e) s) := by
  cases r <;> simp [wp, run, lift, Except.mapError]

theorem wp_reads {k : σ → Program σ ε α} (rest : wp (k s) Q E s) : wp (read >>= k) Q E s := rest

variable {k : β → Program σ ε α}

theorem wp_lifts {f : ε' → ε} {r : Except ε' β} (rest : ∀ b, r = .ok b → wp (k b) Q E s)
    (error : ∀ e, r = .error e → E (f e) s) : wp (lift f r >>= k) Q E s :=
  wp_bind.mpr (wp_lift.mpr ⟨rest, error⟩)

theorem wp_checks [Decidable c] {k : Unit → Program σ ε α} (rest : c → wp (k ()) Q E s)
    (error : ¬ c → E e s) : wp (ensure c e >>= k) Q E s :=
  wp_bind.mpr (wp_ensure.mpr ⟨rest, error⟩)

theorem run_ok (ran : x.run s = (.ok a, s')) : (x >>= f) s = f a s' := by
  show (match x.run s with | (.ok a, s') => f a s' | (.error e, s') => (.error e, s')) = _
  rw [ran]

theorem run_error (ran : x.run s = (.error e, s')) : (x >>= f) s = (.error e, s') := by
  show (match x.run s with | (.ok a, s') => f a s' | (.error e, s') => (.error e, s')) = _
  rw [ran]

theorem bind_assoc {γ : Type} (x : Program σ ε α) (f : α → Program σ ε β) (g : β → Program σ ε γ) :
    (x >>= f) >>= g = x >>= fun a => f a >>= g := by
  funext s
  rcases ran : x.run s with ⟨e | a, s'⟩
  · rw [run_error ran, run_error (run_error ran)]
  · rw [run_ok ran]
    show (match (x >>= f) s with | (.ok b, s') => g b s' | (.error e, s') => (.error e, s')) = _
    rw [run_ok ran]
    rfl

theorem run_ensure [Decidable c] {k : Unit → Program σ ε α} (h : c) : (ensure c e >>= k) s = k () s := by
  rw [ensure, if_pos h]
  rfl

theorem run_lift {f : ε' → ε} {r : Except ε' β} {b : β} (h : r = .ok b) : (lift f r >>= k) s = k b s := by
  rw [h]
  rfl

theorem wp_pass [Decidable c] {k : Unit → Program σ ε β} {Q : β → σ → Prop} (h : c)
    (rest : wp (k ()) Q E s) : wp (ensure c e >>= k) Q E s :=
  wp_checks (fun _ => rest) fun outside => absurd h outside

theorem wp_known {f : ε' → ε} {k : α → Program σ ε β} {Q : β → σ → Prop} (h : r = .ok a)
    (rest : wp (k a) Q E s) : wp (lift f r >>= k) Q E s := by
  subst h
  exact rest

theorem wp_mapError {f : ε' → ε} {x : Program σ ε' α} :
    wp (mapError f x) Q E s ↔ wp x Q (fun e s' => E (f e) s') s := by
  simp only [wp, run, mapError]
  rcases x s with ⟨a | e, s'⟩ <;> exact Iff.rfl

theorem wp_maps {f : ε' → ε} {x : Program σ ε' α} {k : α → Program σ ε β} {R : ε' → σ → Prop}
    (first : wp x Q R s) (rest : ∀ a s', Q a s' → wp (k a) Q' E s') (error : ∀ e s', R e s' → E (f e) s') :
    wp (mapError f x >>= k) Q' E s :=
  wp_bind.mpr (wp_mapError.mpr (wp_mono first rest error))

theorem wp_attempt {x : Program σ ε' α} {Q : Except ε' α → σ → Prop} :
    wp (attempt x) Q E s ↔ wp x (fun a s' => Q (.ok a) s') (fun e s' => Q (.error e) s') s := by
  simp only [wp, run, attempt]
  rcases x s with ⟨a | e, s'⟩ <;> exact Iff.rfl

theorem wp_onSnd {x : Program τ ε α} {Q : α → σ × τ → Prop} {E : ε → σ × τ → Prop} {s : σ × τ} :
    wp (onSnd x) Q E s ↔ wp x (fun a t => Q a (s.1, t)) (fun e t => E e (s.1, t)) s.2 := by
  simp only [wp, run, onSnd]
  rcases x s.2 with ⟨a | e, s'⟩ <;> exact Iff.rfl

theorem wp_zoom {get : σ → τ} {set : τ → σ → σ} {x : Program τ ε α} :
    wp (zoom get set x) Q E s ↔ wp x (fun a t => Q a (set t s)) (fun e t => E e (set t s)) (get s) := by
  simp only [wp, run, zoom]
  rcases x (get s) with ⟨a | e, s'⟩ <;> exact Iff.rfl

theorem wp_withLocal {init : τ} {x : Program (τ × σ) ε α} :
    wp (withLocal init x) Q E s ↔ wp x (fun a t => Q a t.2) (fun e t => E e t.2) (init, s) := by
  simp only [wp, run, withLocal]
  rcases x (init, s) with ⟨a | e, s'⟩ <;> exact Iff.rfl

theorem wp_last {Q : β → σ → Prop} {s : σ}
    (rest : ∀ a s', wp (f a) Q (fun _ _ => True) s') : wp (x >>= f) Q (fun _ _ => True) s := by
  rw [wp_bind]
  unfold wp
  split
  · exact rest _ _
  · trivial

theorem wp_onError {undo : σ → σ} : wp (onError undo x) Q E s ↔ wp x Q (fun e s' => E e (undo s')) s := by
  simp only [wp, run, onError]
  rcases x s with ⟨a | e, s'⟩ <;> exact Iff.rfl

variable {items : List α}

/-- A fold keeps an invariant that every step keeps; an error leaves the state where the failing
step left it. -/
theorem wp_foldlM {f : β → α → Program σ ε β} {init : β} (Inv : List α → β → σ → Prop) (start : Inv items init s)
    (step : ∀ item rest acc s, Inv (item :: rest) acc s → wp (f acc item) (Inv rest) E s) :
    wp (items.foldlM f init) (Inv []) E s := by
  induction items generalizing init s with
  | nil => exact start
  | cons item rest ih =>
    exact wp_step (step item rest init s start) (fun acc s' holds => ih holds) (fun e s' h => h)

theorem wp_forM {f : α → Program σ ε Unit} (Inv : List α → σ → Prop) (start : Inv items s)
    (step : ∀ item rest s, Inv (item :: rest) s → wp (f item) (fun _ => Inv rest) E s) :
    wp (items.forM f) (fun _ => Inv []) E s := by
  induction items generalizing s with
  | nil => exact start
  | cons item rest ih =>
    unfold List.forM
    exact wp_step (step item rest s start) (fun _ s' holds => ih holds) (fun e s' h => h)

def Keeps (part : σ → γ) (x : Program σ ε α) : Prop := ∀ s, part (x s).2 = part s

namespace Keeps

variable {part : σ → γ} {x : Program σ ε α}

theorem wp (h : Keeps part x) (s : σ) :
    Program.wp x (fun _ s' => part s' = part s) (fun _ s' => part s' = part s) s := by
  have here := h s
  unfold Program.wp run
  generalize x s = ran at here ⊢
  obtain ⟨_ | _, _⟩ := ran <;> exact here

theorem pure (a : α) : Keeps part (Pure.pure a : Program σ ε α) := fun _ => rfl

theorem fail (e : ε) : Keeps part (Program.fail e : Program σ ε α) := fun _ => rfl

theorem read : Keeps part (Program.read : Program σ ε σ) := fun _ => rfl

theorem lift (f : ε' → ε) (r : Except ε' α) : Keeps part (Program.lift f r) := fun _ => rfl

theorem ensure (c : Prop) [Decidable c] (e : ε) : Keeps part (Program.ensure c e) := by
  unfold Program.ensure
  split
  · exact pure ()
  · exact fail e

theorem update {f : σ → σ} (h : ∀ s, part (f s) = part s) : Keeps part (Program.update f : Program σ ε Unit) := h

theorem bind {f : α → Program σ ε β} (first : Keeps part x) (rest : ∀ a, Keeps part (f a)) : Keeps part (x >>= f) := by
  intro s
  have here := first s
  simp only [Bind.bind]
  generalize x s = ran at here ⊢
  obtain ⟨_ | a, s'⟩ := ran
  · exact here
  · exact (rest a s').trans here

theorem map {δ : Type} (h : Keeps part x) (f : γ → δ) : Keeps (fun s => f (part s)) x :=
  fun s => congrArg f (h s)

theorem mapError {f : ε' → ε} {x : Program σ ε' α} (h : Keeps part x) : Keeps part (Program.mapError f x) := h

theorem attempt {x : Program σ ε' α} (h : Keeps part x) : Keeps part (Program.attempt x : Program σ ε _) := h

theorem onSnd {part : σ → γ} (x : Program τ ε α) : Keeps (fun s : σ × τ => part s.1) (Program.onSnd x) := fun _ => rfl

theorem zoom {get : σ → τ} {set : τ → σ → σ} {x : Program τ ε α} (h : ∀ t s, part (set t s) = part s) :
    Keeps part (Program.zoom get set x) := fun s => h _ s

theorem forM {f : α → Program σ ε Unit} (h : ∀ a, Keeps part (f a)) (items : List α) : Keeps part (items.forM f) := by
  induction items with
  | nil => exact pure ()
  | cons item rest ih =>
    unfold List.forM
    exact bind (h item) fun _ => ih

end Keeps

theorem forM_onSnd (f : α → Program τ ε Unit) (items : List α) :
    items.forM (fun item => (onSnd (f item) : Program (σ × τ) ε Unit)) = onSnd (items.forM f) := by
  induction items with
  | nil => rfl
  | cons item rest ih =>
    unfold List.forM
    rw [ih]
    funext s
    simp only [bind, onSnd]
    rcases f item s.2 with ⟨_ | _, _⟩ <;> rfl

end Program

end Uste
