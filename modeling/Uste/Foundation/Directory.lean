import Mathlib

/-!
One directory of files as its user and a crash see it. A file has the bytes a reader gets now
and the bytes that reached the disk; a name has been written to the disk with its file, or will
be forgotten by a crash. What a name holds now is `now`; what it holds after a crash is `later`.
-/

namespace Uste

structure Cell where
  bytes : List UInt8
  synced : List UInt8
  /-- The directory entry itself is on the disk. -/
  linked : Bool

namespace Cell

def link (c : Cell) : Cell := { c with linked := true }

@[simp] theorem link_bytes (c : Cell) : c.link.bytes = c.bytes := rfl

@[simp] theorem link_synced (c : Cell) : c.link.synced = c.synced := rfl

@[simp] theorem link_linked (c : Cell) : c.link.linked = true := rfl

def crash (c : Cell) : Option Cell := if c.linked then some ⟨c.synced, c.synced, true⟩ else none

end Cell

structure Handles where
  File : Type
  Directory : Type
  Guard : Type

/-- A directory, the handles that refer to it and its files, and where it is mounted. -/
structure View (N : Type) (H : Handles) where
  cells : N → Option Cell
  files : H.File → N → Prop
  directories : H.Directory → Prop
  roots : H.Directory → Prop
  /-- The name of the directory in the root, and whether that entry is on the disk. -/
  mount : N
  mounted : Bool
  owner : Option H.Guard

namespace View

variable {N : Type} {H : Handles} {v : View N H} {n m : N} {c : Cell} {data : List UInt8}

def now (v : View N H) (n : N) : Option (List UInt8) := (v.cells n).map Cell.bytes

theorem now_eq_some : v.now n = some data ↔ ∃ c, v.cells n = some c ∧ c.bytes = data := Option.map_eq_some_iff

def later (v : View N H) (n : N) : Option (List UInt8) := (v.cells n).bind fun c => c.crash.map Cell.bytes

/-- What a crash leaves: the files on the disk under the names on the disk, and no handles. -/
structure Crashed (v v' : View N H) : Prop where
  cells : ∀ n, v'.cells n = (v.cells n).bind Cell.crash
  mount : v'.mount = v.mount
  mounted : v'.mounted = true
  owner : v'.owner = none

theorem Crashed.now {v' : View N H} (h : Crashed v v') (n : N) : v'.now n = v.later n := by
  rw [View.now, h.cells, later]
  cases v.cells n <;> rfl

theorem Crashed.later {v' : View N H} (h : Crashed v v') (n : N) : v'.later n = v.later n := by
  rw [View.later, h.cells, View.later]
  cases found : v.cells n with
  | none => rfl
  | some c =>
    simp only [Option.bind_some, Cell.crash]
    split <;> simp

def link (v : View N H) : View N H :=
  { v with cells := fun n => (v.cells n).map Cell.link }

@[simp] theorem link_now : v.link.now = v.now := by
  funext m
  cases h : v.cells m <;> simp [now, link, h]

theorem link_cells (h : v.cells n = some c) : v.link.cells n = some c.link := by
  simp [link, h]

theorem link_later (h : v.cells n = some c) : v.link.later n = some c.synced := by
  simp [later, link, h, Cell.crash]

theorem link_later_of_later (h : v.later n = some data) : v.link.later n = some data := by
  cases found : v.cells n with
  | none => simp [later, found] at h
  | some c =>
    simp only [later, found, Option.bind_some, Cell.crash] at h
    rw [link_later found]
    split at h
    · simpa using h
    · simp at h

/-- The view `v'` is `v` up to the files under the names `P`, new handles, and entries that have
reached the disk. -/
structure Grows (P : N → Prop) (v v' : View N H) : Prop where
  cells : ∀ n, ¬ P n → v'.cells n = v.cells n ∨ v'.cells n = (v.cells n).map Cell.link
  files : ∀ f n, v.files f n → v'.files f n
  directories : v'.directories = v.directories
  roots : v'.roots = v.roots
  mount : v'.mount = v.mount
  mounted : v'.mounted = v.mounted
  owner : v'.owner = v.owner

namespace Grows

variable {P P' : N → Prop} {v' v'' : View N H}

theorem refl (P : N → Prop) (v : View N H) : Grows P v v :=
  ⟨fun _ _ => .inl rfl, fun _ _ h => h, rfl, rfl, rfl, rfl, rfl⟩

theorem trans (h : Grows P v v') (h' : Grows P v' v'') : Grows P v v'' where
  cells n outside := by
    rcases h'.cells n outside with same | linked <;> rcases h.cells n outside with before | before
    · exact .inl (same.trans before)
    · exact .inr (same.trans before)
    · exact .inr (linked.trans (by rw [before]))
    · refine .inr (linked.trans ?_)
      rw [before, Option.map_map]
      rfl
  files f n handle := h'.files f n (h.files f n handle)
  directories := h'.directories.trans h.directories
  roots := h'.roots.trans h.roots
  mount := h'.mount.trans h.mount
  mounted := h'.mounted.trans h.mounted
  owner := h'.owner.trans h.owner

theorem mono (h : Grows P v v') (wider : ∀ n, P n → P' n) : Grows P' v v' :=
  { h with cells := fun n outside => h.cells n fun inside => outside (wider n inside) }

theorem link (P : N → Prop) (v : View N H) : Grows P v v.link :=
  ⟨fun _ _ => .inr rfl, fun _ _ h => h, rfl, rfl, rfl, rfl, rfl⟩

theorem now (h : Grows P v v') (outside : ¬ P n) : v'.now n = v.now n := by
  rcases h.cells n outside with same | linked
  · rw [View.now, same, View.now]
  · rw [View.now, linked, View.now, Option.map_map]
    rfl

theorem later (h : Grows P v v') (outside : ¬ P n) (kept : v.later n = some data) : v'.later n = some data := by
  rcases h.cells n outside with same | linked
  · rwa [View.later, same]
  · rw [← link_later_of_later kept, View.later, View.later, linked]
    rfl

theorem directory {d : H.Directory} (h : Grows P v v') (handle : v.directories d) : v'.directories d := by
  rwa [h.directories]

theorem keeps_length {size : Nat} (h : Grows P v v') (outside : ¬ P n)
    (held : ∃ c, v.cells n = some c ∧ c.bytes.length = size) : ∃ c, v'.cells n = some c ∧ c.bytes.length = size := by
  obtain ⟨c, found, length⟩ := held
  rcases h.cells n outside with same | linked
  · exact ⟨c, same.trans found, length⟩
  · exact ⟨c.link, by rw [linked, found]; rfl, length⟩

theorem cell (h : Grows P v v') (outside : ¬ P n) (found : v'.cells n = some c) :
    ∃ c', v.cells n = some c' ∧ c.bytes = c'.bytes ∧ c.synced = c'.synced ∧ (c'.linked = true → c.linked = true) := by
  rcases h.cells n outside with same | linked
  · exact ⟨c, same.symm.trans found, rfl, rfl, id⟩
  · rw [linked] at found
    obtain ⟨c', before, rfl⟩ := Option.map_eq_some_iff.mp found
    exact ⟨c', before, rfl, rfl, fun _ => rfl⟩

end Grows

section Updates

variable [DecidableEq N]

def write (v : View N H) (n : N) (f : List UInt8 → List UInt8) : View N H :=
  { v with cells := Function.update v.cells n ((v.cells n).map fun c => { c with bytes := f c.bytes }) }

def sync (v : View N H) (n : N) : View N H :=
  { v with cells := Function.update v.cells n ((v.cells n).map fun c => { c with synced := c.bytes }) }

def put (v : View N H) (n : N) (c : Cell) : View N H :=
  { v with cells := Function.update v.cells n (some c) }

def create (v : View N H) (n : N) (f : H.File) : View N H :=
  { v with cells := Function.update v.cells n (some ⟨[], [], false⟩)
           files := fun g m => v.files g m ∨ (g = f ∧ m = n) }

theorem write_eq_put (h : v.cells n = some c) (f : List UInt8 → List UInt8) :
    v.write n f = v.put n { c with bytes := f c.bytes } := by
  simp [write, put, h]

theorem sync_eq_put (h : v.cells n = some c) : v.sync n = v.put n { c with synced := c.bytes } := by
  simp [sync, put, h]

@[simp] theorem write_now_self (h : v.cells n = some c) (f : List UInt8 → List UInt8) :
    (v.write n f).now n = some (f c.bytes) := by
  simp [now, write, h]

@[simp] theorem write_later (f : List UInt8 → List UInt8) : (v.write n f).later = v.later := by
  funext m
  by_cases same : m = n
  · subst same
    cases h : v.cells m <;> simp [later, write, h, Cell.crash]
  · simp [later, write, same]

theorem write_cells_self (h : v.cells n = some c) (f : List UInt8 → List UInt8) :
    (v.write n f).cells n = some { c with bytes := f c.bytes } := by
  simp [write, h]

theorem write_cells_of_ne (other : m ≠ n) (f : List UInt8 → List UInt8) : (v.write n f).cells m = v.cells m := by
  simp [write, other]

theorem write_write (f g : List UInt8 → List UInt8) : (v.write n f).write n g = v.write n (g ∘ f) := by
  simp only [write, Function.update_self, Function.update_idem, Option.map_map, Function.comp_def]

theorem write_id (f : List UInt8 → List UInt8) (h : v.cells n = some c) (same : f c.bytes = c.bytes) :
    v.write n f = v := by
  have kept : (v.cells n).map (fun c => { c with bytes := f c.bytes }) = v.cells n := by
    rw [h, Option.map_some, same]
  rw [write, kept, Function.update_eq_self]

@[simp] theorem sync_now : (v.sync n).now = v.now := by
  funext m
  by_cases same : m = n
  · subst same
    cases h : v.cells m <;> simp [now, sync, h]
  · simp [now, sync, same]

theorem sync_cells_self (h : v.cells n = some c) : (v.sync n).cells n = some { c with synced := c.bytes } := by
  simp [sync, h]

theorem sync_cells_of_ne (other : m ≠ n) : (v.sync n).cells m = v.cells m := by
  simp [sync, other]

theorem sync_later_self (h : v.cells n = some c) (linked : c.linked = true) : (v.sync n).later n = some c.bytes := by
  simp [later, sync, h, Cell.crash, linked]

theorem sync_later_cases (v : View N H) (n : N) : (v.sync n).later n = v.now n ∨ (v.sync n).later n = v.later n := by
  cases found : v.cells n with
  | none => exact .inr (by simp [later, sync, found])
  | some c =>
    cases linked : c.linked with
    | true => exact .inl (by simp [later, now, sync, found, Cell.crash, linked])
    | false => exact .inr (by simp [later, sync, found, Cell.crash, linked])

theorem create_cells_self (f : H.File) : (v.create n f).cells n = some ⟨[], [], false⟩ := by
  simp [create]

theorem create_cells_of_ne (other : m ≠ n) (f : H.File) : (v.create n f).cells m = v.cells m := by
  simp [create, other]

namespace Grows

variable {P : N → Prop}

theorem write (f : List UInt8 → List UInt8) (inside : P n) : Grows P v (v.write n f) where
  cells m outside := .inl (write_cells_of_ne (fun same : m = n => outside (same ▸ inside)) f)
  files _ _ h := h
  directories := rfl
  roots := rfl
  mount := rfl
  mounted := rfl
  owner := rfl

theorem sync (inside : P n) : Grows P v (v.sync n) where
  cells m outside := .inl (sync_cells_of_ne fun same : m = n => outside (same ▸ inside))
  files _ _ h := h
  directories := rfl
  roots := rfl
  mount := rfl
  mounted := rfl
  owner := rfl

theorem create (f : H.File) (inside : P n) : Grows P v (v.create n f) where
  cells m outside := .inl (create_cells_of_ne (fun same : m = n => outside (same ▸ inside)) f)
  files _ _ h := .inl h
  directories := rfl
  roots := rfl
  mount := rfl
  mounted := rfl
  owner := rfl

end Grows

end Updates

end View

end Uste
