import Uste.Storage.MemoryModel

/-! A file model stays one when faults are injected into it, though no longer a quiet one. -/

namespace Uste.Storage.FaultFileSystem

open Program FileSystem List

variable {F : Type} {H : Handles} {α : Type} {fs : FaultFileSystem F}

theorem length_erase_lt {points : List FaultPoint} {point : FaultPoint} (mem : point ∈ points) :
    (points.erase point).length < points.length := by
  rw [length_erase_of_mem mem]
  have := length_pos_of_mem mem
  omega

theorem nextAction_spec (operation : Operation) : wp (nextAction operation)
      (fun action fs' => fs'.inner = fs.inner ∧ fs'.plan.points.length ≤ fs.plan.points.length ∧
        (action ≠ none → fs'.plan.points.length < fs.plan.points.length))
      (fun kind fs' => fs' = fs ∧ kind ≠ .interrupted) fs := by
  rw [nextAction, wp_bind, wp_read, wp_bind, wp_ensure]
  refine ⟨fun _ => ?_, fun _ => ⟨rfl, by decide⟩⟩
  refine wp_checks (fun _ => ?_) fun _ => ⟨rfl, by decide⟩
  cases planned : fs.plan.at? operation (fs.occurrences operation + 1) with
  | none => exact ⟨rfl, Nat.le_refl _, fun h => absurd rfl h⟩
  | some point =>
    have mem : point ∈ fs.plan.points := mem_of_find?_eq_some planned
    exact ⟨rfl, Nat.le_of_lt (length_erase_lt mem), fun _ => length_erase_lt mem⟩

variable {x : Program F AdapterErrorKind α} {discard : α → F → F} {Q : α → F → Prop} {E : AdapterErrorKind → F → Prop}

theorem finish_spec {crashAfter : Bool} (h : wp x Q E fs.inner) : wp (finish discard x crashAfter)
      (fun a fs' => Q a fs'.inner ∧ fs'.plan = fs.plan)
      (fun kind fs' => (kind = .injectedCrash ∧ ∃ a inner, Q a inner ∧ fs'.inner = discard a inner) ∨
        (E kind fs'.inner ∧ fs'.plan = fs.plan)) fs := by
  unfold wp run at h ⊢
  unfold finish
  rcases ran : x fs.inner with ⟨e | a, inner⟩
  · rw [ran] at h
    exact .inr ⟨h, rfl⟩
  · rw [ran] at h
    cases crashAfter
    · exact ⟨h, rfl⟩
    · exact .inl ⟨rfl, a, inner, h, rfl⟩

variable {operation : Operation}

/-- An operation with a fault in it does what it does without one, nothing, or its work and
then a crash. -/
theorem ordinary_spec (h : wp x Q E fs.inner) : wp (ordinary operation discard x) (fun a fs' => Q a fs'.inner)
      (fun kind fs' => fs'.inner = fs.inner ∨ (∃ a inner, Q a inner ∧ fs'.inner = discard a inner) ∨
        E kind fs'.inner) fs := by
  have finished : ∀ (fs₁ : FaultFileSystem F) (crashAfter : Bool), fs₁.inner = fs.inner →
      wp (finish discard x crashAfter) (fun a fs' => Q a fs'.inner)
        (fun kind fs' => fs'.inner = fs.inner ∨ (∃ a inner, Q a inner ∧ fs'.inner = discard a inner) ∨
          E kind fs'.inner) fs₁ := by
    intro fs₁ crashAfter same
    refine wp_mono (finish_spec (same ▸ h)) (fun a fs' ok => ok.1) ?_
    rintro kind fs' (⟨-, crashed⟩ | ⟨failed, -⟩)
    · exact .inr (.inl crashed)
    · exact .inr (.inr failed)
  rw [ordinary, wp_bind, ordinaryAction, wp_bind]
  refine wp_mono (nextAction_spec operation) ?_ (fun kind fs' unchanged => .inl (by rw [unchanged.1]))
  rintro (_ | action) fs' ⟨same, -, -⟩
  · exact finished fs' false same
  · cases action with
    | error kind => exact .inl same
    | crashBefore => exact .inl same
    | crashAfter => exact finished fs' true same
    | shortWrite => exact .inl same
    | shortRead => exact .inl same
    | zeroProgress => exact .inl same
    | overReport => exact .inl same

variable [FileSystem F H] {Keep : EntryName → Prop} (M : FileModel F Keep True)
  {v : View EntryName H} {f : H.File} {n : EntryName} {c : Cell}

section

variable (shows : M.Shows fs.inner v)

include shows

theorem readAt_spec {offset length : Nat} (handle : v.files f n) (cell : v.cells n = some c) :
    wp (readAt f offset length)
      (fun report fs' => M.Shows fs'.inner v ∧ interruptions fs' ≤ interruptions fs ∧
        (report.count ≤ length → report.data = slice c.bytes offset report.count ∧
          offset + report.count ≤ max offset c.bytes.length))
      (fun kind fs' => M.Shows fs'.inner v ∧ (kind = .interrupted → interruptions fs' < interruptions fs)) fs := by
  have finished : ∀ (fs₁ : FaultFileSystem F) (crashAfter : Bool) (wanted : Nat), fs₁.inner = fs.inner →
      fs₁.plan.points.length ≤ fs.plan.points.length →
      wp (finish forget (FileSystem.readAt f offset wanted) crashAfter)
        (fun report fs' => M.Shows fs'.inner v ∧ interruptions fs' ≤ interruptions fs ∧
          (report.count ≤ length → report.data = slice c.bytes offset report.count ∧
            offset + report.count ≤ max offset c.bytes.length))
        (fun kind fs' => M.Shows fs'.inner v ∧ (kind = .interrupted → interruptions fs' < interruptions fs)) fs₁ := by
    intro fs₁ crashAfter wanted same fewer
    refine wp_mono (finish_spec (same ▸ M.readAt shows handle cell)) ?_ ?_
    · rintro report fs' ⟨⟨shows', calm, exactly, quietly⟩, plan⟩
      refine ⟨shows', ?_, fun _ => exactly ?_⟩
      · change fs'.plan.points.length + _ ≤ fs.plan.points.length + _
        rw [plan]
        rw [same] at calm
        omega
      · have := quietly trivial
        omega
    · rintro kind fs' (⟨rfl, report, inner, ⟨shows', -⟩, same'⟩ | ⟨⟨shows', noisy, -⟩, -⟩)
      · exact ⟨same' ▸ shows', by simp⟩
      · exact absurd trivial noisy
  rw [readAt, wp_bind]
  refine wp_mono (nextAction_spec .readAt) ?_ ?_
  · rintro (_ | action) fs' ⟨same, fewer, used⟩
    · exact finished fs' false length same fewer
    · have shows' : M.Shows fs'.inner v := same ▸ shows
      have used := used (by simp)
      have less : interruptions fs' < interruptions fs := by
        change fs'.plan.points.length + _ < fs.plan.points.length + _
        rw [same]
        omega
      cases action with
      | error kind => exact ⟨shows', fun _ => less⟩
      | shortRead maximum => exact finished fs' false _ same fewer
      | zeroProgress => exact ⟨shows', Nat.le_of_lt less, fun _ => ⟨by simp [slice], by simp⟩⟩
      | overReport => exact ⟨shows', Nat.le_of_lt less, fun small => absurd small (Nat.not_succ_le_self _)⟩
      | crashBefore => exact ⟨shows', by simp⟩
      | crashAfter => exact finished fs' true length same fewer
      | shortWrite => exact ⟨shows', by simp⟩
  · rintro kind fs' ⟨rfl, other⟩
    exact ⟨shows, fun again => absurd again other⟩

theorem writeAt_spec {input : List UInt8} (handle : v.files f n) (cell : v.cells n = some c) :
    wp (writeAt f c.bytes.length input)
      (fun count fs' => interruptions fs' ≤ interruptions fs ∧
        (0 < count → count ≤ input.length → M.Shows fs'.inner (v.write n (· ++ input.take count))) ∧
        (count = 0 ∨ input.length < count → M.Shows fs'.inner v))
      (fun kind fs' =>
        (kind ≠ .interrupted ∧ (∃ k, M.Shows fs'.inner (v.write n (· ++ input.take k))) ∨ M.Shows fs'.inner v) ∧
        (kind = .interrupted → interruptions fs' < interruptions fs)) fs := by
  -- the write of a part of the input, whole or short
  have finished : ∀ (fs₁ : FaultFileSystem F) (crashAfter : Bool) (wanted : Nat), fs₁.inner = fs.inner →
      fs₁.plan.points.length ≤ fs.plan.points.length →
      wp (finish forget (FileSystem.writeAt f c.bytes.length (input.take wanted)) crashAfter)
        (fun count fs' => interruptions fs' ≤ interruptions fs ∧
          (0 < count → count ≤ input.length → M.Shows fs'.inner (v.write n (· ++ input.take count))) ∧
          (count = 0 ∨ input.length < count → M.Shows fs'.inner v))
        (fun kind fs' =>
          (kind ≠ .interrupted ∧ (∃ k, M.Shows fs'.inner (v.write n (· ++ input.take k))) ∨ M.Shows fs'.inner v) ∧
          (kind = .interrupted → interruptions fs' < interruptions fs)) fs₁ := by
    intro fs₁ crashAfter wanted same fewer
    refine wp_mono (finish_spec (same ▸ M.writeAt shows handle cell)) ?_ ?_
    · rintro count fs' ⟨⟨calm, progress, none, all⟩, plan⟩
      have all := all trivial
      rw [length_take] at all
      refine ⟨?_, fun some _ => ?_, fun stuck => none ?_⟩
      · change fs'.plan.points.length + _ ≤ fs.plan.points.length + _
        rw [plan]
        rw [same] at calm
        omega
      · have moved := progress some (by rw [length_take]; omega)
        rwa [take_take, Nat.min_eq_left (by omega)] at moved
      · exact .inl (by omega)
    · rintro kind fs' (⟨rfl, count, inner, ⟨-, progress, none, all⟩, same'⟩ | ⟨⟨outcome, retry⟩, plan⟩)
      · have all := all trivial
        refine ⟨?_, nofun⟩
        rcases Nat.eq_zero_or_pos count with zero | positive
        · exact .inr (same' ▸ none (.inl zero))
        · refine .inl ⟨nofun, wanted, ?_⟩
          have moved := progress positive (Nat.le_of_eq all)
          rw [all, take_length] at moved
          exact same' ▸ moved
      · refine ⟨?_, fun again => ?_⟩
        · rcases outcome with ⟨other, k, part⟩ | unchanged
          · exact .inl ⟨other, min k wanted, by rwa [take_take] at part⟩
          · exact .inr unchanged
        · have := retry again
          change fs'.plan.points.length + _ < fs.plan.points.length + _
          rw [plan]
          rw [same] at this
          omega
  rw [writeAt, wp_bind]
  refine wp_mono (nextAction_spec .writeAt) ?_ ?_
  · rintro (_ | action) fs' ⟨same, fewer, used⟩
    · simpa using finished fs' false input.length same fewer
    · have shows' : M.Shows fs'.inner v := same ▸ shows
      have used := used nofun
      have less : interruptions fs' < interruptions fs := by
        change fs'.plan.points.length + _ < fs.plan.points.length + _
        rw [same]
        omega
      cases action with
      | error kind => exact ⟨.inr shows', fun _ => less⟩
      | shortWrite maximum => exact finished fs' false _ same fewer
      | zeroProgress => exact ⟨Nat.le_of_lt less, fun some => absurd some (Nat.lt_irrefl 0), fun _ => shows'⟩
      | overReport => exact ⟨Nat.le_of_lt less, fun _ small => absurd small (Nat.not_succ_le_self _), fun _ => shows'⟩
      | crashBefore => exact ⟨.inr shows', nofun⟩
      | crashAfter => simpa using finished fs' true input.length same fewer
      | shortRead => exact ⟨.inr shows', nofun⟩
  · rintro kind fs' ⟨rfl, other⟩
    exact ⟨.inr shows, fun again => absurd again other⟩

theorem ordinary_reads {Q : α → Prop}
    (h : wp x (fun a inner => M.Shows inner v ∧ Q a) (fun _ inner => M.Shows inner v ∧ ¬ True) fs.inner) :
    wp (ordinary operation forget x) (fun a fs' => M.Shows fs'.inner v ∧ Q a) (fun _ fs' => M.Shows fs'.inner v ∧ ¬ False) fs := by
  refine wp_mono (ordinary_spec h) (fun _ _ ok => ok) ?_
  rintro kind fs' (same | ⟨_, inner, ok, same⟩ | failed)
  · exact ⟨same ▸ shows, nofun⟩
  · exact ⟨same ▸ ok.1, nofun⟩
  · exact ⟨failed.1, nofun⟩

theorem ordinary_moves {v' : View EntryName H} {P R : Prop} (h : wp x (fun _ inner => M.Shows inner v')
      (fun _ inner => (M.Shows inner v ∨ M.Shows inner v') ∧ P) fs.inner) :
    wp (ordinary operation forget x) (fun _ fs' => M.Shows fs'.inner v')
      (fun _ fs' => (M.Shows fs'.inner v ∨ M.Shows fs'.inner v') ∧ (False → R)) fs := by
  refine wp_mono (ordinary_spec h) (fun _ _ ok => ok) ?_
  rintro kind fs' (same | ⟨_, inner, ok, same⟩ | failed)
  · exact ⟨.inl (same ▸ shows), nofun⟩
  · exact ⟨.inr (same ▸ ok), nofun⟩
  · exact ⟨failed.1, nofun⟩

end

def model : FileModel (FaultFileSystem F) Keep False where
  Shows fs v := M.Shows fs.inner v
  Ready fs := M.Ready fs.inner
  bounded := M.bounded
  createDirectory ready := wp_mono (ordinary_spec (M.createDirectory ready)) (fun _ _ ok => ok) fun _ _ _ => .inr nofun
  openDirectory shows := ordinary_reads M shows (M.openDirectory shows)
  createNew shows handle keep := by
    refine wp_mono (ordinary_spec (M.createNew shows handle keep)) (fun _ _ ok => ok) ?_
    rintro kind fs' (same | ⟨f, inner, ok, same⟩ | failed)
    · exact .inl (same ▸ shows)
    · exact .inr ⟨ok.1, f, same ▸ ok.2⟩
    · exact failed
  openExisting shows handle cell := ordinary_reads M shows (M.openExisting shows handle cell)
  openMissing shows handle keep missing := by
    refine wp_mono (ordinary_spec (M.openMissing shows handle keep missing)) (fun _ _ ok => ok) ?_
    rintro kind fs' (same | ⟨f, inner, ok, same⟩ | failed)
    · exact ⟨same ▸ shows, nofun⟩
    · exact absurd ok id
    · exact ⟨failed.1, nofun⟩
  metadata shows handle cell := ordinary_reads M shows (M.metadata shows handle cell)
  readAt shows handle cell := by
    refine wp_mono (readAt_spec M shows handle cell) ?_ ?_
    · rintro report fs' ⟨shows', calm, exactly⟩
      exact ⟨shows', calm, exactly, nofun⟩
    · rintro kind fs' ⟨shows', retry⟩
      exact ⟨shows', nofun, retry⟩
  writeAt shows handle cell := by
    refine wp_mono (writeAt_spec M shows handle cell) ?_ (fun _ _ failed => failed)
    rintro count fs' ⟨calm, progress, none⟩
    exact ⟨calm, progress, none, nofun⟩
  setLen shows handle cell := ordinary_moves M shows (M.setLen shows handle cell)
  syncData shows handle cell := ordinary_moves M shows (M.syncData shows handle cell)
  syncAll shows handle cell := ordinary_moves M shows (M.syncAll shows handle cell)
  syncDirectory shows handle := ordinary_moves M shows (M.syncDirectory shows handle)
  renameDirectory shows handle := wp_mono (ordinary_spec (M.renameDirectory shows handle)) (fun _ _ ok => ok) fun _ _ _ => trivial
  syncRoot shows handle := wp_mono (ordinary_spec (M.syncRoot shows handle)) (fun _ _ ok => ok) fun _ _ _ => trivial
  tryLockExclusive shows handle cell := by
    refine wp_mono (ordinary_spec (M.tryLockExclusive shows handle cell)) (fun _ _ ok => ok) ?_
    rintro kind fs' (same | ⟨g, inner, ok, same⟩ | failed)
    · exact ⟨same ▸ shows, nofun⟩
    · -- the guard of a lock that crashed on the way out is dropped again
      have freed := M.release ok.2 rfl
      refine ⟨same ▸ ?_, nofun⟩
      simpa [← ok.1] using freed
    · exact ⟨failed.1, nofun⟩
  release shows held := M.release shows held

end Uste.Storage.FaultFileSystem
