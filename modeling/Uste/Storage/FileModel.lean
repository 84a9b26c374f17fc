import Uste.Storage.Fault

/-!
What a storage layer may assume of a file system that holds one database directory: every
operation acts on the view of that directory as the `View` of the library says, or fails and
leaves the view as it was, as the operation would have left it, or part way in between.
A quiet file system fails only where the request itself cannot be met.
-/

namespace Uste.Storage

open Program FileSystem List

abbrev resized (length : Nat) (bytes : List UInt8) : List UInt8 := MemoryFileSystem.resize bytes length

/-- The views a file system shows of a database directory, and what each operation does to them.
`Keep` are the names that are never renamed or removed once they exist. -/
structure FileModel (F : Type) {H : Handles} [FileSystem F H] (Keep : EntryName → Prop) (quiet : Prop) where
  Shows : F → View EntryName H → Prop
  Ready : F → Prop
  bounded : ∀ {fs : F} {v : View EntryName H} {n : EntryName} {c : Cell},
    Shows fs v → v.cells n = some c → c.bytes.length < wordLimit
  createDirectory : ∀ {fs : F} {name : EntryName}, Ready fs →
    wp (FileSystem.createDirectory (root fs) name)
      (fun d fs' => ∃ v : View EntryName H, Shows fs' v ∧ (∀ n, v.cells n = none) ∧ v.mount = name ∧
        v.owner = none ∧ v.directories d ∧ v.roots (root fs))
      (fun _ fs' => (root fs' = root fs ∧ Ready fs') ∨ ¬ quiet) fs
  openDirectory : ∀ {fs : F} {v : View EntryName H}, Shows fs v →
    wp (FileSystem.openDirectory (root fs) v.mount)
      (fun d fs' => Shows fs' v ∧ v.directories d) (fun _ fs' => Shows fs' v ∧ ¬ quiet) fs
  createNew : ∀ {fs : F} {v : View EntryName H} {d : H.Directory} {n : EntryName},
    Shows fs v → v.directories d → Keep n →
    wp (FileSystem.createNew d n)
      (fun f fs' => v.cells n = none ∧ Shows fs' (v.create n f))
      (fun _ fs' => Shows fs' v ∨ v.cells n = none ∧ ∃ f, Shows fs' (v.create n f)) fs
  openExisting : ∀ {fs : F} {v : View EntryName H} {d : H.Directory} {n : EntryName} {c : Cell},
    Shows fs v → v.directories d → v.cells n = some c →
    wp (FileSystem.openExisting d n)
      (fun f fs' => Shows fs' v ∧ v.files f n) (fun _ fs' => Shows fs' v ∧ ¬ quiet) fs
  openMissing : ∀ {fs : F} {v : View EntryName H} {d : H.Directory} {n : EntryName},
    Shows fs v → v.directories d → Keep n → v.cells n = none →
    wp (FileSystem.openExisting d n) (fun _ _ => False)
      (fun kind fs' => Shows fs' v ∧ (quiet → kind = .notFound)) fs
  metadata : ∀ {fs : F} {v : View EntryName H} {f : H.File} {n : EntryName} {c : Cell},
    Shows fs v → v.files f n → v.cells n = some c →
    wp (FileSystem.metadata f)
      (fun length fs' => Shows fs' v ∧ length = c.bytes.length) (fun _ fs' => Shows fs' v ∧ ¬ quiet) fs
  readAt : ∀ {fs : F} {v : View EntryName H} {f : H.File} {n : EntryName} {c : Cell} {offset length : Nat},
    Shows fs v → v.files f n → v.cells n = some c →
    wp (FileSystem.readAt f offset length)
      (fun report fs' => Shows fs' v ∧ interruptions fs' ≤ interruptions fs ∧
        (report.count ≤ length → report.data = slice c.bytes offset report.count ∧
          offset + report.count ≤ max offset c.bytes.length) ∧
        (quiet → report.count = min length (c.bytes.length - offset)))
      (fun kind fs' => Shows fs' v ∧ ¬ quiet ∧
        (kind = .interrupted → interruptions fs' < interruptions fs)) fs
  writeAt : ∀ {fs : F} {v : View EntryName H} {f : H.File} {n : EntryName} {c : Cell} {input : List UInt8},
    Shows fs v → v.files f n → v.cells n = some c →
    wp (FileSystem.writeAt f c.bytes.length input)
      (fun count fs' => interruptions fs' ≤ interruptions fs ∧
        (0 < count → count ≤ input.length → Shows fs' (v.write n (· ++ input.take count))) ∧
        (count = 0 ∨ input.length < count → Shows fs' v) ∧ (quiet → count = input.length))
      (fun kind fs' => (kind ≠ .interrupted ∧ (∃ k, Shows fs' (v.write n (· ++ input.take k))) ∨ Shows fs' v) ∧
        (kind = .interrupted → interruptions fs' < interruptions fs)) fs
  setLen : ∀ {fs : F} {v : View EntryName H} {f : H.File} {n : EntryName} {c : Cell} {length : Nat},
    Shows fs v → v.files f n → v.cells n = some c →
    wp (FileSystem.setLen f length)
      (fun _ fs' => Shows fs' (v.write n (resized length)))
      (fun _ fs' => (Shows fs' v ∨ Shows fs' (v.write n (resized length))) ∧
        (quiet → c.bytes.length < length)) fs
  syncData : ∀ {fs : F} {v : View EntryName H} {f : H.File} {n : EntryName} {c : Cell},
    Shows fs v → v.files f n → v.cells n = some c →
    wp (FileSystem.syncData f)
      (fun _ fs' => Shows fs' (v.sync n))
      (fun _ fs' => (Shows fs' v ∨ Shows fs' (v.sync n)) ∧ ¬ quiet) fs
  syncAll : ∀ {fs : F} {v : View EntryName H} {f : H.File} {n : EntryName} {c : Cell},
    Shows fs v → v.files f n → v.cells n = some c →
    wp (FileSystem.syncAll f)
      (fun _ fs' => Shows fs' (v.sync n))
      (fun _ fs' => (Shows fs' v ∨ Shows fs' (v.sync n)) ∧ ¬ quiet) fs
  syncDirectory : ∀ {fs : F} {v : View EntryName H} {d : H.Directory},
    Shows fs v → v.directories d →
    wp (FileSystem.syncDirectory d)
      (fun _ fs' => Shows fs' v.link) (fun _ fs' => (Shows fs' v ∨ Shows fs' v.link) ∧ ¬ quiet) fs
  renameDirectory : ∀ {fs : F} {v : View EntryName H} {r : H.Directory} {name : EntryName},
    Shows fs v → v.roots r →
    wp (FileSystem.renameNoReplace r v.mount r name)
      (fun _ fs' => Shows fs' { v with mount := name, mounted := false }) (fun _ _ => True) fs
  syncRoot : ∀ {fs : F} {v : View EntryName H} {r : H.Directory},
    Shows fs v → v.roots r →
    wp (FileSystem.syncDirectory r)
      (fun _ fs' => Shows fs' { v with mounted := true }) (fun _ _ => True) fs
  tryLockExclusive : ∀ {fs : F} {v : View EntryName H} {d : H.Directory} {c : Cell},
    Shows fs v → v.directories d → v.cells lockName = some c →
    wp (FileSystem.tryLockExclusive d lockName)
      (fun g fs' => v.owner = none ∧ Shows fs' { v with owner := some g })
      (fun _ fs' => Shows fs' v ∧ (quiet → v.owner ≠ none)) fs
  release : ∀ {fs : F} {v : View EntryName H} {g : H.Guard},
    Shows fs v → v.owner = some g → Shows (FileSystem.release g fs) { v with owner := none }

namespace FileModel

variable {F : Type} {H : Handles} [FileSystem F H] {Keep : EntryName → Prop} {quiet : Prop}
  (M : FileModel F Keep quiet) {fs : F} {v : View EntryName H} {f : H.File} {n : EntryName} {c : Cell}

section

variable (handle : v.files f n) (cell : v.cells n = some c)

include handle cell

theorem readExactAtLoop_spec {offset length : Nat}
    (rounds : Nat) (output : List UInt8) (done : Nat) (within : done ≤ length)
    (read : output = slice c.bytes offset done) (full : output.length = done)
    (enough : interruptions fs + (length - done) ≤ rounds) (shows : M.Shows fs v) :
    wp (readExactAtLoop f offset length rounds output done)
      (fun data fs' => M.Shows fs' v ∧ data = slice c.bytes offset length ∧ data.length = length)
      (fun kind fs' => M.Shows fs' v ∧ kind ≠ .interrupted ∧ (quiet → c.bytes.length < offset + length)) fs := by
  induction rounds generalizing fs output done with
  | zero =>
    have finished : done = length := by omega
    subst finished
    simp only [readExactAtLoop, Nat.lt_irrefl, if_false, wp_pure]
    exact ⟨shows, read, full⟩
  | succ rounds ih =>
    unfold readExactAtLoop
    by_cases more : done < length
    · rw [if_pos more, wp_bind, wp_ensure]
      have size := M.bounded shows cell
      refine ⟨fun _ => ?_, fun overflow => ⟨shows, by decide, fun _ => by omega⟩⟩
      rw [wp_bind, wp_attempt]
      refine wp_mono (M.readAt shows handle cell) ?_ ?_
      · rintro ⟨count, data⟩ fs' ⟨shows', fewer, exactly, quietly⟩
        dsimp only at exactly quietly
        cases count with
        | zero => exact ⟨shows', by decide, fun q => by have := quietly q; omega⟩
        | succ count =>
          by_cases small : count + 1 ≤ length - done
          · obtain ⟨data_eq, inside⟩ := exactly small
            have fits : offset + done + (count + 1) ≤ c.bytes.length := by omega
            simp only [if_pos small]
            refine ih _ _ (by omega) ?_ ?_ (by omega) shows'
            · rw [read, data_eq]
              simp only [slice, take_add, drop_drop]
            · rw [length_append, full, data_eq, length_slice fits]
          · simp only [if_neg small, wp_fail]
            exact ⟨shows', by decide, fun q => absurd (quietly q) (by omega)⟩
      · rintro kind fs' ⟨shows', noisy, fewer⟩
        by_cases again : kind = .interrupted
        · simp only [if_pos again]
          exact ih _ _ within read full (by have := fewer again; omega) shows'
        · simp only [if_neg again, wp_fail]
          exact ⟨shows', again, fun q => absurd q noisy⟩
    · have finished : done = length := by omega
      subst finished
      rw [if_neg more, wp_pure]
      exact ⟨shows, read, full⟩

theorem readExactAt_spec {offset length : Nat} (shows : M.Shows fs v) : wp (readExactAt f offset length)
      (fun data fs' => M.Shows fs' v ∧ data = slice c.bytes offset length ∧ data.length = length)
      (fun kind fs' => M.Shows fs' v ∧ kind ≠ .interrupted ∧ (quiet → c.bytes.length < offset + length)) fs :=
  M.readExactAtLoop_spec handle cell _ [] 0 (Nat.zero_le _) (by simp [slice]) rfl (by omega) shows

theorem writeAllAtLoop_spec (input : List UInt8) (rounds written : Nat) (within : written ≤ input.length)
    (enough : interruptions fs + (input.length - written) ≤ rounds)
    (shows : M.Shows fs (v.write n (· ++ input.take written))) :
    wp (writeAllAtLoop f c.bytes.length input rounds written)
      (fun _ fs' => M.Shows fs' (v.write n (· ++ input)))
      (fun kind fs' => kind ≠ .interrupted ∧ ∃ k, M.Shows fs' (v.write n (· ++ input.take k))) fs := by
  induction rounds generalizing fs written with
  | zero =>
    have finished : written = input.length := by omega
    subst finished
    simp only [writeAllAtLoop, Nat.lt_irrefl, if_false, wp_pure]
    simpa using shows
  | succ rounds ih =>
    unfold writeAllAtLoop
    by_cases more : written < input.length
    · rw [if_pos more, wp_bind, wp_ensure]
      refine ⟨fun _ => ?_, fun _ => ⟨by decide, written, shows⟩⟩
      rw [wp_bind, wp_attempt]
      -- the file now ends where the next piece starts
      have grown := View.write_cells_self cell (· ++ input.take written)
      have place : (c.bytes ++ input.take written).length = c.bytes.length + written := by
        rw [length_append, length_take, Nat.min_eq_left within]
      rw [← place]
      refine wp_mono (M.writeAt shows handle grown) ?_ ?_
      · rintro count fs' ⟨fewer, progress, none, -⟩
        cases count with
        | zero => exact ⟨by decide, written, none (.inl rfl)⟩
        | succ count =>
          by_cases small : count + 1 ≤ input.length - written
          · simp only [if_pos small]
            have moved := progress (Nat.succ_pos _) (by simpa using small)
            rw [View.write_write] at moved
            refine ih _ (by omega) (by omega) ?_
            simpa only [Function.comp_def, append_assoc, ← take_add] using moved
          · simp only [if_neg small, wp_fail]
            exact ⟨by decide, written, none (.inr (by simp; omega))⟩
      · rintro kind fs' ⟨outcome, fewer⟩
        by_cases again : kind = .interrupted
        · simp only [if_pos again]
          rcases outcome with ⟨other, -⟩ | same
          · exact absurd again other
          · exact ih _ within (by have := fewer again; omega) same
        · simp only [if_neg again, wp_fail]
          rcases outcome with ⟨-, k, part⟩ | same
          · rw [View.write_write] at part
            refine ⟨again, written + k, ?_⟩
            simpa only [Function.comp_def, append_assoc, ← take_add] using part
          · exact ⟨again, written, same⟩
    · have finished : written = input.length := by omega
      subst finished
      simpa using shows

end

theorem writeAllAt_spec (shows : M.Shows fs v) (handle : v.files f n) (cell : v.cells n = some c) (input : List UInt8) :
    wp (writeAllAt f c.bytes.length input)
      (fun _ fs' => M.Shows fs' (v.write n (· ++ input)))
      (fun kind fs' => kind ≠ .interrupted ∧ ∃ k, M.Shows fs' (v.write n (· ++ input.take k))) fs := by
  refine M.writeAllAtLoop_spec handle cell input _ 0 (Nat.zero_le _) (by omega) ?_
  rwa [View.write_id _ cell (by simp)]

end FileModel

end Uste.Storage
