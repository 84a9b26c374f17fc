import Uste.Storage.FileModel

/-! The in-memory file system is a quiet file model. -/

namespace Uste.Storage.MemoryFileSystem

open Program

section

variable {fs : MemoryFileSystem} {v : View EntryName memoryHandles} {node : Nat} {d r : MemoryDirectoryState}
  {n : EntryName} {c : Cell}

def cellAt (fs : MemoryFileSystem) (d : MemoryDirectoryState) (n : EntryName) : Option Cell :=
  match d.volatile n with
  | some (.file node) => (fs.files node).map fun s =>
    ⟨s.volatile, s.durable, decide (d.durable n = some (.file node))⟩
  | _ => none

def ownerAt (fs : MemoryFileSystem) (d : MemoryDirectoryState) : Option MemoryOwnershipGuard :=
  match d.volatile lockName with
  | some (.file node) => (fs.files node).bind fun s =>
    if s.exclusiveLockGeneration = 0 then none else some ⟨node, s.exclusiveLockGeneration⟩
  | _ => none

/-- What every operation keeps, whatever directory is looked at. -/
structure Sound (fs : MemoryFileSystem) : Prop where
  fresh : ∀ node, fs.nextNode ≤ node → fs.files node = none ∧ fs.directories node = none
  bounded : ∀ node s, fs.files node = some s →
    s.volatile.length ≤ fs.fileLimit ∧ s.durable.length ≤ fs.fileLimit
  limit : fs.fileLimit < wordLimit
  generation : 0 < fs.generation
  rooted : (fs.directories rootNode).isSome = true

namespace Sound

variable (sound : Sound fs) {m : Nat} {s : MemoryFileState}

include sound

theorem directory_lt (found : fs.directories m = some d) : m < fs.nextNode := by
  by_contra large
  rw [(sound.fresh m (Nat.le_of_not_lt large)).2] at found
  cases found

theorem file_lt (found : fs.files m = some s) : m < fs.nextNode := by
  by_contra large
  rw [(sound.fresh m (Nat.le_of_not_lt large)).1] at found
  cases found

theorem allocate : Sound { fs with nextNode := fs.nextNode + 1 } :=
  { sound with fresh := fun m large => sound.fresh m (Nat.le_of_succ_le large) }

theorem putDirectory (old : m < fs.nextNode) (d : MemoryDirectoryState) :
    Sound { fs with directories := Function.update fs.directories m (some d) } := by
  refine { sound with fresh := fun k large => ?_, rooted := ?_ }
  · have other : k ≠ m := (Nat.lt_of_lt_of_le old large).ne'
    simpa [other] using sound.fresh k large
  · by_cases same : rootNode = m
    · simp [same]
    · simpa [same] using sound.rooted

theorem putFile (old : m < fs.nextNode) (bounded : s.volatile.length ≤ fs.fileLimit ∧ s.durable.length ≤ fs.fileLimit) :
    Sound { fs with files := Function.update fs.files m (some s) } := by
  refine { sound with fresh := fun k large => ?_, bounded := fun k s' found => ?_ }
  · have other : k ≠ m := (Nat.lt_of_lt_of_le old large).ne'
    simpa [other] using sound.fresh k large
  · by_cases same : k = m
    · simp only [same, Function.update_self, Option.some.injEq] at found
      exact found ▸ bounded
    · exact sound.bounded k s' (by simpa [same] using found)

end Sound

structure ShowsAt (Keep : EntryName → Prop) (fs : MemoryFileSystem) (v : View EntryName memoryHandles)
    (node : Nat) (d r : MemoryDirectoryState) : Prop where
  sound : Sound fs
  found : fs.directories node = some d
  rootFound : fs.directories rootNode = some r
  below : node ≠ rootNode
  mount : r.volatile v.mount = some (.directory node)
  mounted : v.mounted = true → r.durable v.mount = some (.directory node)
  cells : ∀ n, Keep n → v.cells n = cellAt fs d n
  hidden : ∀ n, ¬ Keep n → v.cells n = none
  files : ∀ f n, v.files f n ↔ f.generation = fs.generation ∧ Keep n ∧ d.volatile n = some (.file f.node)
  directories : ∀ h, v.directories h ↔ h = ⟨node, fs.generation⟩
  roots : ∀ h, v.roots h ↔ h = ⟨rootNode, fs.generation⟩
  owner : v.owner = ownerAt fs d
  allocated : ∀ n m, Keep n → d.volatile n = some (.file m) → (fs.files m).isSome = true
  entries : ∀ n, Keep n → d.durable n = none ∨ d.durable n = d.volatile n
  distinct : ∀ n n' m, Keep n → Keep n' → d.volatile n = some (.file m) → d.volatile n' = some (.file m) → n = n'

def Shows (Keep : EntryName → Prop) (fs : MemoryFileSystem) (v : View EntryName memoryHandles) : Prop :=
  ∃ node d r, ShowsAt Keep fs v node d r

variable {Keep : EntryName → Prop} {f : MemoryFile}

theorem ShowsAt.file (shows : ShowsAt Keep fs v node d r) (handle : v.files f n)
    (cell : v.cells n = some c) : ∃ s, fs.files f.node = some s ∧
      c = ⟨s.volatile, s.durable, decide (d.durable n = some (.file f.node))⟩ := by
  obtain ⟨-, keep, entry⟩ := (shows.files f n).mp handle
  rw [shows.cells n keep, cellAt, entry] at cell
  obtain ⟨s, found, rfl⟩ := Option.map_eq_some_iff.mp cell
  exact ⟨s, found, rfl⟩

theorem ShowsAt.entry (shows : ShowsAt Keep fs v node d r) (cell : v.cells n = some c) :
    Keep n ∧ ∃ m s, d.volatile n = some (.file m) ∧ fs.files m = some s ∧ c.bytes = s.volatile := by
  have keep : Keep n := by
    by_contra hidden
    rw [shows.hidden n hidden] at cell
    cases cell
  rw [shows.cells n keep, cellAt] at cell
  split at cell
  · rename_i m entry
    obtain ⟨s, found, rfl⟩ := Option.map_eq_some_iff.mp cell
    exact ⟨keep, m, s, entry, found, rfl⟩
  · cases cell

theorem wp_directory {handle : MemoryDirectory} {Q : MemoryDirectoryState → MemoryFileSystem → Prop}
    {E : AdapterErrorKind → MemoryFileSystem → Prop} (current : handle.generation = fs.generation)
    (found : fs.directories handle.node = some d) : wp (directory handle) Q E fs ↔ Q d fs := by
  simp [directory, wp_bind, wp_ensure, current, found]

variable {s : MemoryFileState}

theorem wp_file {handle : MemoryFile} {Q : MemoryFileState → MemoryFileSystem → Prop}
    {E : AdapterErrorKind → MemoryFileSystem → Prop} (current : handle.generation = fs.generation)
    (found : fs.files handle.node = some s) : wp (file handle) Q E fs ↔ Q s fs := by
  simp [file, wp_bind, wp_ensure, current, found]

theorem ShowsAt.putFile (shows : ShowsAt Keep fs v node d r)
    (s' : MemoryFileState) (handle : v.files f n) (cell : v.cells n = some c) (found : fs.files f.node = some s)
    (lock : s'.exclusiveLockGeneration = s.exclusiveLockGeneration)
    (bounded : s'.volatile.length ≤ fs.fileLimit ∧ s'.durable.length ≤ fs.fileLimit) :
    ShowsAt Keep { fs with files := Function.update fs.files f.node (some s') }
      (v.put n ⟨s'.volatile, s'.durable, c.linked⟩) node d r := by
  obtain ⟨s₀, found₀, shape⟩ := shows.file handle cell
  obtain ⟨-, keep, entry⟩ := (shows.files f n).mp handle
  refine { shows with
    sound := shows.sound.putFile (shows.sound.file_lt found) bounded, cells := ?_, hidden := ?_, owner := ?_, allocated := ?_ }
  · intro m keepM
    by_cases same : m = n
    · subst same
      simp [View.put, cellAt, entry, shape]
    · simp only [View.put, Function.update_of_ne same, shows.cells m keepM, cellAt]
      split
      · rename_i k at_k
        have other : k ≠ f.node := by
          rintro rfl
          exact same (shows.distinct m n _ keepM keep at_k entry)
        simp [other]
      · rfl
  · intro m hiddenM
    have other : m ≠ n := by
      rintro rfl
      exact hiddenM keep
    simpa [View.put, other] using shows.hidden m hiddenM
  · change v.owner = _
    rw [shows.owner, ownerAt, ownerAt]
    split
    · rename_i k at_k
      by_cases same : k = f.node
      · subst same
        simp [found, lock]
      · simp [same]
    · rfl
  · intro m k keepM at_k
    by_cases same : k = f.node
    · simp [same]
    · simpa [same] using shows.allocated m k keepM at_k

theorem overwrite_end (bytes input : List UInt8) : overwrite bytes bytes.length input = bytes ++ input := by
  simp [overwrite]

theorem length_resize (bytes : List UInt8) (length : Nat) : (resize bytes length).length = length := by
  simp only [resize, List.length_append, List.length_take, List.length_replicate]
  omega

theorem openDirectory_shows (shows : Shows Keep fs v) :
    wp (openDirectory (root fs) v.mount) (fun h fs' => Shows Keep fs' v ∧ v.directories h)
      (fun _ fs' => Shows Keep fs' v ∧ ¬ True) fs := by
  obtain ⟨node, d, r, shows⟩ := shows
  rw [openDirectory, wp_bind, wp_directory rfl shows.rootFound]
  simp only [wp_bind, wp_read, shows.mount, wp_pure]
  exact ⟨⟨node, d, r, shows⟩, (shows.directories _).mpr rfl⟩

variable {h : MemoryDirectory}

section

variable (shows : Shows Keep fs v)

include shows

theorem openExisting_shows (handle : v.directories h) (cell : v.cells n = some c) :
    wp (openExisting h n) (fun f fs' => Shows Keep fs' v ∧ v.files f n) (fun _ fs' => Shows Keep fs' v ∧ ¬ True) fs := by
  obtain ⟨node, d, r, shows⟩ := shows
  obtain rfl := (shows.directories h).mp handle
  obtain ⟨keep, m, s, entry, -⟩ := shows.entry cell
  rw [openExisting, wp_bind, wp_directory rfl shows.found]
  simp only [wp_bind, wp_read, entry, wp_pure]
  exact ⟨⟨node, d, r, shows⟩, (shows.files _ _).mpr ⟨rfl, keep, entry⟩⟩

theorem openExisting_missing (handle : v.directories h) (keep : Keep n) (missing : v.cells n = none) :
    wp (openExisting h n) (fun _ _ => False)
      (fun kind fs' => Shows Keep fs' v ∧ (True → kind = .notFound)) fs := by
  obtain ⟨node, d, r, shows⟩ := shows
  obtain rfl := (shows.directories h).mp handle
  rw [shows.cells n keep, cellAt] at missing
  rw [openExisting, wp_bind, wp_directory rfl shows.found]
  split
  · rename_i m entry
    have allocated := shows.allocated n m keep entry
    rw [entry] at missing
    simp only [Option.map_eq_none_iff] at missing
    rw [missing] at allocated
    cases allocated
  · exact ⟨⟨node, d, r, shows⟩, fun _ => rfl⟩

theorem metadata_shows (handle : v.files f n) (cell : v.cells n = some c) :
    wp (metadata f) (fun length fs' => Shows Keep fs' v ∧ length = c.bytes.length)
      (fun _ fs' => Shows Keep fs' v ∧ ¬ True) fs := by
  obtain ⟨node, d, r, shows⟩ := shows
  obtain ⟨s, found, rfl⟩ := shows.file handle cell
  obtain ⟨current, -, -⟩ := (shows.files f n).mp handle
  have size := (shows.sound.bounded _ s found).1
  have limit := shows.sound.limit
  rw [metadata, wp_bind, wp_file current found, wp_bind, wp_ensure]
  exact ⟨fun _ => ⟨⟨node, d, r, shows⟩, rfl⟩, fun large => absurd (Nat.lt_of_le_of_lt size limit) large⟩

theorem readAt_shows (handle : v.files f n) (cell : v.cells n = some c) {offset length : Nat} :
    wp (readAt f offset length)
      (fun report fs' => Shows Keep fs' v ∧ 0 ≤ 0 ∧
        (report.count ≤ length → report.data = slice c.bytes offset report.count ∧
          offset + report.count ≤ max offset c.bytes.length) ∧
        (True → report.count = min length (c.bytes.length - offset)))
      (fun kind fs' => Shows Keep fs' v ∧ ¬ True ∧ (kind = .interrupted → 0 < 0)) fs := by
  obtain ⟨node, d, r, shows⟩ := shows
  obtain ⟨s, found, rfl⟩ := shows.file handle cell
  obtain ⟨current, -, -⟩ := (shows.files f n).mp handle
  rw [readAt, wp_bind, wp_file current found]
  split
  · refine ⟨⟨node, d, r, shows⟩, Nat.le_refl 0, fun _ => ⟨by simp [slice], by simp⟩, fun _ => ?_⟩
    dsimp only
    omega
  · refine ⟨⟨node, d, r, shows⟩, Nat.le_refl 0, fun _ => ⟨rfl, ?_⟩, fun _ => rfl⟩
    dsimp only
    omega

theorem writeAt_shows (handle : v.files f n) (cell : v.cells n = some c) {input : List UInt8} :
    wp (writeAt f c.bytes.length input)
      (fun count fs' => 0 ≤ 0 ∧
        (0 < count → count ≤ input.length → Shows Keep fs' (v.write n (· ++ input.take count))) ∧
        (count = 0 ∨ input.length < count → Shows Keep fs' v) ∧ (True → count = input.length))
      (fun kind fs' => (kind ≠ .interrupted ∧ (∃ k, Shows Keep fs' (v.write n (· ++ input.take k))) ∨ Shows Keep fs' v) ∧
        (kind = .interrupted → 0 < 0)) fs := by
  obtain ⟨node, d, r, shows⟩ := shows
  obtain ⟨s, found, rfl⟩ := shows.file handle cell
  obtain ⟨current, -, -⟩ := (shows.files f n).mp handle
  rw [writeAt, wp_bind, wp_ensure]
  refine ⟨fun _ => ?_, fun _ => ⟨.inr ⟨node, d, r, shows⟩, nofun⟩⟩
  apply wp_reads
  refine wp_checks (fun room => ?_) fun _ => ⟨.inr ⟨node, d, r, shows⟩, nofun⟩
  rw [wp_bind, wp_file current found, overwrite_end]
  have size := shows.sound.bounded _ s found
  have written := shows.putFile { s with volatile := s.volatile ++ input } handle cell found rfl
    ⟨by simpa using room, size.2⟩
  rw [← View.write_eq_put cell (· ++ input)] at written
  refine ⟨Nat.le_refl 0, fun _ _ => ?_, fun none => ?_, fun _ => rfl⟩
  · rw [List.take_length]
    exact ⟨node, d, r, written⟩
  · rcases none with none | more
    · obtain rfl := List.length_eq_zero_iff.mp none
      rw [View.write_id _ cell (by simp)] at written
      exact ⟨node, d, r, written⟩
    · exact absurd more (Nat.lt_irrefl _)

theorem setLen_shows (handle : v.files f n) (cell : v.cells n = some c) {length : Nat} :
    wp (setLen f length) (fun _ fs' => Shows Keep fs' (v.write n (resized length)))
      (fun _ fs' => (Shows Keep fs' v ∨ Shows Keep fs' (v.write n (resized length))) ∧
        (True → c.bytes.length < length)) fs := by
  obtain ⟨node, d, r, shows⟩ := shows
  obtain ⟨s, found, rfl⟩ := shows.file handle cell
  obtain ⟨current, -, -⟩ := (shows.files f n).mp handle
  have size := shows.sound.bounded _ s found
  rw [setLen, wp_bind, wp_read, wp_bind, wp_ensure]
  refine ⟨fun room => ?_, fun large => ⟨.inl ⟨node, d, r, shows⟩, fun _ => ?_⟩⟩
  · rw [wp_bind, wp_file current found]
    have written := shows.putFile { s with volatile := resize s.volatile length } handle cell found rfl
      ⟨by simpa [length_resize] using room, size.2⟩
    rw [← View.write_eq_put cell (resized length)] at written
    exact ⟨node, d, r, written⟩
  · dsimp only
    omega

theorem syncData_shows (handle : v.files f n) (cell : v.cells n = some c) :
    wp (syncData f) (fun _ fs' => Shows Keep fs' (v.sync n))
      (fun _ fs' => (Shows Keep fs' v ∨ Shows Keep fs' (v.sync n)) ∧ ¬ True) fs := by
  obtain ⟨node, d, r, shows⟩ := shows
  obtain ⟨s, found, rfl⟩ := shows.file handle cell
  obtain ⟨current, -, -⟩ := (shows.files f n).mp handle
  have size := shows.sound.bounded _ s found
  rw [syncData, wp_bind, wp_file current found]
  have synced := shows.putFile { s with durable := s.volatile } handle cell found rfl ⟨size.1, size.1⟩
  rw [← View.sync_eq_put cell] at synced
  exact ⟨node, d, r, synced⟩

theorem syncDirectory_shows (handle : v.directories h) : wp (syncDirectory h) (fun _ fs' => Shows Keep fs' v.link)
      (fun _ fs' => (Shows Keep fs' v ∨ Shows Keep fs' v.link) ∧ ¬ True) fs := by
  obtain ⟨node, d, r, shows⟩ := shows
  obtain rfl := (shows.directories h).mp handle
  rw [syncDirectory, wp_bind, wp_directory rfl shows.found]
  refine ⟨node, { d with durable := d.volatile }, r, ?_⟩
  refine { shows with
    sound := shows.sound.putDirectory (shows.sound.directory_lt shows.found) _, found := ?_, rootFound := ?_, cells := ?_,
    hidden := ?_, entries := fun _ _ => .inr rfl }
  · simp
  · simpa [shows.below.symm] using shows.rootFound
  · intro n keep
    simp only [View.link, shows.cells n keep, cellAt]
    split
    · rename_i m entry
      simp [entry, Function.comp_def, Cell.link]
    · rfl
  · intro n hidden
    simp [View.link, shows.hidden n hidden]

theorem syncRoot_shows (handle : v.roots h) :
    wp (syncDirectory h) (fun _ fs' => Shows Keep fs' { v with mounted := true }) (fun _ _ => True) fs := by
  obtain ⟨node, d, r, shows⟩ := shows
  obtain rfl := (shows.roots h).mp handle
  rw [syncDirectory, wp_bind, wp_directory rfl shows.rootFound]
  refine ⟨node, d, { r with durable := r.volatile }, ?_⟩
  refine { shows with
    sound := shows.sound.putDirectory (shows.sound.directory_lt shows.rootFound) _, found := ?_, rootFound := ?_,
    mounted := fun _ => shows.mount }
  · simpa [shows.below] using shows.found
  · simp

theorem createNew_shows (handle : v.directories h) (keep : Keep n) :
    wp (createNew h n) (fun f fs' => v.cells n = none ∧ Shows Keep fs' (v.create n f))
      (fun _ fs' => Shows Keep fs' v ∨ v.cells n = none ∧ ∃ f, Shows Keep fs' (v.create n f)) fs := by
  obtain ⟨node, d, r, shows⟩ := shows
  obtain rfl := (shows.directories h).mp handle
  rw [createNew, wp_bind, wp_directory rfl shows.found, wp_bind, wp_ensure]
  refine ⟨fun vacant => ?_, fun _ => .inl ⟨node, d, r, shows⟩⟩
  rw [allocateNode, wp_bind, wp_bind, wp_read, wp_bind, wp_ensure]
  refine ⟨fun _ => ?_, fun _ => .inl ⟨node, d, r, shows⟩⟩
  rw [wp_bind, wp_update, wp_pure, wp_bind, wp_update, wp_bind, wp_directory rfl shows.found]
  have vacant : d.volatile n = none := by simpa using vacant
  have unused := shows.sound.fresh fs.nextNode (Nat.le_refl _)
  have older : ∀ m k, Keep m → d.volatile m = some (.file k) → k ≠ fs.nextNode := by
    rintro m k keepM entry rfl
    have := shows.allocated m _ keepM entry
    rw [unused.1] at this
    cases this
  refine ⟨by rw [shows.cells n keep, cellAt, vacant], node,
    { d with volatile := Function.update d.volatile n (some (.file fs.nextNode)) }, r, ?_⟩
  exact { shows with
    sound := (shows.sound.allocate.putFile (Nat.lt_succ_self _) (by simp)).putDirectory
      (Nat.lt_succ_of_lt (shows.sound.directory_lt shows.found)) _
    found := by simp
    rootFound := by simpa [shows.below.symm] using shows.rootFound
    cells := fun m keepM => by
      by_cases same : m = n
      · subst same
        have forgotten : d.durable m = none := by
          rcases shows.entries m keep with h | h
          · exact h
          · rw [h, vacant]
        simp [View.create, cellAt, forgotten]
      · simp only [View.create, Function.update_of_ne same, shows.cells m keepM, cellAt]
        split
        · rename_i k entry
          simp [older m k keepM entry]
        · rfl
    hidden := fun m hidden => by
      have other : m ≠ n := by
        rintro rfl
        exact hidden keep
      simpa [View.create, other] using shows.hidden m hidden
    files := fun g m => by
      simp only [View.create]
      by_cases same : m = n
      · subst same
        simp only [shows.files, vacant, Function.update_self, Option.some.injEq, Node.file.injEq, keep]
        constructor
        · rintro (⟨-, -, absent⟩ | ⟨rfl, -⟩)
          · cases absent
          · exact ⟨rfl, trivial, rfl⟩
        · rintro ⟨current, -, fresh⟩
          exact .inr ⟨by cases g; simp_all, trivial⟩
      · simp [shows.files, same]
    owner := by
      change v.owner = _
      rw [shows.owner, ownerAt, ownerAt]
      by_cases same : lockName = n
      · subst same
        simp [vacant]
      · simp only [Function.update_of_ne same]
        split
        · rename_i k entry
          by_cases reused : k = fs.nextNode
          · subst reused
            simp [unused.1]
          · simp [reused]
        · rfl
    allocated := fun m k keepM entry => by
      by_cases same : m = n
      · subst same
        simp only [Function.update_self, Option.some.injEq, Node.file.injEq] at entry
        subst entry
        simp
      · have entry : d.volatile m = some (.file k) := by simpa [same] using entry
        simpa [older m k keepM entry] using shows.allocated m k keepM entry
    entries := fun m keepM => by
      by_cases same : m = n
      · subst same
        rcases shows.entries m keep with h | h
        · exact .inl h
        · exact .inl (h.trans vacant)
      · simpa [same] using shows.entries m keepM
    distinct := fun m m' k keepM keepM' entry entry' => by
      by_cases same : m = n
      · by_cases same' : m' = n
        · rw [same, same']
        · simp only [same, Function.update_self, Option.some.injEq, Node.file.injEq] at entry
          subst entry
          exact absurd rfl (older m' _ keepM' (by simpa [same'] using entry'))
      · by_cases same' : m' = n
        · simp only [same', Function.update_self, Option.some.injEq, Node.file.injEq] at entry'
          subst entry'
          exact absurd rfl (older m _ keepM (by simpa [same] using entry))
        · exact shows.distinct m m' k keepM keepM' (by simpa [same] using entry) (by simpa [same'] using entry') }

theorem renameDirectory_shows (handle : v.roots h) {name : EntryName} : wp (renameNoReplace h v.mount h name)
      (fun _ fs' => Shows Keep fs' { v with mount := name, mounted := false }) (fun _ _ => True) fs := by
  obtain ⟨node, d, r, shows⟩ := shows
  obtain rfl := (shows.roots h).mp handle
  rw [renameNoReplace, wp_bind, wp_directory rfl shows.rootFound]
  simp only [shows.mount]
  rw [wp_bind, wp_directory rfl shows.rootFound, wp_bind, wp_ensure]
  refine ⟨fun vacant => ?_, fun _ => trivial⟩
  rw [wp_bind, wp_directory rfl shows.rootFound, wp_bind, putDirectory, wp_update, wp_bind,
    wp_directory (d := { r with volatile := Function.update r.volatile v.mount none }) rfl (by simp)]
  refine ⟨node, d, { r with
    volatile := Function.update (Function.update r.volatile v.mount none) name (some (.directory node)) }, ?_⟩
  have old := shows.sound.directory_lt shows.rootFound
  refine { shows with
    sound := (shows.sound.putDirectory old _).putDirectory old _, found := ?_, rootFound := by simp, mount := ?_,
    mounted := by simp }
  · simpa [shows.below] using shows.found
  · simp

end

theorem createDirectory_shows (sound : Sound fs) {name : EntryName} : wp (createDirectory (root fs) name)
      (fun h fs' => ∃ v : View EntryName memoryHandles, Shows Keep fs' v ∧ (∀ n, v.cells n = none) ∧
        v.mount = name ∧ v.owner = none ∧ v.directories h ∧ v.roots (root fs))
      (fun _ fs' => (root fs' = root fs ∧ Sound fs') ∨ ¬ True) fs := by
  obtain ⟨r, rootFound⟩ := Option.isSome_iff_exists.mp sound.rooted
  rw [createDirectory, wp_bind, wp_directory rfl rootFound, wp_bind, wp_ensure]
  refine ⟨fun _ => ?_, fun _ => .inl ⟨rfl, sound⟩⟩
  rw [allocateNode, wp_bind, wp_bind, wp_read, wp_bind, wp_ensure]
  refine ⟨fun _ => ?_, fun _ => .inl ⟨rfl, sound⟩⟩
  have old := sound.directory_lt rootFound
  have below : fs.nextNode ≠ rootNode := old.ne'
  have kept : Function.update fs.directories fs.nextNode (some {}) rootNode = some r := by
    simpa [below.symm] using rootFound
  rw [wp_bind, wp_update, wp_pure, wp_bind, wp_update, wp_bind, wp_directory rfl kept]
  refine ⟨{
    cells := fun _ => none
    files := fun _ _ => False
    directories := fun h => h = ⟨fs.nextNode, fs.generation⟩
    roots := fun h => h = ⟨rootNode, fs.generation⟩
    mount := name
    mounted := false
    owner := none }, ⟨fs.nextNode, {}, { r with
      volatile := Function.update r.volatile name (some (.directory fs.nextNode)) }, ?_⟩,
    fun _ => rfl, rfl, rfl, rfl, rfl⟩
  exact {
    sound := (sound.allocate.putDirectory (Nat.lt_succ_self _) _).putDirectory (Nat.lt_succ_of_lt old) _
    found := by simp [root, below]
    rootFound := by simp [root]
    below := below
    mount := by simp
    mounted := nofun
    cells := fun _ _ => rfl
    hidden := fun _ _ => rfl
    files := fun _ _ => by simp
    directories := fun _ => Iff.rfl
    roots := fun _ => Iff.rfl
    owner := rfl
    allocated := fun _ _ _ entry => by cases entry
    entries := fun _ _ => .inl rfl
    distinct := fun _ _ _ _ _ entry => by cases entry }

theorem ShowsAt.putLock (shows : ShowsAt Keep fs v node d r) (generation : Nat) {m : Nat}
    (entry : d.volatile lockName = some (.file m)) (found : fs.files m = some s) : ShowsAt Keep
      { fs with files := Function.update fs.files m (some { s with exclusiveLockGeneration := generation }) }
      { v with owner := if generation = 0 then none else some ⟨m, generation⟩ } node d r := by
  refine { shows with
    sound := shows.sound.putFile (shows.sound.file_lt found) (shows.sound.bounded m s found), cells := ?_, owner := ?_,
    allocated := ?_ }
  · intro n keep
    rw [shows.cells n keep, cellAt, cellAt]
    split
    · rename_i k at_k
      by_cases same : k = m
      · subst same
        simp [found]
      · simp [same]
    · rfl
  · simp [ownerAt, entry]
  · intro n k keep at_k
    by_cases same : k = m
    · simp [same]
    · simpa [same] using shows.allocated n k keep at_k

theorem tryLockExclusive_shows (shows : Shows Keep fs v) (handle : v.directories h) (cell : v.cells lockName = some c) :
    wp (tryLockExclusive h lockName) (fun g fs' => v.owner = none ∧ Shows Keep fs' { v with owner := some g })
      (fun _ fs' => Shows Keep fs' v ∧ (True → v.owner ≠ none)) fs := by
  obtain ⟨node, d, r, shows⟩ := shows
  obtain rfl := (shows.directories h).mp handle
  obtain ⟨-, m, s, entry, found, -⟩ := shows.entry cell
  have owner := shows.owner
  rw [ownerAt, entry] at owner
  simp only [found, Option.bind_some] at owner
  rw [tryLockExclusive, wp_bind, openExisting, wp_bind, wp_directory rfl shows.found]
  simp only [wp_bind, wp_read, entry, wp_pure]
  rw [wp_file rfl found, wp_ensure]
  constructor
  · intro free
    rw [if_pos free] at owner
    have locked := shows.putLock fs.generation entry found
    rw [if_neg (Nat.pos_iff_ne_zero.mp shows.sound.generation)] at locked
    exact ⟨owner, node, d, r, locked⟩
  · intro taken
    rw [if_neg taken] at owner
    exact ⟨⟨node, d, r, shows⟩, fun _ => by simp [owner]⟩

theorem release_shows (shows : Shows Keep fs v) {g : MemoryOwnershipGuard}
    (held : v.owner = some g) : Shows Keep (release g fs) { v with owner := none } := by
  obtain ⟨node, d, r, shows⟩ := shows
  have owner := shows.owner
  rw [held, ownerAt] at owner
  split at owner
  · rename_i m entry
    obtain ⟨s, found, locked⟩ := Option.bind_eq_some_iff.mp owner.symm
    split at locked
    · cases locked
    · cases locked
      have freed := shows.putLock 0 entry found
      refine ⟨node, d, r, ?_⟩
      simpa [release, found] using freed
  · cases owner

theorem restart_shows (shows : Shows Keep fs v) (mounted : v.mounted = true) :
    wp restart (fun _ fs' => ∃ v', Shows Keep fs' v' ∧ v.Crashed v') (fun _ fs' => fs' = fs) fs := by
  obtain ⟨node, d, r, shows⟩ := shows
  rw [restart, wp_bind, wp_read, wp_bind, wp_ensure]
  refine ⟨fun _ => ?_, fun _ => rfl⟩
  have survives : ∀ n m, Keep n → d.durable n = some (.file m) → d.volatile n = some (.file m) := by
    intro n m keep entry
    rcases shows.entries n keep with h | h
    · rw [h] at entry
      cases entry
    · rw [← h, entry]
  refine ⟨{
    cells := fun n => (v.cells n).bind Cell.crash
    files := fun f n => f.generation = fs.generation + 1 ∧ Keep n ∧ d.durable n = some (.file f.node)
    directories := fun h => h = ⟨node, fs.generation + 1⟩
    roots := fun h => h = ⟨rootNode, fs.generation + 1⟩
    mount := v.mount
    mounted := true
    owner := none }, ⟨node, { d with volatile := d.durable }, { r with volatile := r.durable }, ?_⟩,
    ⟨fun _ => rfl, rfl, rfl, rfl⟩⟩
  exact {
    sound := {
      fresh := fun m large => by simp [shows.sound.fresh m large]
      bounded := fun m s found => by
        obtain ⟨s₀, before, rfl⟩ := Option.map_eq_some_iff.mp found
        exact ⟨(shows.sound.bounded m s₀ before).2, (shows.sound.bounded m s₀ before).2⟩
      limit := shows.sound.limit
      generation := Nat.succ_pos _
      rooted := by simp [shows.rootFound] }
    found := by simp [shows.found]
    rootFound := by simp [shows.rootFound]
    below := shows.below
    mount := shows.mounted mounted
    mounted := fun _ => shows.mounted mounted
    cells := fun n keep => by
      change (v.cells n).bind Cell.crash = _
      rw [shows.cells n keep, cellAt, cellAt]
      dsimp only
      rcases shows.entries n keep with gone | same
      · rw [gone]
        cases d.volatile n with
        | none => rfl
        | some k => cases k with
          | directory => rfl
          | file k => cases fs.files k <;> simp [Cell.crash]
      · rw [← same]
        cases d.durable n with
        | none => rfl
        | some k => cases k with
          | directory => rfl
          | file k =>
            simp only [Option.map_map]
            cases fs.files k <;> simp [Cell.crash]
    hidden := fun n hidden => by simp [shows.hidden n hidden]
    files := fun _ _ => Iff.rfl
    directories := fun _ => Iff.rfl
    roots := fun _ => Iff.rfl
    owner := by
      rw [ownerAt]
      dsimp only
      split
      · rename_i m _
        cases fs.files m <;> simp
      · rfl
    allocated := fun n m keep entry => by
      simpa using shows.allocated n m keep (survives n m keep entry)
    entries := fun _ _ => .inr rfl
    distinct := fun n n' m keep keep' entry entry' =>
      shows.distinct n n' m keep keep' (survives n m keep entry) (survives n' m keep' entry') }

end

theorem new_sound {fileLimit : Nat} (limit : fileLimit < wordLimit) : Sound (new fileLimit) where
  fresh node large := by
    have other : node ≠ rootNode := by
      rintro rfl
      exact absurd large (Nat.not_succ_le_self _)
    exact ⟨rfl, by simp [new, other]⟩
  bounded _ _ found := by cases found
  limit := limit
  generation := Nat.one_pos
  rooted := by simp [new]

def model {Keep : EntryName → Prop} (_ : Keep lockName) : FileModel MemoryFileSystem Keep True where
  Shows := Shows Keep
  Ready := Sound
  bounded shows cell := by
    obtain ⟨node, d, r, shows⟩ := shows
    obtain ⟨-, m, s, -, found, bytes⟩ := shows.entry cell
    rw [bytes]
    exact Nat.lt_of_le_of_lt (shows.sound.bounded m s found).1 shows.sound.limit
  createDirectory sound := createDirectory_shows sound
  openDirectory := openDirectory_shows
  createNew := createNew_shows
  openExisting := openExisting_shows
  openMissing := openExisting_missing
  metadata := metadata_shows
  readAt shows handle cell := readAt_shows shows handle cell
  writeAt shows handle cell := writeAt_shows shows handle cell
  setLen shows handle cell := setLen_shows shows handle cell
  syncData := syncData_shows
  syncAll := syncData_shows
  syncDirectory := syncDirectory_shows
  renameDirectory shows handle := renameDirectory_shows shows handle
  syncRoot := syncRoot_shows
  tryLockExclusive := tryLockExclusive_shows
  release shows held := release_shows shows held

end Uste.Storage.MemoryFileSystem
