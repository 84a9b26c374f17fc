import Uste.Storage.Publish

/-!
Creating a journal. All of its files are on the disk before the directory gets its final name, so
a new journal is a live one with no entries.
-/

namespace Uste.Storage

open Types Crypto Program FileSystem Std

section Files

variable {F : Type} {H : Handles} [FileSystem F H] {quiet : Prop} (M : FileModel F Kept quiet) {fs : F}
  {v : View EntryName H} {d : H.Directory} {n : EntryName} {files : EntryName → Option (List UInt8)}

def Clean (v : View EntryName H) (files : EntryName → Option (List UInt8)) : Prop :=
  ∀ n, v.cells n = none ∧ files n = none ∨ ∃ bytes linked, files n = some bytes ∧ v.cells n = some ⟨bytes, bytes, linked⟩

theorem Clean.link (clean : Clean v files) : v.link.now = files ∧ v.link.later = files := by
  constructor
  · rw [View.link_now]
    funext n
    rcases clean n with ⟨cell, none⟩ | ⟨bytes, linked, some, cell⟩
    · rw [View.now, cell, none, Option.map_none]
    · rw [View.now, cell, some, Option.map_some]
  · funext n
    rcases clean n with ⟨cell, none⟩ | ⟨bytes, linked, some, cell⟩
    · simp [View.later, View.link, cell, none]
    · rw [View.link_later cell, some]

theorem Clean.cell {bytes : List UInt8} (clean : Clean v files) (found : files n = some bytes) :
    v.link.cells n = some ⟨bytes, bytes, true⟩ := by
  rcases clean n with ⟨_, none⟩ | ⟨held, linked, some, cell⟩
  · rw [none] at found
    cases found
  · rw [some] at found
    cases found
    exact View.link_cells cell

theorem writeNew_clean (keep : Kept n) (bytes : List UInt8) (directory : v.directories d) (clean : Clean v files)
    (shows : M.Shows fs v) : wp (JournalStore.writeNew d n bytes)
      (fun file fs' => ∃ v', M.Shows fs' v' ∧ v.Grows (fun _ => True) v' ∧ v'.files file n ∧
        Clean v' (Function.update files n (some bytes)))
      (fun _ _ => True) fs := by
  refine wp_mono (writeNew_spec M keep bytes directory shows) ?_ fun _ _ _ => trivial
  intro file fs' ⟨v', shows, grows, missing, cell, handle⟩
  refine ⟨v', shows, grows.mono fun _ _ => trivial, handle, fun m => ?_⟩
  by_cases same : m = n
  · subst same
    exact .inr ⟨bytes, false, Function.update_self .., cell⟩
  · rw [Function.update_of_ne same]
    have kept := grows.cells m fun inside => same inside.1
    rcases clean m with ⟨before, none⟩ | ⟨held, linked, some, before⟩
    · rw [before, Option.map_none, or_self] at kept
      exact .inl ⟨kept, none⟩
    · rw [before] at kept
      rcases kept with kept | kept
      · exact .inr ⟨held, linked, some, kept⟩
      · exact .inr ⟨held, true, some, kept⟩

end Files

section Founding

variable {F W E I : Type} {H : Handles}

theorem Founder.sealed_spec [Primitives] [EntropySource E] {founder : JournalStore.Founder W E I} {fs : F}
    {context : CryptoContext} {plaintext : List UInt8} : wp (JournalStore.Founder.sealed context plaintext)
      (fun bytes s => s.2 = fs ∧ founder.vault.Same s.1.vault ∧ founder.vault.database = context.database ∧
        ∃ key, founder.vault.key = some key ∧ Sealed key context plaintext bytes)
      (fun _ _ => True) (founder, fs) := by
  unfold JournalStore.Founder.sealed
  rw [wp_bind, wp_mapError, wp_zoom]
  cases unlocked : founder.vault.key with
  | none =>
    refine wp_mono KeyVault.encrypt_unlocked ?_ fun _ _ _ => trivial
    intro _ _ ⟨_, key, found⟩
    rw [unlocked] at found
    cases found
  | some key =>
    refine wp_mono (wp_and (KeyVault.encrypt_spec unlocked) KeyVault.encrypt_unlocked) ?_ fun _ _ _ => trivial
    intro envelope vault ⟨⟨same, isSealed⟩, scope, _⟩
    rw [wp_bind, wp_lift]
    exact ⟨fun _ _ => ⟨rfl, same, scope.symm, key, rfl, isSealed⟩, fun _ _ => trivial⟩

theorem Founder.randomId_spec [EntropySource I] {founder : JournalStore.Founder W E I} {fs : F} :
    wp JournalStore.Founder.randomId
      (fun id s => s.2 = fs ∧ s.1.vault = founder.vault ∧ id ≠ Octets.zero 16) (fun _ _ => True) (founder, fs) := by
  unfold JournalStore.Founder.randomId
  rw [wp_zoom]
  refine wp_mono (randomNonzeroId_spec _ _) ?_ fun _ _ _ => trivial
  intro id entropy nonzero
  exact ⟨rfl, rfl, nonzero⟩

variable [FileSystem F H] [Primitives] [DurableKeyEnvelope W]
  [EntropySource E] [EntropySource I] {quiet : Prop} (M : FileModel F Kept quiet) {fs : F} {v : View EntryName H}
  {d r : H.Directory} {g : H.Guard} {founder : JournalStore.Founder W E I} {options : CreationOptions}
  {writer certificateLogId initialSegmentId : Octets 16}

def foundingFiles (keyBytes manifest certificates segment : List UInt8) (initialSegmentId : Octets 16) :
    EntryName → Option (List UInt8) :=
  Function.update (Function.update (Function.update (Function.update (Function.update (fun _ => none) lockName (some []))
    keyName (some keyBytes)) manifestName (some manifest)) certificatesName (some certificates))
    (segmentName initialSegmentId) (some segment)

structure Founds (c : Charter W) (options : CreationOptions) (vault : KeyVault W E) : Prop where
  database : c.database = options.database
  finalName : c.finalName = options.finalName
  scope : vault.database = options.database
  key : vault.key = some c.key
  wrapped : c.wrapped = vault.wrapped
  keyBytes : DurableKeyEnvelope.encodeDurable c.wrapped = .ok c.keyBytes
  nonempty : c.keyBytes.length ≠ 0
  bounded : c.keyBytes.length ≤ maxKeyEnvelopeBytes

section

variable {c : Charter W} {used : BlobInventory → Prop} {manifest certificates segment : List UInt8}

omit [DurableKeyEnvelope W] in
theorem founding_fit (manifestOk : Sealed c.key (manifestContext c.database c.epoch) c.manifest.encode manifest)
    (segmentOk : SegmentOk c [] c.initialHeader segment) (n : EntryName) :
    Fit c [] n (foundingFiles c.keyBytes manifest certificates segment c.initialSegmentId n) where
  lock same := by
    subst same
    exact ⟨[], rfl⟩
  key same := by
    subst same
    rfl
  manifest same := by
    subst same
    exact ⟨manifest, rfl, manifestOk⟩
  segment header mem same := by
    obtain rfl := List.mem_singleton.mp mem
    subst same
    exact ⟨segment, Function.update_self .., segmentOk⟩
  inventory := nofun

omit [DurableKeyEnvelope W] in
theorem founding_stored (now : v.now = foundingFiles c.keyBytes manifest certificates segment c.initialSegmentId)
    (later : v.later = foundingFiles c.keyBytes manifest certificates segment c.initialSegmentId)
    (mounted : v.mounted = true) (mount : v.mount = c.finalName)
    (manifestOk : Sealed c.key (manifestContext c.database c.epoch) c.manifest.encode manifest)
    (segmentOk : SegmentOk c [] c.initialHeader segment) : Stored c used v [] := by
  have absent : ∀ n, IsChunk n ∨ IsInventory n →
      foundingFiles c.keyBytes manifest certificates segment c.initialSegmentId n = none := by
    intro n kind
    have plain : ∀ m, m ∈ [lockName, keyName, manifestName, certificatesName] → ¬ (IsChunk m ∨ IsInventory m) := by
      unfold IsChunk IsInventory
      decide
    have segment : ¬ (IsChunk (segmentName c.initialSegmentId) ∨ IsInventory (segmentName c.initialSegmentId)) := by
      have apart := (kinds_disjoint _).1 (isSegment_segmentName c.initialSegmentId)
      exact not_or.mpr apart.symm
    have other : ∀ m, ¬ (IsChunk m ∨ IsInventory m) → n ≠ m := fun m no same => no (same ▸ kind)
    unfold foundingFiles
    rw [Function.update_of_ne (other _ segment), Function.update_of_ne (other _ (plain _ (by simp))),
      Function.update_of_ne (other _ (plain _ (by simp))), Function.update_of_ne (other _ (plain _ (by simp))),
      Function.update_of_ne (other _ (plain _ (by simp)))]
  refine {
    chain := .nil
    now := fun n => by rw [now]; exact founding_fit manifestOk segmentOk n
    later := fun n => by rw [later]; exact founding_fit manifestOk segmentOk n
    references := nofun
    chunks := fun n cell chunk found => ?_
    drafts := fun n cell isInventory found => ?_
    mounted := mounted
    mount := mount }
  · have here := congrFun now n
    rw [absent n (.inl chunk), View.now, found] at here
    cases here
  · have here := congrFun now n
    rw [absent n (.inr isInventory), View.now, found] at here
    cases here

end

omit [EntropySource I] in
theorem createLocked_spec [Primitives.Lawful] (used : BlobInventory → Prop) {temporary : EntryName}
    (writer_ne : writer ≠ Octets.zero 16) (log_ne : certificateLogId ≠ Octets.zero 16)
    (segment_ne : initialSegmentId ≠ Octets.zero 16) (clean : Clean v (Function.update (fun _ => none) lockName (some [])))
    (directory : v.directories d) (rooted : v.roots r) (mount : v.mount = temporary) (owner : v.owner = some g)
    (shows : M.Shows fs v) :
    wp (JournalStore.createLocked r options writer certificateLogId initialSegmentId temporary d g)
      (fun store s => ∃ (c : Charter W) (v' : View EntryName H), M.Shows s.2 v' ∧ LiveInv c used store v' [] ∧
        Founds c options founder.vault ∧ store.certificateReadLimits = none)
      (fun _ _ => True) (founder, fs) := by
  unfold JournalStore.createLocked
  apply wp_reads
  refine wp_lifts (fun keyBytes encoded => ?_) fun _ _ => trivial
  refine wp_checks (fun bounds => ?_) fun _ => trivial
  rw [wp_bind, wp_onSnd]
  refine wp_mono (writeNew_clean M (by simp [Kept]) keyBytes directory clean shows) ?_ fun _ _ _ => trivial
  rintro _ fs₁ ⟨v₁, shows, grows, _, clean⟩
  refine wp_step Founder.sealed_spec ?_ fun _ _ _ => trivial
  rintro manifest ⟨founder₁, _⟩ ⟨rfl, same, scope, key, unlocked, manifestOk⟩
  rw [wp_bind, wp_onSnd]
  refine wp_mono (writeNew_clean M (by simp [Kept]) manifest (grows.directory directory) clean shows) ?_ fun _ _ _ => trivial
  rintro _ fs₂ ⟨v₂, shows, grows₂, _, clean⟩
  have grows := grows.trans grows₂
  refine wp_step Founder.sealed_spec ?_ fun _ _ _ => trivial
  rintro certificates ⟨founder₂, _⟩ ⟨rfl, same₂, -, key', unlocked₁, certificatesOk⟩
  obtain rfl := Option.some.inj (unlocked.symm.trans (same.2.2.symm.trans unlocked₁))
  rw [wp_bind, wp_onSnd]
  refine wp_mono (writeNew_clean M (by simp [Kept]) certificates (grows.directory directory) clean shows) ?_ fun _ _ _ => trivial
  rintro certificateFile fs₃ ⟨v₃, shows, grows₃, certificateHandle, clean⟩
  have grows := grows.trans grows₃
  refine wp_step Founder.sealed_spec ?_ fun _ _ _ => trivial
  rintro segment ⟨founder₃, _⟩ ⟨rfl, same₃, -, key', unlocked₂, segmentOk⟩
  obtain rfl := Option.some.inj (unlocked₁.symm.trans (same₂.2.2.symm.trans unlocked₂))
  rw [wp_bind, wp_onSnd]
  refine wp_mono (writeNew_clean M (kept_segmentName _) segment (grows.directory directory) clean shows) ?_ fun _ _ _ => trivial
  rintro segmentFile fs₄ ⟨v₄, shows, grows₄, segmentHandle, clean⟩
  have grows := grows.trans grows₄
  have directory := grows.directory directory
  rw [wp_bind, wp_onSnd, wp_mapError]
  refine wp_mono (M.syncDirectory shows directory) ?_ fun _ _ _ => trivial
  intro _ fs₅ shows
  have rooted₄ : v₄.link.roots r := by
    show v₄.roots r
    rw [grows.roots]
    exact rooted
  have renamed : wp (renameNoReplace r v₄.link.mount r options.finalName) _ _ fs₅ := M.renameDirectory shows rooted₄
  rw [show v₄.link.mount = temporary from grows.mount.trans mount] at renamed
  rw [wp_bind, wp_onSnd, wp_mapError]
  refine wp_mono renamed ?_ fun _ _ _ => trivial
  intro _ fs₆ shows
  rw [wp_bind, wp_onSnd, wp_mapError]
  refine wp_mono (M.syncRoot shows rooted₄) ?_ fun _ _ _ => trivial
  intro _ fs₇ shows
  let c : Charter W := {
    database := options.database
    epoch := KeyEpoch.first
    writer := writer
    key := key
    finalName := options.finalName
    certificateLogId := certificateLogId
    initialSegmentId := initialSegmentId
    wrapped := founder.vault.wrapped
    keyBytes := keyBytes
    writer_ne := writer_ne
    log_ne := log_ne
    segment_ne := segment_ne }
  have founds : Founds c options founder.vault := {
    database := rfl
    finalName := rfl
    scope := scope
    key := unlocked
    wrapped := rfl
    keyBytes := encoded
    nonempty := fun empty => bounds.1 (List.length_eq_zero_iff.mp empty)
    bounded := bounds.2 }
  have opens : c.Opens founder₃.vault := by
    refine ⟨?_, same₃.2.2.trans unlocked₂⟩
    exact same₃.1.trans (same₂.1.trans (same.1.trans scope))
  have size := small_sealed segmentOk
  have size' := small_sealed certificatesOk
  have segmentOk' : SegmentOk c [] c.initialHeader segment :=
    ⟨by rw [size]; decide, ⟨segment, segmentOk, List.prefix_rfl⟩, by simp⟩
  have certificatesCell : v₄.link.cells certificatesName = some ⟨certificates, certificates, true⟩ := clean.cell rfl
  have segmentCell : v₄.link.cells (segmentName initialSegmentId) = some ⟨segment, segment, true⟩ :=
    clean.cell (Function.update_self ..)
  have certified : Certified c [] certificates :=
    ⟨certificates, [], certificatesOk, by simp, by decide, by rw [size']; decide⟩
  let final : View EntryName H := { v₄.link with mount := options.finalName, mounted := true }
  have stored : Stored c used final [] := founding_stored clean.link.1 clean.link.2 rfl rfl manifestOk segmentOk'
  refine ⟨c, final, shows, ?_, founds, rfl⟩
  exact {
    disk := ⟨stored, List.prefix_rfl, _, certificatesCell, rfl, certified, certified⟩
    owns := ⟨rfl, rfl, rfl, rfl, opens, directory, grows.owner.trans owner⟩
    tip := ⟨rfl, rfl, rfl, rfl, rfl, rfl, rfl, rfl, rfl⟩
    healthy := rfl
    certificateFile := grows₄.files _ _ certificateHandle
    segmentFile := segmentHandle
    certificates := ⟨_, certificatesCell, by rw [size']; rfl⟩
    current := ⟨_, segmentCell, size⟩ }

omit [Primitives] [DurableKeyEnvelope W] [EntropySource E] in
theorem createTemporaryDirectoryLoop_spec (M : FileModel F Kept True) (ready : M.Ready fs) (attempts : Nat) :
    wp (JournalStore.createTemporaryDirectoryLoop (root fs) attempts)
      (fun created s => s.1.vault = founder.vault ∧ ∃ v, M.Shows s.2 v ∧ (∀ n, v.cells n = none) ∧ v.mount = created.1 ∧
        v.owner = none ∧ v.directories created.2 ∧ v.roots (root fs))
      (fun _ _ => True) (founder, fs) := by
  induction attempts generalizing founder fs with
  | zero => trivial
  | succ attempts ih =>
    unfold JournalStore.createTemporaryDirectoryLoop
    refine wp_step Founder.randomId_spec ?_ fun _ _ _ => trivial
    rintro random ⟨founder', fs'⟩ ⟨kept, same, -⟩
    obtain rfl : fs' = fs := kept
    rw [wp_bind, wp_attempt, wp_onSnd]
    refine wp_mono (M.createDirectory ready) ?_ ?_
    · intro created fs' found
      exact ⟨same, found⟩
    · intro kind fs'' failed
      obtain ⟨rooted, ready⟩ := failed.resolve_right (not_not_intro trivial)
      by_cases again : kind = .alreadyExists
      · simp only [if_pos again]
        rw [← rooted, ← same]
        exact ih ready
      · simp only [if_neg again]
        trivial

/-- A journal that was created is live and has no entries. -/
theorem create_spec [Primitives.Lawful] {vault : KeyVault W E} {identityEntropy : I} (M : FileModel F Kept True)
    (used : BlobInventory → Prop) (ready : M.Ready fs) : wp (JournalStore.create options vault identityEntropy)
      (fun (store : JournalStore H W E I) fs' => ∃ (c : Charter W) (v' : View EntryName H), M.Shows fs' v' ∧
        LiveInv c used store v' [] ∧ Founds c options vault ∧ store.certificateReadLimits = none)
      (fun _ _ => True) fs := by
  unfold JournalStore.create
  rw [wp_withLocal, wp_bind, wp_read]
  refine wp_step Founder.randomId_spec ?_ fun _ _ _ => trivial
  rintro writer ⟨founder₁, _⟩ ⟨rfl, same, writer_ne⟩
  refine wp_step Founder.randomId_spec ?_ fun _ _ _ => trivial
  rintro certificateLogId ⟨founder₂, fs₂⟩ ⟨kept, same₂, log_ne⟩
  obtain rfl : fs₂ = _ := kept
  refine wp_step Founder.randomId_spec ?_ fun _ _ _ => trivial
  rintro initialSegmentId ⟨founder₃, fs₃⟩ ⟨kept, same₃, segment_ne⟩
  obtain rfl : fs₃ = _ := kept
  refine wp_step (createTemporaryDirectoryLoop_spec M ready _) ?_ fun _ _ _ => trivial
  rintro ⟨temporary, directory⟩ ⟨founder₄, fs₄⟩ ⟨same₄, v, shows, empty, rfl, free, handle, rooted⟩
  have lock : Kept lockName := .inl rfl
  rw [wp_bind, wp_onSnd, wp_mapError]
  refine wp_mono (M.createNew shows handle lock) ?_ fun _ _ _ => trivial
  intro file fs₅ ⟨missing, shows⟩
  rw [wp_bind, wp_onSnd, wp_mapError]
  refine wp_mono (M.syncAll shows (.inr ⟨rfl, rfl⟩) (View.create_cells_self file)) ?_ fun _ _ _ => trivial
  intro _ fs₆ shows
  have cell := View.sync_cells_self (View.create_cells_self (v := v) (n := lockName) file)
  rw [wp_bind, wp_onSnd, wp_mapError]
  refine wp_mono (M.tryLockExclusive shows handle cell) ?_ fun _ _ _ => trivial
  intro guard fs₇ ⟨_, shows⟩
  have clean : Clean { (v.create lockName file).sync lockName with owner := some guard }
      (Function.update (fun _ => none) lockName (some [])) := by
    intro n
    by_cases same : n = lockName
    · subst same
      exact .inr ⟨[], false, Function.update_self .., cell⟩
    · refine .inl ⟨?_, Function.update_of_ne same ..⟩
      show ((v.create lockName file).sync lockName).cells n = none
      rw [View.sync_cells_of_ne same, View.create_cells_of_ne same, empty]
  rw [wp_onError]
  refine wp_mono (createLocked_spec M used writer_ne log_ne segment_ne clean handle rooted rfl rfl shows) ?_ fun _ _ _ => trivial
  intro store s ⟨c, v', shows, live, founds, unlimited⟩
  have same : founder₄.vault = vault := same₄.trans (same₃.trans (same₂.trans same))
  exact ⟨c, v', shows, live, same ▸ founds, unlimited⟩

end Founding

end Uste.Storage
