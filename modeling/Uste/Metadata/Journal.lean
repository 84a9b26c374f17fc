import Uste.Metadata.Step
import Uste.Txn.Guarantees

/-!
The journals a coordinator writes. Whatever calls, faults and crashes came before, the groups that
an opening reads are transactions of one namespace, and so admission accepts the roots that these
transactions determine, those the coordinator stages among them, and no others.
-/

namespace Uste.Metadata

open Types Crypto Policy Storage Txn Std List

section Logs

variable {S W : Type} [TransactionState S] [Primitives] {scope : NamespaceRef} {initial : S} {memory : Memory S}
  {groups : List RecoveredGroup} {charter : Charter W} {used : BlobInventory → Prop} {log : List Entry}

theorem replay_room (h : replay scope initial groups = .ok memory) :
    memory.outcomes.size = groups.length ∧ groups.length ≤ maxOutcomesPerNamespace := by
  induction groups using List.reverseRecOn generalizing memory with
  | nil =>
    cases h
    exact ⟨rfl, Nat.zero_le _⟩
  | append_singleton groups group ih =>
    obtain ⟨before, replayed, step⟩ := replay_snoc_ok h
    obtain ⟨size, -⟩ := ih replayed
    obtain ⟨decoded, -, prepared, -, _, -, recorded, records, step⟩ := bind_ok₄ step
    obtain ⟨_, room, _, absent, records⟩ := bind_ok₂ records
    have less := require_ok.mp room
    obtain ⟨newKey, -⟩ := require_ok.mp absent
    cases records
    cases step
    rw [length_append, length_singleton]
    refine ⟨?_, by omega⟩
    rw [← size]
    exact (ExtTreeMap.size_insert).trans (if_neg newKey)

omit [TransactionState S] in
theorem mapM_captureGroup {decoded : List DecodedGroup} (h : groups.mapM (decodeRecoveredGroup scope) = .ok decoded) :
    ∃ ts, groups.mapM (captureGroup scope) = .ok ts ∧ ts.map (·.retryKey) = decoded.map (·.retryKey) ∧
      ts.map (·.outcome) = decoded.map (·.outcome) := by
  induction groups generalizing decoded with
  | nil =>
    cases h
    exact ⟨[], rfl, rfl, rfl⟩
  | cons group groups ih =>
    rw [mapM_cons] at h
    obtain ⟨first, here, rest, there, h⟩ := bind_ok₂ h
    cases h
    obtain ⟨ts, captured, keys, outcomes⟩ := ih there
    refine ⟨⟨scope, group.revision, group.certificateDigest, first.retryKey.principal, first.retryKey.key, first.outcome,
      first.request, first.blobInventory⟩ :: ts, ?_, ?_, ?_⟩
    · rw [mapM_cons, captureGroup, here, ok_bind, captured]
      rfl
    · rw [map_cons, keys]
      rfl
    · rw [map_cons, outcomes]
      rfl

omit [TransactionState S] in
theorem captured_of_log {ts : List RecoveredTransaction} (captured : (log.map Entry.recovered).mapM (captureGroup scope) = .ok ts)
    {t : RecoveredTransaction} (mem : t ∈ ts) : ∃ e ∈ log, t.scope = scope ∧ t.outcome.revision = t.revision ∧
      t.references = e.references ∧ ∀ r ∈ t.references, r.scope = scope ∧ r.validReferenceShape = true := by
  obtain ⟨group, there, captures⟩ := mem_of_mapM captured t mem
  obtain ⟨e, listed, rfl⟩ := mem_map.mp there
  obtain ⟨decoded, decodes, captures⟩ := bind_ok captures
  have sound := decodeRecoveredGroup_sound decodes
  cases captures
  refine ⟨e, listed, rfl, sound.revision, congrArg referencesOf sound.blobInventory, ?_⟩
  intro r there
  change r ∈ referencesOf decoded.blobInventory at there
  cases known : decoded.blobInventory with
  | none =>
    rw [known] at there
    cases there
  | some inventory =>
    rw [known] at there
    obtain ⟨inScope, shape⟩ := inventory.valid.shape r there
    exact ⟨inScope.trans (sound.inScope inventory known), shape⟩

/-- The groups of a log that replays are transactions of one namespace. -/
theorem log_reads (chain : Chain charter used log) (replayed : replay scope initial (log.map Entry.recovered) = .ok memory) :
    ∃ ts, Reads ⟨scope, log.map Entry.recovered⟩ ts := by
  obtain ⟨decoded, decodes, holds⟩ := replay_holds replayed
  obtain ⟨ts, captured, keys, outcomes⟩ := mapM_captureGroup decodes
  have entries := fun t mem => captured_of_log captured (t := t) mem
  have revisions : ts.map (·.revision.value) = log.map (·.revision.value) := by
    have same := map_eq_of_mapM captured (a := (·.revision.value)) (b := (·.revision.value)) fun group t captures => by
      rw [(captureGroup_ok captures).1]
    rw [← same, map_map]
    rfl
  have length : ts.length = log.length := by
    have lengths := congrArg List.length revisions
    rwa [length_map, length_map] at lengths
  have registered : ∀ t ∈ ts, ∀ r ∈ t.references, (Tip.after charter log).committed.1[r.blobKey]? = some r := by
    intro t mem r there
    obtain ⟨e, listed, -, -, references, -⟩ := entries t mem
    exact chain.blobs e listed r (references ▸ there)
  refine ⟨ts, captured, ?_, ?_, ?_, keys ▸ holds.keys, ?_, ?_, ?_, ?_, ?_⟩
  · rw [revisions, chain.revisions, length]
  · intro t mem
    obtain ⟨-, -, inScope, -⟩ := entries t mem
    exact inScope
  · intro t mem
    obtain ⟨-, -, -, revision, -⟩ := entries t mem
    exact revision
  · have ids : ts.map (·.outcome.transactionId) = (ts.map (·.outcome)).map (·.transactionId) := by
      rw [map_map]
      rfl
    rw [ids, outcomes, map_map]
    exact holds.transactionIds
  · intro t mem
    obtain ⟨-, -, -, -, -, shapes⟩ := entries t mem
    exact shapes
  · intro t mem t' mem' r there r' there' same
    obtain ⟨-, -, -, -, -, shapes⟩ := entries t mem
    obtain ⟨-, -, -, -, -, shapes'⟩ := entries t' mem'
    have key : r.blobKey = r'.blobKey := by
      rw [BlobReference.blobKey, BlobReference.blobKey, (shapes r there).1, (shapes' r' there').1, same]
    have found := registered t mem r there
    rw [key, registered t' mem' r' there'] at found
    exact (Option.some.inj found).symm
  · rw [length]
    simpa using (replay_room replayed).2
  · -- the blobs are among those the journal has registered
    have nodup : ((firstReferences ts).map (·.reference.blobKey)).Nodup :=
      List.Nodup.of_map BlobKey.id (by rw [map_map]; exact firstReferences_nodup ts)
    have inside : (firstReferences ts).map (·.reference.blobKey) ⊆ (Tip.after charter log).committed.1.keys := by
      intro key there
      obtain ⟨f, first, rfl⟩ := mem_map.mp there
      obtain ⟨mem, reference⟩ := firstReferences_mem first
      rw [ExtTreeMap.mem_keys, ExtTreeMap.mem_iff_isSome_getElem?, registered _ mem _ reference]
      rfl
    have bounded := nodup.length_le_of_subset inside
    rw [length_map, ExtTreeMap.length_keys] at bounded
    exact bounded.trans chain.committed_size

end Logs

/-! ### What the coordinator stages -/

section Staged

variable [Primitives] {recovery : AuthenticatedIndexRecovery} {ts : List RecoveredTransaction}

/-- The roots that staging makes of the transactions of a journal, from the first one on or from an admitted base. -/
inductive StagedBase (recovery : AuthenticatedIndexRecovery) (ts : List RecoveredTransaction) : CoordinatorDiskBase → Prop
  | admitted {candidate : RecoveredIndexRoot} {evidence : Option RecoveredIndexRoot} {transactions : RecoveredIndexRoot}
      {index : CoordinatorTransactionIndex} {base : CoordinatorDiskBase} {transactionLimits : CoordinatorTransactionAdmissionLimits}
      {limits : CoordinatorDiskAdmissionLimits}
      (indexed : admitCoordinatorTransactionIndexForRecovery recovery transactions transactionLimits = .ok index)
      (admitted : admitBase recovery candidate evidence index limits = .ok base) : StagedBase recovery ts base
  | genesis {t : RecoveredTransaction} {state : GenesisState} {maximum : Nat} {metadata transactions : RecoveredIndexRoot}
      (mem : t ∈ ts) (staged : stagePrimaryGenesisMetadata recovery t state maximum = .ok (metadata, transactions)) :
      StagedBase recovery ts ⟨metadata, ⟨transactions⟩, none, none⟩
  | genesisFirstReferences {t : RecoveredTransaction} {state : GenesisState} {maximum : Nat}
      {metadata transactions : RecoveredIndexRoot} {evidence : Option RecoveredIndexRoot} (mem : t ∈ ts)
      (staged : stagePrimaryGenesisMetadata recovery t state maximum = .ok (metadata, transactions))
      (witnessed : stageGenesisFirstReferences recovery t state maximum = .ok evidence) :
      StagedBase recovery ts ⟨metadata, ⟨transactions⟩, evidence, none⟩
  | step {base : CoordinatorDiskBase} {t : RecoveredTransaction} {anchor : IndexRootAnchor} {owners : List BlobReference}
      {maximum : Nat} {preserve : Bool} {metadata transactions : RecoveredIndexRoot} {evidence : Option RecoveredIndexRoot}
      (earlier : StagedBase recovery ts base) (mem : t ∈ ts) (room : base.ownerCount ≤ maximum)
      (resolved : t.references.foldlM (baseNewOwner recovery base maximum) [] = .ok owners)
      (staged : stagePrimaryMetadataStep recovery base t anchor owners preserve = .ok (metadata, transactions, evidence)) :
      StagedBase recovery ts ⟨metadata, ⟨transactions⟩, evidence, none⟩

inductive StagedPacked (recovery : AuthenticatedIndexRecovery) (ts : List RecoveredTransaction) :
    PackedCoordinatorPrefix → Prop
  | admitted {root : CertifiedPackedRoot} {limits : PackedCoordinatorAdmissionLimits} {self : PackedCoordinatorPrefix}
      (admitted : admitPackedCoordinatorPrefix recovery root limits = .ok self) : StagedPacked recovery ts self
  | first {t : RecoveredTransaction} {limits : PackedCoordinatorLimits} {self : PackedCoordinatorPrefix} (mem : t ∈ ts)
      (staged : stagePackedCoordinatorPrefix recovery.scope none t limits = .ok self) : StagedPacked recovery ts self
  | next {base self : PackedCoordinatorPrefix} {t : RecoveredTransaction} {limits : PackedCoordinatorLimits}
      (earlier : StagedPacked recovery ts base) (mem : t ∈ ts)
      (staged : stagePackedCoordinatorPrefix recovery.scope (some base) t limits = .ok self) : StagedPacked recovery ts self

def PackedCoordinatorPrefix.root (self : PackedCoordinatorPrefix) : CertifiedPackedRoot :=
  ⟨self.scope, coordinatorPackedProfile, self.revision, self.certificateDigest, self.families⟩

theorem admitBase_baseOf (reads : Reads recovery ts) {candidate transactions : RecoveredIndexRoot}
    {evidence : Option RecoveredIndexRoot} {index : CoordinatorTransactionIndex} {base : CoordinatorDiskBase}
    {transactionLimits : CoordinatorTransactionAdmissionLimits} {limits : CoordinatorDiskAdmissionLimits}
    (indexed : admitCoordinatorTransactionIndexForRecovery recovery transactions transactionLimits = .ok index)
    (admitted : admitBase recovery candidate evidence index limits = .ok base) : BaseOf recovery ts base := by
  obtain ⟨rfl, -, root⟩ := (admitTransactionIndex_ok reads).mp indexed
  cases evidence with
  | none =>
    obtain ⟨rfl, paired, metadata, -⟩ := (admitBase_search reads).mp admitted
    exact ⟨metadata, root, paired.symm, nofun⟩
  | some evidence =>
    obtain ⟨rfl, paired, metadata, witnessed, -⟩ := (admitBase_evidence reads).mp admitted
    refine ⟨metadata, root, paired.symm, fun other same => ?_⟩
    cases same
    exact witnessed

omit [Primitives] in
theorem checkGenesis_of_staged {t : RecoveredTransaction} {state : GenesisState} {maximum : Nat}
    {roots : RecoveredIndexRoot × RecoveredIndexRoot}
    (staged : stagePrimaryGenesisMetadata recovery t state maximum = .ok roots) :
    checkGenesis recovery t state maximum = .ok () := by
  obtain ⟨_, checked, -⟩ := bind_ok staged
  exact checked

theorem StagedBase.baseOf (reads : Reads recovery ts) {base : CoordinatorDiskBase} (staged : StagedBase recovery ts base) :
    BaseOf recovery ts base := by
  induction staged with
  | admitted indexed admitted => exact admitBase_baseOf reads indexed admitted
  | genesis mem staged =>
    obtain ⟨metadata, transactions, same, metadataAt, transactionsAt, metadataRoot, transactionRoot⟩ :=
      stagePrimaryGenesis_roots reads mem (checkGenesis_of_staged staged)
    cases staged.symm.trans same
    exact ⟨metadataRoot, transactionRoot, transactionsAt.trans metadataAt.symm, nofun⟩
  | genesisFirstReferences mem staged witnessed =>
    obtain ⟨metadata, transactions, same, metadataAt, transactionsAt, metadataRoot, transactionRoot⟩ :=
      stagePrimaryGenesis_roots reads mem (checkGenesis_of_staged staged)
    cases staged.symm.trans same
    obtain ⟨evidence, same, -, roots⟩ := stageGenesisFirstReferences_root reads mem (checkGenesis_of_staged staged)
    cases witnessed.symm.trans same
    exact ⟨metadataRoot, transactionRoot, transactionsAt.trans metadataAt.symm, fun root there => metadataAt ▸ roots root there⟩
  | @step base t anchor owners maximum preserve metadata transactions evidence earlier mem room resolved staged ih =>
    obtain ⟨_, guarded, -⟩ := bind_ok staged
    obtain ⟨without, needed, -, inScope, revision, certificate, reducer, next⟩ := require_ok.mp guarded
    obtain ⟨rfl, -⟩ := (baseNewOwner_fold reads ih mem next room).mp resolved
    have kind : if preserve then base.ownerCount ≠ 0 → base.firstReferences ≠ none else base.firstReferences = none := by
      cases preserve with
      | false => exact without rfl
      | true => exact needed rfl
    obtain ⟨metadata', transactions', evidence', same, metadataAt, transactionsAt, metadataRoot, transactionRoot, roots⟩ :=
      stagePrimaryStep_roots reads ih mem ⟨inScope, revision, certificate⟩ next reducer kind
    cases staged.symm.trans same
    exact ⟨metadataRoot, transactionRoot, transactionsAt.trans metadataAt.symm, fun root there => metadataAt ▸ roots root there⟩

/-- Trees of the journal up to their own revision. -/
structure PackedOf (recovery : AuthenticatedIndexRecovery) (ts : List RecoveredTransaction) (packed : PackedCoordinatorPrefix) :
    Prop where
  certified : recovery.certificateAnchor packed.revision = some packed.certificateDigest
  trees : packed = packedOf recovery.scope packed.revision packed.certificateDigest (upTo packed.revision ts)

theorem StagedPacked.packedOf (reads : Reads recovery ts) {self : PackedCoordinatorPrefix}
    (staged : StagedPacked recovery ts self) : PackedOf recovery ts self := by
  induction staged with
  | admitted admitted =>
    obtain ⟨rfl, root, -⟩ := (admitPacked_ok reads).mp admitted
    exact ⟨root.certified, rfl⟩
  | @first t limits self mem staged =>
    obtain ⟨_, guarded, -⟩ := bind_ok staged
    obtain ⟨-, first, -⟩ := require_ok.mp guarded
    have whole := reads.coherent.upTo_first mem (first rfl)
    have coherent : Coherent recovery.scope ([] ++ [t]) := whole ▸ reads.coherent.restrict t.revision
    have prior : Prior recovery.scope [] none := rfl
    obtain ⟨rfl, -⟩ := (stagePacked_ok prior coherent).mp staged
    rw [← whole]
    exact ⟨reads.certificate_of_mem mem, rfl⟩
  | @next base self t limits earlier mem staged ih =>
    obtain ⟨_, guarded, -⟩ := bind_ok staged
    obtain ⟨-, -, named⟩ := require_ok.mp guarded
    obtain ⟨-, next⟩ := named base rfl
    have whole := reads.coherent.upTo_next mem next
    have coherent : Coherent recovery.scope (upTo base.revision ts ++ [t]) := whole ▸ reads.coherent.restrict t.revision
    have prior : Prior recovery.scope (upTo base.revision ts) (some base) :=
      ⟨(reads.coherent.length_upTo (reads.of_certificate ih.certified).1).symm, base.certificateDigest, ih.trees⟩
    obtain ⟨rfl, -⟩ := (stagePacked_ok prior coherent).mp staged
    rw [← whole]
    exact ⟨reads.certificate_of_mem mem, rfl⟩

omit [Primitives] in
theorem PackedOf.packedRoot {self : PackedCoordinatorPrefix} (h : PackedOf recovery ts self) :
    PackedRoot recovery ts self.root where
  inScope := congrArg PackedCoordinatorPrefix.scope h.trees
  profile := rfl
  certified := h.certified
  families := congrArg PackedCoordinatorPrefix.families h.trees

end Staged

/-! ### Every journal of a coordinator -/

/-- The groups that an opening without limits passes over are those a recovery can read again. -/
def AuthenticatedIndexRecovery.openJournal {F W E I : Type} {H : Handles} [Primitives] [FileSystem F H] [DurableKeyEnvelope W]
    (finalName : EntryName) (scope : NamespaceRef) (vaultEntropy : E) (identityEntropy : I)
    (unwrap : DatabaseId → W → Except CryptoError (Octets 32)) :
    Program F TransactionError ((AuthenticatedIndexRecovery × JournalStore H W E I) × RecoveryReport) := do
  let (journal, report, groups) ← Program.mapError mapOpenError
    (JournalStore.openInternal finalName scope.database vaultEntropy identityEntropy unwrap none collect [])
  pure ((⟨scope, groups⟩, journal), report)

section Sessions

variable {S W E I : Type} [TransactionState S] [Primitives] [Primitives.Lawful] [DurableKeyEnvelope W] [EntropySource E]
  [EntropySource I] {used : BlobInventory → Prop} {o : Installation S W} {s : CoordinatorSession S W E I}

/-- However these files are opened for recovery, this is what the recovery reads. -/
def RecoveryOpens (E I : Type) (o : Installation S W) (files : MemoryFileSystem) (recovery : AuthenticatedIndexRecovery) : Prop :=
  ∀ (vaultEntropy : E) (identityEntropy : I), ∃ (journal : JournalStore memoryHandles W E I) (report : RecoveryReport)
    (files' : MemoryFileSystem),
    (AuthenticatedIndexRecovery.openJournal o.finalName o.scope vaultEntropy identityEntropy o.unwrap).run files =
      (.ok ((recovery, journal), report), files')

omit [TransactionState S] [Primitives.Lawful] [EntropySource E] [EntropySource I] in
theorem recoveryOpens_of_shows {files : MemoryFileSystem} {groups : List RecoveredGroup}
    (shown : JournalShows E I o files groups) : RecoveryOpens E I o files ⟨o.scope, groups⟩ := by
  intro vaultEntropy identityEntropy
  obtain ⟨journal, report, files', ran⟩ := shown vaultEntropy identityEntropy
  refine ⟨journal, report, files', ?_⟩
  simp only [AuthenticatedIndexRecovery.openJournal, bind, Program.mapError, Program.run] at ran ⊢
  rw [ran]
  rfl

theorem reachable_reads (reachable : CoordinatorSession.Reachable used o s) (ended : s.coordinator = none) :
    ∃ recovery ts, RecoveryOpens E I o s.files recovery ∧ recovery.scope = o.scope ∧ Reads recovery ts := by
  obtain ⟨charter, fits, noCollision, v, log, memory, inv⟩ := reachable.inv
  obtain ⟨log', settled, chain, reads⟩ := CoordinatorSession.closed_reads (inv.closed ended) fits noCollision inv.shows
  obtain ⟨memory', replayed⟩ := CoordinatorSession.Settled.replayed settled inv.replayed
  obtain ⟨ts, known⟩ := log_reads chain replayed
  exact ⟨_, ts, recoveryOpens_of_shows reads.journalShows, rfl, known⟩

def blobsUpTo (revision : CommitRevision) (ts : List RecoveredTransaction) : Nat := (firstReferences (upTo revision ts)).length

section Admissions

omit [TransactionState S] [Primitives.Lawful] [DurableKeyEnvelope W] [EntropySource E] [EntropySource I]

variable {recovery : AuthenticatedIndexRecovery} {ts : List RecoveredTransaction}
  {candidate transactions evidence : RecoveredIndexRoot} {base : CoordinatorDiskBase}
  {transactionLimits : CoordinatorTransactionAdmissionLimits} {limits : CoordinatorDiskAdmissionLimits}

theorem admitScanned_ok (reads : Reads recovery ts) :
    (do admitCoordinatorDiskBase recovery candidate
          (← admitCoordinatorTransactionIndexForRecovery recovery transactions transactionLimits) limits) = .ok base ↔
      base = ⟨candidate, ⟨transactions⟩, none, none⟩ ∧ candidate.anchor = transactions.anchor ∧
      MetadataRoot recovery ts candidate ∧ TransactionRoot recovery ts transactions ∧
      transactions.anchor.revision.value ≤ transactionLimits.maximumGroups ∧
      Sufficient limits candidate.anchor.revision (blobsUpTo candidate.anchor.revision ts)
        (blobsUpTo candidate.anchor.revision ts) := by
  constructor
  · intro h
    obtain ⟨index, indexed, admitted⟩ := bind_ok h
    obtain ⟨rfl, groups, root⟩ := (admitTransactionIndex_ok reads).mp indexed
    obtain ⟨same, paired, metadata, enough⟩ := (admitBase_search reads).mp admitted
    exact ⟨same, paired, metadata, root, groups, enough⟩
  · rintro ⟨same, paired, metadata, root, groups, enough⟩
    rw [(admitTransactionIndex_ok reads).mpr ⟨rfl, groups, root⟩, ok_bind]
    exact (admitBase_search reads).mpr ⟨same, paired, metadata, enough⟩

theorem admitWitnessed_ok (reads : Reads recovery ts) :
    (do admitCoordinatorDiskBaseWithFirstReferences recovery candidate
          (← admitCoordinatorTransactionIndexForRecovery recovery transactions transactionLimits) evidence limits) = .ok base ↔
      base = ⟨candidate, ⟨transactions⟩, some evidence, none⟩ ∧ candidate.anchor = transactions.anchor ∧
      MetadataRoot recovery ts candidate ∧ TransactionRoot recovery ts transactions ∧
      FirstReferenceRoot ts candidate.anchor evidence ∧
      transactions.anchor.revision.value ≤ transactionLimits.maximumGroups ∧
      Sufficient limits candidate.anchor.revision (blobsUpTo candidate.anchor.revision ts) 0 := by
  constructor
  · intro h
    obtain ⟨index, indexed, admitted⟩ := bind_ok h
    obtain ⟨rfl, groups, root⟩ := (admitTransactionIndex_ok reads).mp indexed
    obtain ⟨same, paired, metadata, witnessed, enough⟩ := (admitBase_evidence reads).mp admitted
    exact ⟨same, paired, metadata, root, witnessed, groups, enough⟩
  · rintro ⟨same, paired, metadata, root, witnessed, groups, enough⟩
    rw [(admitTransactionIndex_ok reads).mpr ⟨rfl, groups, root⟩, ok_bind]
    exact (admitBase_evidence reads).mpr ⟨same, paired, metadata, witnessed, enough⟩

end Admissions

/-- On every journal that a coordinator leaves, each admission accepts the roots whose families are those of the prefix
up to their revision and no others; what the coordinator stages itself is accepted. -/
theorem admissions_exact (reachable : CoordinatorSession.Reachable used o s) (ended : s.coordinator = none) :
    ∃ recovery ts, RecoveryOpens E I o s.files recovery ∧ recovery.scope = o.scope ∧
      recovery.groups.mapM (captureGroup o.scope) = .ok ts ∧
      (∀ candidate transactions base transactionLimits limits,
        (do admitCoordinatorDiskBase recovery candidate
              (← admitCoordinatorTransactionIndexForRecovery recovery transactions transactionLimits) limits) = .ok base ↔
          base = ⟨candidate, ⟨transactions⟩, none, none⟩ ∧ candidate.anchor = transactions.anchor ∧
          MetadataRoot recovery ts candidate ∧ TransactionRoot recovery ts transactions ∧
          transactions.anchor.revision.value ≤ transactionLimits.maximumGroups ∧
          Sufficient limits candidate.anchor.revision (blobsUpTo candidate.anchor.revision ts)
            (blobsUpTo candidate.anchor.revision ts)) ∧
      (∀ candidate transactions evidence base transactionLimits limits,
        (do admitCoordinatorDiskBaseWithFirstReferences recovery candidate
              (← admitCoordinatorTransactionIndexForRecovery recovery transactions transactionLimits) evidence limits) =
            .ok base ↔
          base = ⟨candidate, ⟨transactions⟩, some evidence, none⟩ ∧ candidate.anchor = transactions.anchor ∧
          MetadataRoot recovery ts candidate ∧ TransactionRoot recovery ts transactions ∧
          FirstReferenceRoot ts candidate.anchor evidence ∧
          transactions.anchor.revision.value ≤ transactionLimits.maximumGroups ∧
          Sufficient limits candidate.anchor.revision (blobsUpTo candidate.anchor.revision ts) 0) ∧
      (∀ root self limits, admitPackedCoordinatorPrefix recovery root limits = .ok self ↔
        self = packedOf recovery.scope root.revision root.certificateDigest (upTo root.revision ts) ∧
        PackedRoot recovery ts root ∧ SufficientPacked limits root.revision (upTo root.revision ts)) ∧
      (∀ base, StagedBase recovery ts base → ∀ transactionLimits limits,
        base.metadata.anchor.revision.value ≤ transactionLimits.maximumGroups →
        Sufficient limits base.metadata.anchor.revision (blobsUpTo base.metadata.anchor.revision ts)
          (blobsUpTo base.metadata.anchor.revision ts) →
        (do admitCoordinatorDiskBase recovery base.metadata
              (← admitCoordinatorTransactionIndexForRecovery recovery base.transactions.root transactionLimits) limits) =
            .ok ⟨base.metadata, base.transactions, none, none⟩ ∧
        ∀ evidence ∈ base.firstReferences,
          (do admitCoordinatorDiskBaseWithFirstReferences recovery base.metadata
                (← admitCoordinatorTransactionIndexForRecovery recovery base.transactions.root transactionLimits) evidence
                limits) = .ok ⟨base.metadata, base.transactions, some evidence, none⟩) ∧
      ∀ self, StagedPacked recovery ts self → PackedRoot recovery ts self.root ∧
        ∀ limits, SufficientPacked limits self.revision (upTo self.revision ts) →
          admitPackedCoordinatorPrefix recovery self.root limits = .ok self := by
  obtain ⟨recovery, ts, opens, scope, reads⟩ := reachable_reads reachable ended
  refine ⟨recovery, ts, opens, scope, scope ▸ reads.captured, fun _ _ _ _ _ => admitScanned_ok reads,
    fun _ _ _ _ _ _ => admitWitnessed_ok reads, fun _ _ _ => admitPacked_ok reads, fun base staged => ?_, fun self staged => ?_⟩
  · have roots := staged.baseOf reads
    intro transactionLimits limits groups enough
    have within : base.transactions.root.anchor.revision.value ≤ transactionLimits.maximumGroups := roots.paired ▸ groups
    refine ⟨(admitScanned_ok reads).mpr ⟨rfl, roots.paired.symm, roots.metadata, roots.transactions, within, enough⟩,
      fun evidence there => ?_⟩
    exact (admitWitnessed_ok reads).mpr ⟨rfl, roots.paired.symm, roots.metadata, roots.transactions,
      roots.evidence evidence there, within, enough.fits, (Nat.mul_le_mul_right _ (by omega)).trans enough.groups⟩
  · have packed := staged.packedOf reads
    refine ⟨packed.packedRoot, fun limits enough => ?_⟩
    exact (admitPacked_ok reads).mpr ⟨packed.trees, packed.packedRoot, enough⟩

end Sessions

section Sample

attribute [local instance] plainPrimitives plainPrimitives_lawful

theorem admissions_exact_sample : ∃ (s : CoordinatorSession Tally Unit Nat Nat) (recovery : AuthenticatedIndexRecovery)
    (ts : List RecoveredTransaction), s.coordinator = none ∧ RecoveryOpens Nat Nat sampleInstallation s.files recovery ∧
    recovery.groups.mapM (captureGroup sampleInstallation.scope) = .ok ts := by
  obtain ⟨c, files, -, -, -, founded, -⟩ := sampleFounding_ok
  have reachable := sampleSecond_reachable founded
  obtain ⟨charter, -, -, v, log, memory, inv⟩ := reachable.inv
  obtain ⟨v', -, ended⟩ := inv.drop
  obtain ⟨recovery, ts, opens, -, captured, -⟩ := admissions_exact reachable.drop ended
  exact ⟨_, recovery, ts, ended, opens, captured⟩

end Sample

end Uste.Metadata
