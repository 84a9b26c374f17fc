import Uste.Storage.Journal

/-!
The journal as its committed entries. An entry is one acknowledged or adopted append; the tip is
what the entries so far determine, and a chain is a list of entries each of which was admitted
after the ones before. `Fit` says what a name of the directory has to hold for a list of entries.
-/

namespace Uste.Storage

open Types Crypto Std List ExtTreeMap

/-- What the creation of a database fixed. -/
structure Charter (W : Type) extends Origin where
  finalName : EntryName
  certificateLogId : Octets 16
  initialSegmentId : Octets 16
  wrapped : W
  keyBytes : List UInt8
  writer_ne : writer ≠ Octets.zero 16
  log_ne : certificateLogId ≠ Octets.zero 16
  segment_ne : initialSegmentId ≠ Octets.zero 16

def Charter.initialHeader {W : Type} (c : Charter W) : SegmentHeader :=
  ⟨c.database, c.initialSegmentId, c.writer, Octets.zero 16, 1⟩

def digestOf [Primitives] : Option BlobInventory → Octets 32
  | none => emptyBlobInventoryDigest
  | some inventory => inventory.digest

def referencesOf : Option BlobInventory → List BlobReference
  | none => []
  | some inventory => inventory.references

structure Entry where
  revision : CommitRevision
  group : List UInt8
  logicalEventDigest : Octets 32
  inventory : Option BlobInventory
  segment : Octets 16
  /-- The entry is the first one of its segment, and the segment is not the initial one. -/
  rolled : Bool
  offset : Nat
  encodedGroup : List UInt8
  encodedCertificate : List UInt8

namespace Entry

def inventoryDigest [Primitives] (e : Entry) : Octets 32 := digestOf e.inventory

def references (e : Entry) : List BlobReference := referencesOf e.inventory

variable {e : Entry} {inventory : BlobInventory}

theorem references_some (h : e.inventory = some inventory) : e.references = inventory.references := by
  rw [references, h, referencesOf]

theorem references_none (h : e.inventory = none) : e.references = [] := by
  rw [references, h, referencesOf]

theorem inventoryDigest_some [Primitives] (h : e.inventory = some inventory) :
    e.inventoryDigest = inventory.digest := by
  rw [inventoryDigest, h, digestOf]

theorem inventoryDigest_none [Primitives] (h : e.inventory = none) : e.inventoryDigest = emptyBlobInventoryDigest := by
  rw [inventoryDigest, h, digestOf]

def recovered [Primitives] (e : Entry) : RecoveredGroup :=
  ⟨e.revision, sha256 e.encodedCertificate, e.group, e.inventoryDigest, e.inventory, e.logicalEventDigest⟩

end Entry

structure Tip where
  segment : Octets 16
  offset : Nat
  count : Nat
  frontier : Option CommitRevision
  digest : Octets 32
  anchors : ExtTreeMap CommitRevision (Octets 32)
  inventories : ExtTreeSet (Octets 32)
  committed : CommittedBlobs × CommittedBlobBytes
  bindings : Nat
  /-- The number of references of each inventory. -/
  verified : ExtTreeMap (Octets 32) Nat
  headers : List SegmentHeader
  /-- Where the committed groups of a segment end. -/
  ends : Octets 16 → Nat

namespace Tip

def start {W : Type} (c : Charter W) : Tip where
  segment := c.initialSegmentId
  offset := smallEnvelopeBytes
  count := 0
  frontier := none
  digest := Octets.zero 32
  anchors := ∅
  inventories := ∅
  committed := (∅, ∅)
  bindings := 0
  verified := ∅
  headers := [c.initialHeader]
  ends _ := smallEnvelopeBytes

def registered (tip : Tip) (references : List BlobReference) : CommittedBlobs × CommittedBlobBytes :=
  match references.foldlM registerCommittedBlob tip.committed with
  | .ok committed => committed
  | .error _ => tip.committed

variable {W : Type}

def header (c : Charter W) (tip : Tip) (e : Entry) : SegmentHeader :=
  ⟨c.database, e.segment, c.writer, tip.segment, tip.count + 1⟩

@[simp] theorem header_segmentId (c : Charter W) (tip : Tip) (e : Entry) : (tip.header c e).segmentId = e.segment := rfl

variable [Primitives]

def certificate (tip : Tip) (e : Entry) : Certificate :=
  ⟨tip.count + 1, tip.digest, e.segment, tip.count + 1, e.offset, e.encodedGroup.length, sha256 e.encodedGroup,
    e.inventoryDigest, e.logicalEventDigest⟩

def next (c : Charter W) (tip : Tip) (e : Entry) : Tip where
  segment := e.segment
  offset := e.offset + e.encodedGroup.length
  count := tip.count + 1
  frontier := some e.revision
  digest := sha256 e.encodedCertificate
  anchors := tip.anchors.insert e.revision (sha256 e.encodedCertificate)
  inventories :=
    match e.inventory with
    | some inventory => tip.inventories.insert inventory.digest
    | none => tip.inventories
  committed := tip.registered e.references
  bindings := tip.bindings + e.references.length
  verified :=
    match e.inventory with
    | some inventory => tip.verified.insert inventory.digest inventory.references.length
    | none => tip.verified
  headers := if e.rolled then tip.headers ++ [tip.header c e] else tip.headers
  ends := Function.update tip.ends e.segment (e.offset + e.encodedGroup.length)

def after (c : Charter W) (log : List Entry) : Tip := log.foldl (next c) (start c)

theorem after_snoc (c : Charter W) (log : List Entry) (e : Entry) : after c (log ++ [e]) = (after c log).next c e := by
  simp [after]

theorem ends_next_self (c : Charter W) (tip : Tip) (e : Entry) :
    (tip.next c e).ends e.segment = e.offset + e.encodedGroup.length := Function.update_self ..

variable {e : Entry}

theorem ends_next_of_ne (c : Charter W) (tip : Tip) {id : Octets 16} (other : id ≠ e.segment) :
    (tip.next c e).ends id = tip.ends id := Function.update_of_ne other ..

theorem mem_headers_next {c : Charter W} {tip : Tip} {header : SegmentHeader} :
    header ∈ (tip.next c e).headers ↔ header ∈ tip.headers ∨ e.rolled = true ∧ header = tip.header c e := by
  simp only [next]
  split <;> simp_all

@[simp] theorem after_count (c : Charter W) (log : List Entry) : (after c log).count = log.length := by
  induction log using List.reverseRecOn with
  | nil => rfl
  | append_singleton log e ih => rw [after_snoc, next, ih, length_append]; rfl

end Tip

/-- An entry that may follow the tip. -/
structure Admitted {W : Type} [Primitives] (c : Charter W) (used : BlobInventory → Prop) (tip : Tip) (e : Entry) :
    Prop where
  revision : e.revision.value = tip.count + 1
  placed : e.rolled = false → e.segment = tip.segment ∧ e.offset = tip.offset
  rolled : e.rolled = true → e.offset = smallEnvelopeBytes ∧ e.segment ≠ Octets.zero 16 ∧
    ∀ h ∈ tip.headers, h.segmentId ≠ e.segment
  group : Sealed c.key (segmentContext c.database c.epoch e.segment c.writer (tip.count + 1)) e.group e.encodedGroup
  length : validateGroupEncodedLength e.encodedGroup.length = .ok ()
  within : e.offset + e.encodedGroup.length ≤ journalSegmentLimit
  log : smallEnvelopeBytes * (tip.count + 2) ≤ certificateLogLimit
  certificate : Sealed c.key (certificateContext c.database c.epoch c.certificateLogId c.writer (tip.count + 1))
    (tip.certificate e).encode e.encodedCertificate
  bindings : tip.bindings + e.references.length ≤ maxBlobReferenceBindingsPerJournal
  registered : e.references.foldlM registerCommittedBlob tip.committed = .ok (tip.registered e.references)
  inventory : ∀ inventory, e.inventory = some inventory →
    used inventory ∧ inventory.isEmpty = false ∧ inventory.scope.database = c.database

/-- Every entry was admitted after the ones before it. -/
def Chain {W : Type} [Primitives] (c : Charter W) (used : BlobInventory → Prop) (log : List Entry) : Prop :=
  ∀ before e rest, log = before ++ e :: rest → Admitted c used (Tip.after c before) e

section

variable {W : Type} [Primitives] {c : Charter W} {used : BlobInventory → Prop} {log : List Entry} {e : Entry}

theorem Chain.nil : Chain c used [] := by
  intro before e rest split
  simp at split

theorem Chain.of_append {rest : List Entry} (h : Chain c used (log ++ rest)) : Chain c used log := by
  intro before e after split
  exact h before e (after ++ rest) (by rw [split]; simp)

theorem Chain.of_initial {long : List Entry} (h : Chain c used long) (cut : log <+: long) : Chain c used log := by
  obtain ⟨rest, rfl⟩ := cut
  exact h.of_append

theorem Chain.last (h : Chain c used (log ++ [e])) : Admitted c used (Tip.after c log) e := h log e [] rfl

theorem Chain.snoc (h : Chain c used log) (admitted : Admitted c used (Tip.after c log) e) :
    Chain c used (log ++ [e]) := by
  intro before e' rest split
  rcases eq_nil_or_concat rest with rfl | ⟨front, last, rfl⟩
  · obtain ⟨rfl, same⟩ := append_inj' split rfl
    cases same
    exact admitted
  · have whole : log ++ [e] = (before ++ e' :: front) ++ [last] := by simpa using split
    obtain ⟨rfl, -⟩ := append_inj' whole rfl
    exact h before e' front rfl

@[elab_as_elim] theorem Chain.grown {P : List Entry → Prop} (h : Chain c used log) (nil : P [])
    (snoc : ∀ log e, Chain c used log → Admitted c used (Tip.after c log) e → P log → P (log ++ [e])) : P log := by
  induction log using List.reverseRecOn with
  | nil => exact nil
  | append_singleton log e ih => exact snoc log e h.of_append h.last (ih h.of_append)

end

/-! ### Registering references -/

variable {e : StorageError} {n : Nat}

theorem checked_ok {m : Nat} (h : checked e n = .ok m) : n < wordLimit ∧ m = n := by
  obtain ⟨_, small, h⟩ := bind_ok h
  exact ⟨require_ok.mp small, (Except.ok.inj h).symm⟩

theorem checked_pos (h : n < wordLimit) : checked e n = .ok n := by
  rw [checked, require_pos _ h, ok_bind]
  rfl

section

variable {s s' : CommittedBlobs × CommittedBlobBytes} {r : BlobReference} {references : List BlobReference}

theorem registerCommittedBlob_existing (h : s.1[r.blobKey]? = some r) : registerCommittedBlob s r = .ok s := by
  unfold registerCommittedBlob
  rw [h]
  show (require (r = r) StorageError.integrityFailure >>= fun _ => pure s) = _
  rw [require_pos _ rfl, ok_bind]
  rfl

theorem registerCommittedBlob_ok (h : registerCommittedBlob s r = .ok s') : s.1[r.blobKey]? = some r ∧ s' = s ∨
    r.blobKey ∉ s.1 ∧ s.1.size + 1 ≤ maxCommittedBlobsPerJournal ∧ s'.1 = s.1.insert r.blobKey r := by
  unfold registerCommittedBlob at h
  split at h
  · rename_i existing found
    obtain ⟨_, same, done⟩ := bind_ok h
    obtain rfl := require_ok.mp same
    cases done
    exact .inl ⟨found, rfl⟩
  · rename_i missing
    obtain ⟨count, sum, _, room, _, -, _, -, h⟩ := bind_ok₄ h
    obtain ⟨-, rfl⟩ := checked_ok sum
    cases h
    exact .inr ⟨not_mem_of_none missing, require_ok.mp room, rfl⟩

theorem registerAll_size (h : references.foldlM registerCommittedBlob s = .ok s')
    (small : s.1.size ≤ maxCommittedBlobsPerJournal) : s'.1.size ≤ maxCommittedBlobsPerJournal := by
  refine foldlM_keeps (P := fun s => s.1.size ≤ maxCommittedBlobsPerJournal) h small fun _ _ _ _ h small => ?_
  obtain ⟨-, rfl⟩ | ⟨-, limit, after⟩ := registerCommittedBlob_ok h
  · exact small
  · rw [after]
    exact Nat.le_trans size_insert_le limit

theorem registerAll_existing (h : ∀ r ∈ references, s.1[r.blobKey]? = some r) :
    references.foldlM registerCommittedBlob s = .ok s := by
  induction references with
  | nil => rfl
  | cons r rest ih =>
    rw [foldlM_cons, registerCommittedBlob_existing (h r mem_cons_self), ok_bind]
    exact ih fun q mem => h q (mem_cons_of_mem r mem)

theorem registerAll_ok (h : references.foldlM registerCommittedBlob s = .ok s') :
    (∀ r ∈ references, s'.1[r.blobKey]? = some r) ∧
    ∀ (key : BlobKey) (existing : BlobReference), s.1[key]? = some existing → s'.1[key]? = some existing := by
  induction references generalizing s with
  | nil =>
    cases h
    exact ⟨nofun, fun _ _ h => h⟩
  | cons r rest ih =>
    obtain ⟨middle, first, h⟩ := foldlM_step h
    obtain ⟨later, kept⟩ := ih h
    obtain ⟨found, rfl⟩ | ⟨new, -, after⟩ := registerCommittedBlob_ok first
    · exact ⟨forall_mem_cons.mpr ⟨kept _ _ found, later⟩, kept⟩
    · rw [after] at kept
      exact ⟨forall_mem_cons.mpr ⟨kept _ _ ExtTreeMap.getElem?_insert_self, later⟩,
        fun key existing found => kept _ _ (some_insert_new new found)⟩

theorem registerAll_only (h : references.foldlM registerCommittedBlob s = .ok s') {key : BlobKey}
    (found : s'.1[key]? = some r) : s.1[key]? = some r ∨ r ∈ references ∧ r.blobKey = key := by
  induction references generalizing s with
  | nil =>
    cases h
    exact .inl found
  | cons first rest ih =>
    obtain ⟨middle, registered, h⟩ := foldlM_step h
    rcases ih h with there | ⟨mem, named⟩
    · obtain ⟨-, rfl⟩ | ⟨-, -, after⟩ := registerCommittedBlob_ok registered
      · exact .inl there
      · rw [after] at there
        obtain ⟨same, rfl⟩ | ⟨-, there⟩ := some_insert.mp there
        · exact .inr ⟨mem_cons_self, same⟩
        · exact .inl there
    · exact .inr ⟨mem_cons_of_mem _ mem, named⟩

/-- How a state of registering lags behind what the capacity check has projected. -/
structure Projected (start s : CommittedBlobs × CommittedBlobBytes) (projection : Projection) : Prop where
  count : s.1.size = projection.count
  keys : ∀ key : BlobKey, s.1[key]? = none ↔ start.1[key]? = none ∧ key ∉ projection.newKeys
  kept : ∀ (key : BlobKey) (existing : BlobReference), start.1[key]? = some existing → s.1[key]? = some existing
  bytes : ∀ scope, s.2.getD scope 0 = start.2.getD scope 0 + projection.additions.getD scope 0

variable {blobs : CommittedBlobs} {projection projection' : Projection}

theorem projectAll_kept (h : references.foldlM (projectReference blobs) projection = .ok projection') {scope : NamespaceRef}
    (mem : scope ∈ projection.additions) : scope ∈ projection'.additions := by
  refine foldlM_keeps (P := fun p => scope ∈ p.additions) h mem fun r _ p p' h mem => ?_
  unfold projectReference at h
  split at h
  · obtain ⟨_, -, h⟩ := bind_ok h
    cases h
    exact mem
  · obtain ⟨_, -, _, -, _, -, _, -, h⟩ := bind_ok₄ h
    cases h
    exact mem_insert.mpr (.inr mem)

def addedBytes (blobs : CommittedBlobs) (references : List BlobReference) (scope : NamespaceRef) : Nat :=
  ((references.filter fun r => r.scope = scope ∧ r.blobKey ∉ blobs).map (·.byteLen)).sum

theorem projectAll_additions (h : references.foldlM (projectReference blobs) projection = .ok projection')
    (scope : NamespaceRef) :
    projection'.additions.getD scope 0 = projection.additions.getD scope 0 + addedBytes blobs references scope := by
  induction references generalizing projection with
  | nil =>
    cases h
    rfl
  | cons r rest ih =>
    obtain ⟨middle, first, h⟩ := foldlM_step h
    rw [ih h]
    unfold projectReference at first
    split at first
    · rename_i existing found
      obtain ⟨_, -, first⟩ := bind_ok first
      cases first
      simp [addedBytes, mem_of_some found]
    · rename_i missing
      obtain ⟨_, -, _, -, _, -, _, sum, first⟩ := bind_ok₄ first
      obtain ⟨-, rfl⟩ := checked_ok sum
      cases first
      rw [getD_insert]
      by_cases same : r.scope = scope
      · simp [addedBytes, same, not_mem_of_none missing, Nat.add_assoc]
      · simp [addedBytes, same]

variable {start : CommittedBlobs × CommittedBlobBytes}

theorem register_projected
    (lag : Projected start s projection) (h : projectReference start.1 projection r = .ok projection')
    (room : r.scope ∈ projection'.additions →
      start.2.getD r.scope 0 + projection'.additions.getD r.scope 0 ≤ maxNamespaceBlobBytes) :
    ∃ s', registerCommittedBlob s r = .ok s' ∧ Projected start s' projection' := by
  unfold projectReference at h
  split at h
  · rename_i existing found
    obtain ⟨_, same, done⟩ := bind_ok h
    obtain rfl := require_ok.mp same
    cases done
    exact ⟨s, registerCommittedBlob_existing (lag.kept _ _ found), lag⟩
  · rename_i missing
    obtain ⟨_, fresh, count, counted, _, few, addition, sum, h⟩ := bind_ok₄ h
    obtain ⟨-, rfl⟩ := checked_ok sum
    obtain ⟨small, rfl⟩ := checked_ok counted
    cases h
    have absent : s.1[r.blobKey]? = none := (lag.keys _).mpr ⟨missing, require_ok.mp fresh⟩
    have fits := room (mem_insert_self)
    rw [getD_insert_self, ← Nat.add_assoc, ← lag.bytes] at fits
    have word : s.2.getD r.scope 0 + r.byteLen < wordLimit := Nat.lt_of_le_of_lt fits (by decide)
    refine ⟨(s.1.insert r.blobKey r, s.2.insert r.scope (s.2.getD r.scope 0 + r.byteLen)), ?_, ?_⟩
    · unfold registerCommittedBlob
      rw [absent]
      rw [lag.count, checked_pos small, ok_bind, few, ok_bind, checked_pos word, ok_bind, checkNamespaceBlobByteLimit,
        require_pos _ fits, ok_bind]
      rfl
    · refine ⟨?_, fun key => ?_, fun key existing found => ?_, fun scope => ?_⟩
      · rw [size_insert_new (not_mem_of_none absent), lag.count]
      · rw [ExtTreeMap.getElem?_insert, ExtTreeSet.mem_insert, not_or, ← and_assoc, and_right_comm, ← lag.keys]
        split <;> simp_all
      · exact some_insert_new (not_mem_of_none absent) (lag.kept _ _ found)
      · have := lag.bytes scope
        rw [getD_insert, getD_insert]
        split
        · rename_i same
          rw [← LawfulEqCmp.eq_of_compare same, lag.bytes, Nat.add_assoc]
        · exact this

theorem registerAll_projected {final : Projection} (lag : Projected start s projection)
    (h : references.foldlM (projectReference start.1) projection = .ok final) (room : ∀ scope, scope ∈ final.additions →
      start.2.getD scope 0 + final.additions.getD scope 0 ≤ maxNamespaceBlobBytes) :
    ∃ committed, references.foldlM registerCommittedBlob s = .ok committed ∧ Projected start committed final := by
  induction references generalizing s projection with
  | nil =>
    cases h
    exact ⟨s, rfl, lag⟩
  | cons r rest ih =>
    obtain ⟨middle, first, h⟩ := foldlM_step h
    obtain ⟨s', registered, lag'⟩ := register_projected lag first fun mem => by
      have := room r.scope (projectAll_kept h mem)
      have := projectAll_additions h r.scope
      omega
    obtain ⟨committed, done, lag⟩ := ih lag' h
    exact ⟨committed, by rw [foldlM_cons, registered, ok_bind, done], lag⟩

variable {bytes : CommittedBlobBytes}

/-- What the capacity check accepts can be registered, with the result it projected. -/
theorem registerAll_of_capacity (h : checkBlobCapacity blobs bytes references = .ok ()) :
    ∃ final committed, references.foldlM (projectReference blobs) ⟨blobs.size, ∅, ∅⟩ = .ok final ∧
      references.foldlM registerCommittedBlob (blobs, bytes) = .ok committed ∧ Projected (blobs, bytes) committed final := by
  obtain ⟨final, projected, h⟩ := bind_ok h
  have reached := registerAll_projected (s := (blobs, bytes)) ⟨rfl, ?_, fun _ _ h => h, ?_⟩ projected ?_
  · obtain ⟨committed, registered, lag⟩ := reached
    exact ⟨final, committed, projected, registered, lag⟩
  · simp
  · simp
  · intro scope mem
    have listed : (scope, final.additions.getD scope 0) ∈ final.additions.toList := by
      rw [mem_toList_iff_getElem?_eq_some, ExtTreeMap.getElem?_eq_some_getElem mem,
        getD_eq_getD_getElem?, ExtTreeMap.getElem?_eq_some_getElem mem]
      rfl
    obtain ⟨projected, sum, limit⟩ := bind_ok (forM_ok h _ listed)
    obtain ⟨-, rfl⟩ := checked_ok sum
    exact require_ok.mp limit

/-- What registering references makes of the blobs and the totals, and what admission projected of it. -/
structure Registered (blobs : CommittedBlobs) (bytes : CommittedBlobBytes) (references : List BlobReference)
    (projection : Projection) (after : CommittedBlobs × CommittedBlobBytes) : Prop where
  projected : references.foldlM (projectReference blobs) ⟨blobs.size, ∅, ∅⟩ = .ok projection
  registered : references.foldlM registerCommittedBlob (blobs, bytes) = .ok after
  follows : Projected (blobs, bytes) after projection
  known : ∀ (key : BlobKey) (r : BlobReference), after.1[key]? = some r ↔ blobs[key]? = some r ∨ r ∈ references ∧ r.blobKey = key
  totals : ∀ scope, after.2.getD scope 0 = bytes.getD scope 0 + addedBytes blobs references scope

theorem registered_of_capacity (h : checkBlobCapacity blobs bytes references = .ok ()) :
    ∃ projection after, Registered blobs bytes references projection after := by
  obtain ⟨projection, after, projected, registered, follows⟩ := registerAll_of_capacity h
  obtain ⟨there, kept⟩ := registerAll_ok registered
  refine ⟨projection, after, projected, registered, follows, fun key r => ⟨registerAll_only registered, ?_⟩, fun scope => ?_⟩
  · rintro (old | ⟨mem, rfl⟩)
    · exact kept key r old
    · exact there r mem
  · rw [follows.bytes, projectAll_additions projected scope]
    simp

end

/-! ### What a chain determines -/

/-- The documented behaviour of the hash and of the derived names, on the inventories in use: no two
of their encodings collide, and none collides with the empty string. -/
structure Collisionless [Primitives] (o : Origin) (used : BlobInventory → Prop) : Prop where
  empty : sha256 [] = emptyBlobInventoryDigest
  nonempty : ∀ a, used a → sha256 a.encoded = sha256 [] → a.encoded = []
  encodings : ∀ a b, used a → used b → sha256 a.encoded = sha256 b.encoded → a.encoded = b.encoded
  tokens : ∀ a b, used a → used b →
    derivePublicToken o.key (inventoryNameContext o.database o.epoch o.writer) a.digest =
      derivePublicToken o.key (inventoryNameContext o.database o.epoch o.writer) b.digest → a.digest = b.digest

section

variable {W : Type} [Primitives] {c : Charter W} {used : BlobInventory → Prop} {log : List Entry} {a : BlobInventory}

theorem Collisionless.ne_empty (d : Collisionless c.toOrigin used) (here : used a)
    (nonempty : a.isEmpty = false) : a.digest ≠ emptyBlobInventoryDigest := by
  intro same
  have blank := d.nonempty a here (same.trans d.empty.symm)
  have size := BlobInventory.length_encoded nonempty
  rw [blank] at size
  simp only [length_nil, inventoryHeaderBytes] at size
  omega

theorem Collisionless.eq (d : Collisionless c.toOrigin used) {b : BlobInventory} (ha : used a) (hb : used b)
    (nonempty : a.isEmpty = false) (nonempty' : b.isEmpty = false) (scope : a.scope.database = b.scope.database)
    (same : a.digest = b.digest) : a = b := by
  have decoded := BlobInventory.decode_encoded nonempty
  rw [d.encodings a b ha hb same, scope, BlobInventory.decode_encoded nonempty'] at decoded
  exact (Except.ok.inj decoded).symm

namespace Chain

section

variable (h : Chain c used log)

include h

theorem current : ∃ header ∈ (Tip.after c log).headers, header.segmentId = (Tip.after c log).segment := by
  refine h.grown ⟨_, mem_singleton_self _, rfl⟩ ?_
  intro log e _ admitted ⟨header, mem, same⟩
  rw [Tip.after_snoc]
  cases rolled : e.rolled with
  | true => exact ⟨_, Tip.mem_headers_next.mpr (.inr ⟨rolled, rfl⟩), rfl⟩
  | false => exact ⟨header, Tip.mem_headers_next.mpr (.inl mem), same.trans (admitted.placed rolled).1.symm⟩

theorem initial : c.initialHeader ∈ (Tip.after c log).headers := by
  refine h.grown (mem_singleton_self _) ?_
  intro log e _ _ mem
  rw [Tip.after_snoc]
  exact Tip.mem_headers_next.mpr (.inl mem)

theorem headers_valid : ∀ header ∈ (Tip.after c log).headers,
    header.database = c.database ∧ header.writer = c.writer ∧ header.segmentId ≠ Octets.zero 16 ∧
    header.firstRevision ≠ 0 ∧ header.firstRevision < 2 ^ 64 := by
  refine h.grown ?_ ?_
  · intro header mem
    obtain rfl := mem_singleton.mp mem
    exact ⟨rfl, rfl, c.segment_ne, Nat.one_ne_zero, Nat.one_lt_two_pow (by decide)⟩
  · intro log e _ admitted ih header mem
    rw [Tip.after_snoc] at mem
    rcases Tip.mem_headers_next.mp mem with mem | ⟨rolled, rfl⟩
    · exact ih header mem
    · have room := admitted.log
      simp only [smallEnvelopeBytes, certificateLogLimit] at room
      exact ⟨rfl, rfl, (admitted.rolled rolled).2.1, Nat.succ_ne_zero _, by simp only [Tip.header]; omega⟩

theorem segments : ∀ e ∈ log, ∃ header ∈ (Tip.after c log).headers, header.segmentId = e.segment := by
  refine h.grown nofun ?_
  intro log e chain admitted ih e' mem
  rw [Tip.after_snoc]
  rcases mem_append.mp mem with mem | mem
  · obtain ⟨header, there, same⟩ := ih e' mem
    exact ⟨header, Tip.mem_headers_next.mpr (.inl there), same⟩
  · obtain rfl := mem_singleton.mp mem
    cases rolled : e'.rolled with
    | true => exact ⟨_, Tip.mem_headers_next.mpr (.inr ⟨rolled, rfl⟩), rfl⟩
    | false =>
      obtain ⟨header, there, same⟩ := chain.current
      exact ⟨header, Tip.mem_headers_next.mpr (.inl there), same.trans (admitted.placed rolled).1.symm⟩

theorem frontier_eq : ((Tip.after c log).frontier = none ∧ log.length = 0) ∨
    ∃ revision, (Tip.after c log).frontier = some revision ∧ revision.value = log.length := by
  refine h.grown (.inl ⟨rfl, rfl⟩) ?_
  intro log e _ admitted _
  refine .inr ⟨e.revision, by rw [Tip.after_snoc]; rfl, ?_⟩
  rw [admitted.revision, Tip.after_count, length_append]
  rfl

theorem revisions : log.map (·.revision.value) = List.range' 1 log.length := by
  refine h.grown rfl ?_
  intro log e _ admitted ih
  rw [map_append, ih, length_append, length_singleton, List.range'_1_concat, map_singleton,
    admitted.revision, Tip.after_count, Nat.add_comm 1]

theorem room : smallEnvelopeBytes * (log.length + 1) ≤ certificateLogLimit := by
  refine h.grown (by decide) ?_
  intro log e _ admitted _
  have room := admitted.log
  rw [Tip.after_count] at room
  rwa [length_append]

theorem bindings_le : (Tip.after c log).bindings ≤ maxBlobReferenceBindingsPerJournal := by
  refine h.grown (Nat.zero_le _) ?_
  intro log e _ admitted _
  rw [Tip.after_snoc]
  exact admitted.bindings

theorem offset_eq : (Tip.after c log).offset = (Tip.after c log).ends (Tip.after c log).segment := by
  refine h.grown rfl ?_
  simp [Tip.after_snoc, Tip.next]

theorem ends_le : (∀ e ∈ log, e.offset + e.encodedGroup.length ≤ (Tip.after c log).ends e.segment) ∧
    ∀ id, smallEnvelopeBytes ≤ (Tip.after c log).ends id := by
  refine h.grown ⟨nofun, fun _ => Nat.le_refl _⟩ ?_
  intro log e chain admitted ⟨ends, small⟩
  have offset := chain.offset_eq
  have after : (Tip.after c log).ends e.segment ≤ e.offset ∨ e.rolled = true := by
    cases rolled : e.rolled with
    | true => exact .inr rfl
    | false =>
      obtain ⟨segment, place⟩ := admitted.placed rolled
      rw [segment, place, offset]
      exact .inl (Nat.le_refl _)
  have here : smallEnvelopeBytes ≤ e.offset := by
    rcases after with le | rolled
    · exact Nat.le_trans (small _) le
    · rw [(admitted.rolled rolled).1]
  rw [Tip.after_snoc]
  constructor
  · intro e' mem
    rcases mem_append.mp mem with mem | mem
    · by_cases same : e'.segment = e.segment
      · rcases after with le | rolled
        · rw [same, Tip.ends_next_self]
          have := ends e' mem
          rw [same] at this
          omega
        · obtain ⟨header, there, named⟩ := chain.segments e' mem
          exact absurd (named.trans same) ((admitted.rolled rolled).2.2 header there)
      · rw [Tip.ends_next_of_ne _ _ same]
        exact ends e' mem
    · obtain rfl := mem_singleton.mp mem
      rw [Tip.ends_next_self]
  · intro id
    by_cases same : id = e.segment
    · rw [same, Tip.ends_next_self]
      omega
    · rw [Tip.ends_next_of_ne _ _ same]
      exact small id

theorem committed_size : (Tip.after c log).committed.1.size ≤ maxCommittedBlobsPerJournal := by
  refine h.grown ?_ ?_
  · show (∅ : CommittedBlobs).size ≤ _
    exact Nat.zero_le _
  · intro log e _ admitted ih
    rw [Tip.after_snoc]
    exact registerAll_size admitted.registered ih

theorem blobs : ∀ e ∈ log, ∀ r ∈ e.references, (Tip.after c log).committed.1[r.blobKey]? = some r := by
  refine h.grown nofun ?_
  intro log e chain admitted ih e' mem r there
  obtain ⟨here, kept⟩ := registerAll_ok admitted.registered
  rw [Tip.after_snoc]
  rcases mem_append.mp mem with mem | mem
  · exact kept _ _ (ih e' mem r there)
  · obtain rfl := mem_singleton.mp mem
    exact here r there

theorem mem_inventories {digest : Octets 32} : digest ∈ (Tip.after c log).inventories ↔
    ∃ e ∈ log, ∃ inventory, e.inventory = some inventory ∧ inventory.digest = digest := by
  refine h.grown ?_ ?_
  · simp [Tip.after, Tip.start]
  · intro log e _ _ ih
    rw [Tip.after_snoc]
    cases found : e.inventory with
    | none => simp [Tip.next, found, ih, or_and_right, exists_or]
    | some inventory =>
      simp only [Tip.next, found, ExtTreeSet.mem_insert, ih, Std.compare_eq_iff_eq, mem_append, mem_singleton]
      constructor
      · rintro (rfl | ⟨e', mem, rest⟩)
        · exact ⟨e, .inr rfl, inventory, found, rfl⟩
        · exact ⟨e', .inl mem, rest⟩
      · rintro ⟨e', mem | rfl, inventory', there, same⟩
        · exact .inr ⟨e', mem, inventory', there, same⟩
        · rw [found] at there
          cases there
          exact .inl same

theorem inventory_of_mem : ∀ e ∈ log, ∀ inventory, e.inventory = some inventory →
    used inventory ∧ inventory.isEmpty = false ∧ inventory.scope.database = c.database := by
  refine h.grown nofun ?_
  intro log e _ admitted ih e' mem
  rcases mem_append.mp mem with mem | mem
  · exact ih e' mem
  · obtain rfl := mem_singleton.mp mem
    exact admitted.inventory

theorem verified_eq (d : Collisionless c.toOrigin used) (digest : Octets 32) (count : Nat) :
    (Tip.after c log).verified[digest]? = some count ↔
      ∃ e ∈ log, ∃ inventory, e.inventory = some inventory ∧ inventory.digest = digest ∧
        inventory.references.length = count := by
  refine h.grown ?_ ?_
  · simp [Tip.after, Tip.start]
  · intro log e chain admitted ih
    rw [Tip.after_snoc]
    cases found : e.inventory with
    | none => simp [Tip.next, found, ih, or_and_right, exists_or]
    | some inventory =>
      simp only [Tip.next, found, ExtTreeMap.getElem?_insert, Std.compare_eq_iff_eq]
      obtain ⟨inUse, nonempty, scope⟩ := admitted.inventory inventory found
      split
      · rename_i same
        constructor
        · intro counted
          exact ⟨e, by simp, inventory, found, same, Option.some.inj counted⟩
        · rintro ⟨e', mem, inventory', there, same', rfl⟩
          rcases mem_append.mp mem with mem | mem
          · obtain ⟨inUse', nonempty', scope'⟩ := chain.inventory_of_mem e' mem inventory' there
            rw [d.eq inUse inUse' nonempty nonempty' (scope.trans scope'.symm) (same.trans same'.symm)]
          · rw [mem_singleton.mp mem, found] at there
            cases there
            rfl
      · rename_i other
        rw [ih]
        constructor
        · rintro ⟨e', mem, rest⟩
          exact ⟨e', mem_append_left _ mem, rest⟩
        · rintro ⟨e', mem, inventory', there, same, rfl⟩
          rcases mem_append.mp mem with mem | mem
          · exact ⟨e', mem, inventory', there, same, rfl⟩
          · rw [mem_singleton.mp mem, found] at there
            cases there
            exact absurd same other

end

end Chain

end

end Uste.Storage
