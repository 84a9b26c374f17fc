import Uste.Foundation.Cursor
import Uste.Memory.Pilot

/-! The canonical requests of the memory pilot. -/

namespace Uste.Memory

open Types Crypto Policy Storage Txn
open Time (UtcInstant)

inductive MemoryCodecError where
  | invalid
  | resourceLimit
  | unsupportedVersion
  deriving DecidableEq, Repr

def MemoryCodecError.apply : MemoryCodecError → ApplyError
  | .resourceLimit => .resourceLimit
  | .invalid => .invalidRequest
  | .unsupportedVersion => .invalidRequest

def headerBytes : Nat := 48

/-! ### Encoding -/

def encodeString (value : String) : Except MemoryCodecError (List UInt8) := do
  require (Utf8.len value < 2 ^ 32) .resourceLimit
  pure (bigEndian 4 (Utf8.len value) ++ Utf8.bytes value)

def encodeOptionalString : Option String → Except MemoryCodecError (List UInt8)
  | some value => (1 :: ·) <$> encodeString value
  | none => pure [0]

def encodeOptionalInstant : Option UtcInstant → List UInt8
  | some instant => 1 :: encodeInstant instant
  | none => [0]

def encodeSourceId (id : SourceVersionId) : List UInt8 := id.source.id.bytes.bytes ++ bigEndian 4 id.version

def encodeLocator : SourceLocator → List UInt8
  | .byteRange first last => 1 :: bigEndian 8 first ++ bigEndian 8 last
  | .utf8Lines first last firstLine lastLine =>
    2 :: bigEndian 8 first ++ bigEndian 8 last ++ bigEndian 4 firstLine ++ bigEndian 4 lastLine

def encodeSource (source : SourceVersionInput) : Except MemoryCodecError (List UInt8) := do
  let mediaType ← encodeString source.mediaType
  let text ← encodeOptionalString source.exactUtf8
  pure (encodeSourceId source.id ++ source.blob.id.bytes ++ bigEndian 8 source.blob.byteLen ++
    bigEndian 4 source.blob.chunkCount ++ source.blob.contentDigest.bytes ++ mediaType ++ text ++
    encodeOptionalInstant source.sourceEventTime)

def encodeFact (fact : FactInput) : Except MemoryCodecError (List UInt8) := do
  let subject ← encodeString fact.subject
  let predicate ← encodeString fact.predicate
  let value ← encodeString fact.value
  require (fact.links.length < 2 ^ 32) .resourceLimit
  pure (fact.id.id.bytes.bytes ++ subject ++ predicate ++ value ++ bigEndian 4 fact.links.length ++
    fact.links.flatMap (·.id.bytes.bytes) ++ encodeSourceId fact.source ++ encodeLocator fact.locator ++
    encodeOptionalInstant fact.sourceEventTime)

def MemoryMutation.tag : MemoryMutation → UInt8
  | .beginRebuild _ => 1
  | .putSource _ => 2
  | .putFact _ => 3
  | .correctFact _ _ => 4
  | .retractFact _ => 5
  | .revokeSource _ => 6
  | .completeRebuild => 7

def encodeMutation : MemoryMutation → Except MemoryCodecError (List UInt8)
  | .beginRebuild nextGeneration => pure (bigEndian 8 nextGeneration)
  | .putSource source => encodeSource source
  | .putFact fact => encodeFact fact
  | .correctFact target replacement => (target.id.bytes.bytes ++ ·) <$> encodeFact replacement
  | .retractFact target => pure target.id.bytes.bytes
  | .revokeSource source => pure (encodeSourceId source)
  | .completeRebuild => pure []

def encodeTransaction (transaction : MemoryTransaction) : Except MemoryCodecError (List UInt8) := do
  let body ← encodeMutation transaction.mutation
  let output := ascii "UMEM" ++ [1, 0, transaction.mutation.tag, 0] ++ transaction.scope.database.bytes.bytes ++
    transaction.scope.namespaceId.bytes.bytes ++ bigEndian 8 transaction.generation ++ body
  require (output.length ≤ pilotProfile.maximumRequestBytes) .resourceLimit
  pure output

/-! ### Decoding -/

abbrev Cursor := Reader MemoryCodecError

namespace Cursor

def array (n : Nat) : Cursor (Octets n) := Reader.array .invalid n
def byte : Cursor UInt8 := Reader.byte .invalid
def u32 : Cursor Nat := Reader.word .invalid 4
def u64 : Cursor Nat := Reader.word .invalid 8
def string (maximum : Nat) : Cursor String := Reader.string .invalid .resourceLimit maximum
def optionalString (maximum : Nat) : Cursor (Option String) := Reader.optional .invalid (string maximum)

def record (scope : NamespaceRef) : Cursor RecordRef := do
  let id ← array 16
  pure ⟨scope, ⟨id⟩⟩

def instant : Cursor (Option UtcInstant) := Reader.optional .invalid do
  let seconds ← u64
  let nanoseconds ← u32
  Program.lift id (orError .invalid (UtcInstant.new (ofSigned seconds) nanoseconds))

def locator : Cursor SourceLocator := do
  let tag ← byte
  let first ← u64
  let last ← u64
  if tag = 1 then pure (.byteRange first last)
  else if tag = 2 then do
    let firstLine ← u32
    let lastLine ← u32
    pure (.utf8Lines first last firstLine lastLine)
  else Program.fail .invalid

end Cursor

open Cursor

def decodeSourceId (scope : NamespaceRef) : Cursor SourceVersionId := do
  let source ← record scope
  let version ← u32
  pure ⟨source, version⟩

def decodeSource (scope : NamespaceRef) : Cursor SourceVersionInput := do
  let id ← decodeSourceId scope
  let blobId ← array 16
  let byteLen ← u64
  let chunkCount ← u32
  let contentDigest ← array 32
  let blob : BlobReference := ⟨scope, blobId, byteLen, chunkCount, contentDigest⟩
  Program.ensure (blob.validReferenceShape = true) .invalid
  let mediaType ← string 256
  let exactUtf8 ← optionalString pilotProfile.maximumTextBytesPerVersion
  let sourceEventTime ← instant
  pure ⟨id, blob, mediaType, exactUtf8, sourceEventTime⟩

def decodeFact (scope : NamespaceRef) : Cursor FactInput := do
  let id ← record scope
  let subject ← string pilotProfile.maximumFactFieldBytes
  let predicate ← string pilotProfile.maximumFactFieldBytes
  let value ← string pilotProfile.maximumFactFieldBytes
  let count ← u32
  Program.ensure (count ≤ pilotProfile.maximumFactLinks) .resourceLimit
  let links ← Reader.replicate count (record scope)
  let source ← decodeSourceId scope
  let locator ← locator
  let sourceEventTime ← instant
  pure ⟨id, subject, predicate, value, links, source, locator, sourceEventTime⟩

def decodeMutation (tag : UInt8) (scope : NamespaceRef) : Cursor MemoryMutation :=
  match tag with
  | 1 => .beginRebuild <$> u64
  | 2 => .putSource <$> decodeSource scope
  | 3 => .putFact <$> decodeFact scope
  | 4 => do
    let target ← record scope
    let replacement ← decodeFact scope
    pure (.correctFact target replacement)
  | 5 => .retractFact <$> record scope
  | 6 => .revokeSource <$> decodeSourceId scope
  | 7 => pure .completeRebuild
  | _ => Program.fail .invalid

def transactionCursor : Cursor MemoryTransaction := do
  let magic ← Reader.take .invalid 4
  Program.ensure (magic = ascii "UMEM") .invalid
  let major ← byte
  Program.ensure (major = 1) .unsupportedVersion
  let minor ← byte
  Program.ensure (minor = 0) .unsupportedVersion
  let tag ← byte
  let reserved ← byte
  Program.ensure (reserved = 0) .invalid
  let database ← array 16
  let namespaceId ← array 16
  let generation ← u64
  let scope : NamespaceRef := ⟨⟨database⟩, ⟨namespaceId⟩⟩
  let mutation ← decodeMutation tag scope
  let rest ← Program.read
  Program.ensure (rest = []) .invalid
  pure ⟨scope, generation, mutation⟩

def decodeTransaction (input : List UInt8) : Except MemoryCodecError MemoryTransaction := do
  require (input.length ≤ pilotProfile.maximumRequestBytes) .resourceLimit
  let transaction ← (transactionCursor.run input).1
  require (headerBytes ≤ input.length) .invalid
  pure transaction

end Uste.Memory
