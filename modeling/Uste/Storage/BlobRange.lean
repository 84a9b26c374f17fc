import Uste.Storage.Session

/-!
Reading a range of a blob: whatever the range has to do with the chunks, the buffer gets the part
of the content it asks for, as far as there is content.
-/

namespace Uste.Storage

open Types Crypto Program FileSystem Std

section Range

variable {F W E : Type} {H : Handles} [FileSystem F H] [Primitives] {quiet : Prop} (M : FileModel F Kept quiet)
  {fs : F} {v : View EntryName H} {d : H.Directory} {o : Origin} {vault : KeyVault W E} {reference : BlobReference}
  {data output : List UInt8} {offset : Nat}

theorem chunk_of_position {position : Nat} (content : o.Content v.now reference reference.chunkCount data)
    (whole : data.length = reference.byteLen) (inside : position < reference.byteLen) :
    position / blobChunkBytes < reference.chunkCount ∧
    position % blobChunkBytes < min (reference.byteLen - position / blobChunkBytes * blobChunkBytes) blobChunkBytes := by
  have size := content.length_eq
  have chunk : 0 < blobChunkBytes := by decide
  have split := Nat.div_add_mod' position blobChunkBytes
  have rest := Nat.mod_lt position chunk
  refine ⟨(Nat.div_lt_iff_lt_mul chunk).mpr (by omega), by omega⟩

omit [Primitives] in
theorem taken_bounds {wanted copied length within take : Nat} (taken : min (wanted - copied) (length - within) = take)
    (more : copied < wanted) (short : within < length) :
    copied < copied + take ∧ copied + take ≤ wanted ∧ within + take ≤ length := by
  omega

theorem readRangeLoop_spec (opens : o.Opens vault) (handle : v.directories d) (verified : o.Verified v.now reference)
    (content : o.Content v.now reference reference.chunkCount data) (whole : data.length = reference.byteLen)
    {wanted : Nat} (fits : offset + wanted ≤ reference.byteLen) (room : wanted ≤ output.length) (rounds copied : Nat)
    (within : copied ≤ wanted) (enough : wanted - copied ≤ rounds) (shows : M.Shows fs v) :
    wp (readRangeLoop d vault o.epoch o.writer reference wanted rounds copied (offset + copied)
        (slice data offset copied ++ output.drop copied))
      (fun r fs' => M.Shows fs' v ∧ r = (wanted, slice data offset wanted ++ output.drop wanted))
      (fun _ fs' => M.Shows fs' v ∧ ¬ quiet) fs := by
  induction rounds generalizing fs copied with
  | zero =>
    obtain rfl : copied = wanted := by omega
    rw [readRangeLoop, if_neg (Nat.lt_irrefl _), wp_pure]
    exact ⟨shows, rfl⟩
  | succ rounds ih =>
    unfold readRangeLoop
    by_cases more : copied < wanted
    · obtain ⟨there, short⟩ := chunk_of_position content whole (by omega : offset + copied < reference.byteLen)
      have holds := content.held there
      have few := (BlobReference.shape_bounds verified.shape).2
      rw [if_pos more]
      refine wp_checks (fun _ => ?_) fun large => absurd (Nat.lt_trans there few) large
      refine openChunk_wp M opens shows handle verified.scope (fun plaintext fs' shows decrypts => ?_)
        fun _ fs' shows failed => ⟨shows, fun q => failed q _ holds.file⟩
      obtain rfl := Origin.Decrypts.unique holds.file decrypts
      have length := holds.length
      rw [expectedChunkLen, require_pos _ there, ok_bind, wp_bind]
      refine wp_lift.mpr ⟨?_, by rintro _ ⟨⟩⟩
      rintro expected ⟨⟩
      refine wp_checks (fun accepted => ?_) fun other => absurd ⟨length, length ▸ short⟩ other
      generalize taken : min (wanted - copied) _ = take
      obtain ⟨some, most, inChunk⟩ := taken_bounds taken more (length ▸ short)
      have fitsChunk := Nat.le_trans inChunk (length ▸ Nat.min_le_right _ _)
      clear taken inChunk length short accepted
      have last := Nat.lt_of_le_of_lt fits (BlobReference.shape_bounds verified.shape).1
      have counted : offset + copied + take < wordLimit := by
        rw [Nat.add_assoc]
        exact Nat.lt_of_le_of_lt (Nat.add_le_add_left most offset) last
      refine wp_checks (fun _ => ?_) fun large => absurd counted large
      have size : (slice data offset copied).length = copied := length_slice (by omega)
      have filled : (slice data offset copied ++ output.drop copied).take copied ++
          slice (slice data ((offset + copied) / blobChunkBytes * blobChunkBytes) blobChunkBytes)
            ((offset + copied) % blobChunkBytes) take ++ (slice data offset copied ++ output.drop copied).drop (copied + take) =
          slice data offset (copied + take) ++ output.drop (copied + take) := by
        rw [slice_within fitsChunk, Nat.div_add_mod', List.take_left' size, slice_join rfl]
        rw [List.drop_append, List.drop_eq_nil_of_le (by omega), List.nil_append, List.drop_drop, size, Nat.add_sub_cancel_left]
      rw [filled, Nat.add_assoc]
      exact ih (copied + take) (by omega) (by omega) shows
    · obtain rfl : copied = wanted := by omega
      rw [if_neg more, wp_pure]
      exact ⟨shows, rfl⟩

end Range

def sampleBlob : BlobReference := ⟨⟨default, default⟩, sampleOnes, 0, 0, emptyBlobInventoryDigest⟩

section

attribute [local instance] plainPrimitives

end

end Uste.Storage
