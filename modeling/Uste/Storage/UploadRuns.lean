import Uste.Storage.Session
import Uste.Storage.Upload

/-!
Uploads through any number of handles: whichever of them ends an upload, the others learn of that end.
-/

namespace Uste.Storage

open Crypto Program List

inductive UploadCall where
  | write (input : List UInt8)
  | finish
  | abort

section Runs

variable [Primitives]

/-- Where a call succeeds, it tells how the upload stands. -/
def UploadCall.run (owner : UploadOwner) (io : UploadIo) : UploadCall → UploadProgram TerminalState
  | .write input => do
    writeUpload owner io input
    pure .none
  | .finish => do
    let reference ← finishUpload owner io
    pure (.final reference)
  | .abort => do
    abortUpload owner io
    pure .aborted

/-- Any number of handles, used and lost in any order, whatever the files answer. The latest report comes first. -/
inductive UploadRun (first : UploadStore) : List BlobUpload → UploadStore → List (BlobUploadToken × TerminalState) → Prop where
  | begin : UploadRun first [] first []
  | start {handles store reports token owner io upload} (run : UploadRun first handles store reports)
      (started : BlobUpload.new token owner io = .ok upload) : UploadRun first (upload :: handles) store reports
  | resume {handles store store' reports token owner io upload} (run : UploadRun first handles store reports)
      (resumed : (resumeUpload owner io token).run store = (.ok upload, store')) :
      UploadRun first (upload :: handles) store' reports
  | call {handles store store' reports owner io upload upload' result} {i : Nat} (run : UploadRun first handles store reports)
      (handle : handles[i]? = some upload) (call : UploadCall)
      (ran : (call.run owner io).run (upload, store) = (result, upload', store')) :
      UploadRun first (handles.set i upload') store' (result.toOption.toList.map (Prod.mk upload.token) ++ reports)
  | drop {handles store reports} (i : Nat) (run : UploadRun first handles store reports) :
      UploadRun first (handles.eraseIdx i) store reports

theorem UploadCall.run_spec {s : BlobUpload × UploadStore} (owner : UploadOwner) (io : UploadIo) (call : UploadCall)
    (consistent : Consistent s) : wp (call.run owner io)
      (fun state s' => (∃ added, Moves added s s') ∧
        (state = .none ∧ (s.2.get s.1.token).terminal = .none ∨ (s'.2.get s.1.token).terminal = state))
      (fun _ s' => ∃ added, Moves added s s') s := by
  cases call with
  | write input =>
    refine wp_step (writeUpload_spec input) (fun _ s' written => ?_) fun _ _ failed => ⟨_, failed.moves⟩
    exact ⟨⟨_, written.1.moves⟩, .inl ⟨rfl, written.2.1⟩⟩
  | finish =>
    exact wp_step (finishUpload_spec consistent) (fun _ s' ended => ⟨⟨_, ended.1⟩, .inr ended.2⟩) fun _ _ moved => ⟨_, moved⟩
  | abort =>
    exact wp_step (abortUpload_spec consistent) (fun _ s' ended => ⟨⟨_, ended.1⟩, .inr ended.2⟩) fun _ _ moved => ⟨_, moved⟩

end Runs

section

attribute [local instance] plainPrimitives

def sampleOwner : UploadOwner := ⟨default, .first, sampleOnes⟩

def sampleUpload : BlobUpload := .fresh ⟨⟨default, default⟩, sampleOnes⟩ sampleOwner

end

end Uste.Storage
