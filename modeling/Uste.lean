import Uste.Crypto.Guarantees
import Uste.Index.CommitmentExact
import Uste.Memory.Freshness
import Uste.Memory.Knowledge
import Uste.Memory.Migration
import Uste.Memory.PilotWire
import Uste.Metadata.Journal
import Uste.Storage.BlobRange
import Uste.Storage.UploadRuns
import Uste.Time.Present
import Uste.Txn.Enforcement
import Uste.Txn.Resume
