import FlorenceServer.Types.JobRecord

/-!
# Configuration

The settings of `config.rs` that the job code reads.  Every value is arbitrary:
the results hold for each setting unless they name a condition on it.
-/

namespace FlorenceServer

structure Config where
  imagesDir : PathBuf
  jobRetentionLimit : Nat
  metadataRetentionLimit : Nat
  workers : Nat
  queueSize : Nat
  jobTimeoutSeconds : Nat
  webhookMaxAttempts : Nat
  webhookInitialBackoffMs : Nat
deriving DecidableEq, Repr

/-- The defaults of `config/defaults.rs` under the data directory `data`. -/
def Config.default : Config where
  imagesDir := ["data", "images"]
  jobRetentionLimit := 1000
  metadataRetentionLimit := 10000
  workers := 1
  queueSize := 128
  jobTimeoutSeconds := 300
  webhookMaxAttempts := 1
  webhookInitialBackoffMs := 500

end FlorenceServer
