import Mathlib.Tactic

/-!
# Shared counters

The counters of `state.rs` that the workers update.  Every counter is an
`AtomicUsize`: one `fetch_add` is one atomic step and wraps around.  The updates
that end a job are several `fetch_add`s one after the other, so they are kept as
a list that a worker works off.
-/

namespace FlorenceServer

section Counters

/-- The number of values of a 64-bit `usize`. -/
def usizeCount : Nat := 2 ^ 64

/-- `usize::MAX`. -/
def usizeMax : Nat := usizeCount - 1

/-- `AtomicUsize::fetch_add`. -/
def fetchAdd (counter amount : Nat) : Nat :=
  (counter + amount) % usizeCount

/-- `usize::try_from(elapsed_ms).unwrap_or(usize::MAX)`. -/
def elapsedUsize (elapsedMs : Nat) : Nat :=
  min elapsedMs usizeMax

end Counters

/-- `WorkerPoolState`. -/
structure WorkerPoolState where
  expected : Nat
  ready : Nat
  failed : Nat
deriving DecidableEq, Repr

namespace WorkerPoolState

def new (expected : Nat) : WorkerPoolState where
  expected := expected
  ready := 0
  failed := 0

def markReady (pool : WorkerPoolState) : WorkerPoolState :=
  { pool with ready := fetchAdd pool.ready 1 }

def markFailed (pool : WorkerPoolState) : WorkerPoolState :=
  { pool with failed := fetchAdd pool.failed 1 }

/-- `checked_sub`: a counter at zero is left alone. -/
def markStopped (pool : WorkerPoolState) : WorkerPoolState :=
  if pool.ready = 0 then pool else { pool with ready := pool.ready - 1 }

def isReady (pool : WorkerPoolState) : Bool :=
  decide (0 < pool.ready)

end WorkerPoolState

/-- The counters of `AppMetrics` that the job code updates. -/
structure AppMetrics where
  jobsStarted : Nat
  jobsSucceeded : Nat
  jobsFailed : Nat
  jobsTimedOut : Nat
  workerRestarts : Nat
  totalInferenceMs : Nat
  modelLoadMs : Nat
  webhookFailures : Nat
  cleanupFailures : Nat
deriving DecidableEq, Repr

/-- One `fetch_add` on the metrics at the end of a job. -/
inductive CounterUpdate where
  | jobsSucceeded
  | jobsFailed
  | jobsTimedOut
  | workerRestarts
  | totalInferenceMs (elapsedMs : Nat)
deriving DecidableEq, Repr

namespace AppMetrics

/-- `AppMetrics::default`. -/
def default : AppMetrics where
  jobsStarted := 0
  jobsSucceeded := 0
  jobsFailed := 0
  jobsTimedOut := 0
  workerRestarts := 0
  totalInferenceMs := 0
  modelLoadMs := 0
  webhookFailures := 0
  cleanupFailures := 0

def recordJobStarted (metrics : AppMetrics) : AppMetrics :=
  { metrics with jobsStarted := fetchAdd metrics.jobsStarted 1 }

def recordModelLoad (metrics : AppMetrics) (elapsedMs : Nat) : AppMetrics :=
  { metrics with modelLoadMs := elapsedUsize elapsedMs }

def recordWebhookFailure (metrics : AppMetrics) : AppMetrics :=
  { metrics with webhookFailures := fetchAdd metrics.webhookFailures 1 }

def recordCleanupFailure (metrics : AppMetrics) : AppMetrics :=
  { metrics with cleanupFailures := fetchAdd metrics.cleanupFailures 1 }

def apply (metrics : AppMetrics) : CounterUpdate → AppMetrics
  | .jobsSucceeded =>
      { metrics with jobsSucceeded := fetchAdd metrics.jobsSucceeded 1 }
  | .jobsFailed =>
      { metrics with jobsFailed := fetchAdd metrics.jobsFailed 1 }
  | .jobsTimedOut =>
      { metrics with jobsTimedOut := fetchAdd metrics.jobsTimedOut 1 }
  | .workerRestarts =>
      { metrics with workerRestarts := fetchAdd metrics.workerRestarts 1 }
  | .totalInferenceMs elapsedMs =>
      { metrics with
        totalInferenceMs :=
          fetchAdd metrics.totalInferenceMs (elapsedUsize elapsedMs) }

end AppMetrics

namespace CounterUpdate

/-- `record_job_succeeded`. -/
def recordJobSucceeded (elapsedMs : Nat) : List CounterUpdate :=
  [.jobsSucceeded, .totalInferenceMs elapsedMs]

/-- `record_job_failed`. -/
def recordJobFailed (elapsedMs : Nat) : List CounterUpdate :=
  [.jobsFailed, .totalInferenceMs elapsedMs]

/-- `record_job_timed_out`. -/
def recordJobTimedOut (elapsedMs : Nat) : List CounterUpdate :=
  .jobsTimedOut :: recordJobFailed elapsedMs

/-- `record_worker_restart`. -/
def recordWorkerRestart : List CounterUpdate :=
  [.workerRestarts]

end CounterUpdate
end FlorenceServer
