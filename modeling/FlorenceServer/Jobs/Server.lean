import FlorenceServer.Api.Submit
import FlorenceServer.Jobs.Webhook

/-!
# The state of one server process

Everything the request handlers and the worker loops share, with the point at
which each `enqueue_record` call and each worker loop stands.  What a process
did is kept in two logs that no step reads: the effects on the jobs and the
responses of `get_job`.
-/

namespace FlorenceServer

variable {M : Type}

section WorkerLoops

/-- Where a `worker_loop` stands, from one wait or lock to the next.  The flag
`restart` is the value that `process_worker_request` will return. -/
inductive WorkerLoop (M : Type) where
  /-- in `FlorenceWorker::new` -/
  | initializing
  /-- the model is loaded, before `mark_ready` -/
  | loaded
  /-- in `queue_rx.recv` -/
  | receiving
  /-- before `record_job_started` -/
  | received (request : JobRequest)
  /-- before the locked section of `mark_running` -/
  | started (request : JobRequest)
  /-- in `wait_for_inference` -/
  | inferring (request : JobRequest)
  /-- counter updates to go before the first locked section of `finish_job` -/
  | finishing (request : JobRequest) (updates : List CounterUpdate)
      (result : Except String M) (restart : Bool)
  /-- before the append to the results file -/
  | appending (record : JobRecord M) (restart : Bool)
  /-- before `send_webhook` -/
  | notifying (record : JobRecord M) (restart : Bool)
  /-- before `cleanup_job_artifacts` -/
  | cleaning (record : JobRecord M) (restart : Bool)
  /-- before the second locked section of `finish_job` -/
  | retaining (restart : Bool)
  /-- before `mark_stopped` -/
  | stopping (restart : Bool)
  /-- before the loop returns and drops its receiver -/
  | leaving
  | returned

/-- How far a worker is with the request it holds. -/
inductive HeldPc (M : Type) where
  /-- before `mark_running` -/
  | waiting
  /-- before the first locked section of `finish_job` -/
  | executing
  | appending (record : JobRecord M)
  | notifying (record : JobRecord M)
  | cleaning (record : JobRecord M)

namespace WorkerLoop

/-- The job a worker is busy with. -/
def held : WorkerLoop M → Option (Uuid × HeldPc M)
  | .received request => some (request.id, .waiting)
  | .started request => some (request.id, .waiting)
  | .inferring request => some (request.id, .executing)
  | .finishing request _ _ _ => some (request.id, .executing)
  | .appending record _ => some (record.id, .appending record)
  | .notifying record _ => some (record.id, .notifying record)
  | .cleaning record _ => some (record.id, .cleaning record)
  | .initializing | .loaded | .receiving | .retaining _ | .stopping _
  | .leaving | .returned => none

def isReturned : WorkerLoop M → Bool
  | .returned => true
  | _ => false

/-- The loop goes on after `process_worker_request`. -/
def afterRequest (restart : Bool) : WorkerLoop M :=
  if restart then .stopping true else .receiving

@[simp] theorem held_afterRequest (restart : Bool) :
    (afterRequest restart : WorkerLoop M).held = none := by
  cases restart <;> rfl

/-- A worker that holds a record to be appended stands before the append. -/
theorem eq_appending_of_held
    {loop : WorkerLoop M} {id : Uuid} {final : JobRecord M}
    (h : loop.held = some (id, .appending final)) :
    final.id = id ∧ ∃ restart, loop = .appending final restart := by
  cases loop with
  | appending current restart =>
      cases h
      exact ⟨rfl, restart, rfl⟩
  | _ => cases h

/-- A worker that holds a record to be sent stands before the webhook call. -/
theorem eq_notifying_of_held
    {loop : WorkerLoop M} {id : Uuid} {final : JobRecord M}
    (h : loop.held = some (id, .notifying final)) :
    final.id = id ∧ ∃ restart, loop = .notifying final restart := by
  cases loop with
  | notifying current restart =>
      cases h
      exact ⟨rfl, restart, rfl⟩
  | _ => cases h

end WorkerLoop
end WorkerLoops

section Effects

/-- What happened to a job. -/
inductive Effect (M : Type) where
  /-- `enqueue_record` was called -/
  | submitted (record : JobRecord M)
  /-- the request was sent to the queue -/
  | accepted (id : Uuid)
  /-- the first locked section of `finish_job` found the record -/
  | finished (record : JobRecord M)
  /-- `job missing while finishing` -/
  | missing (id : Uuid)
  | appended (record : JobRecord M) (outcome : AppendOutcome)
  | webhook (record : JobRecord M) (delivery : Delivery M)
  | cleanup (record : JobRecord M) (removal : Option RemoveFile)
  /-- `load_jobs` appended the recovered record -/
  | recovered (record : JobRecord M)

def Effect.jobId : Effect M → Uuid
  | .submitted record => record.id
  | .accepted id => id
  | .finished record => record.id
  | .missing id => id
  | .appended record _ => record.id
  | .webhook record _ => record.id
  | .cleanup record _ => record.id
  | .recovered record => record.id

/-- The first locked section of `finish_job` was entered. -/
def Effect.entersFinish : Effect M → Bool
  | .finished _ | .missing _ => true
  | _ => false

def Effect.isWebhook : Effect M → Bool
  | .webhook _ _ => true
  | _ => false

def Effect.isCleanup : Effect M → Bool
  | .cleanup _ _ => true
  | _ => false

end Effects

structure Server (M : Type) where
  /-- `AppState::jobs` -/
  jobs : JobMap M
  /-- the requests in the channel -/
  queue : List JobRequest
  /-- the `AppState` clones that hold a sender of the channel -/
  senders : Nat
  /-- new requests are accepted -/
  serving : Bool
  calls : Uuid → EnqueueCall M
  loops : Nat → WorkerLoop M
  /-- `AppState::workers` -/
  workers : WorkerPoolState
  metrics : AppMetrics
  /-- inference tasks that outlive their timeout, by worker and job -/
  background : List (Nat × Uuid)
  disk : Disk M
  effects : List (Effect M)
  reads : List (Uuid × Except ApiError (JobRecord M))

namespace Server

/-- What the process did with one job. -/
def effectsOf (s : Server M) (id : Uuid) : List (Effect M) :=
  s.effects.filter (fun e => decide (e.jobId = id))

/-- The lines of one job in the results file. -/
def resultsOf (s : Server M) (id : Uuid) : List (JobRecord M) :=
  s.disk.results.filter (fun r => decide (r.id = id))

/-- The responses of `get_job` for one id, oldest first. -/
def readsOf (s : Server M) (id : Uuid) : List (Except ApiError (JobRecord M)) :=
  (s.reads.filter (fun read => decide (read.1 = id))).map Prod.snd

/-- The request of the job is in the queue. -/
def Queued (s : Server M) (id : Uuid) : Prop :=
  ∃ request ∈ s.queue, request.id = id

/-- A worker is busy with the job. -/
def Held (s : Server M) (id : Uuid) : Prop :=
  ∃ w pc, (s.loops w).held = some (id, pc)

/-- Every worker loop has dropped its receiver. -/
def allReturned (cfg : Config) (s : Server M) : Bool :=
  (List.range cfg.workers).all (fun w => (s.loops w).isReturned)

/-- The channel is closed once one of its sides is gone. -/
def queueClosed (cfg : Config) (s : Server M) : Bool :=
  s.senders == 0 || s.allReturned cfg

def setCall (s : Server M) (id : Uuid) (call : EnqueueCall M) : Server M :=
  { s with calls := Function.update s.calls id call }

/-- The call ends and drops its handler's `AppState`. -/
def endCall (s : Server M) (id : Uuid) (record : JobRecord M)
    (ending : CallEnding) : Server M :=
  { s with
    calls := Function.update s.calls id (.ended record ending)
    senders := s.senders - 1 }

def setLoop (s : Server M) (w : Nat) (loop : WorkerLoop M) : Server M :=
  { s with loops := Function.update s.loops w loop }

/-- The state after `load_jobs` and `start_workers`: the ids in `used` belong to
earlier processes. -/
def start (cfg : Config) (jobs : JobMap M) (disk : Disk M)
    (effects : List (Effect M))
    (reads : List (Uuid × Except ApiError (JobRecord M)))
    (used : Uuid → Bool) : Server M where
  jobs := jobs
  queue := []
  senders := 1
  serving := true
  calls := fun id => if used id then .past else .fresh
  loops := fun _ => .initializing
  workers := WorkerPoolState.new cfg.workers
  metrics := AppMetrics.default
  background := []
  disk := disk
  effects := effects
  reads := reads

end Server
end FlorenceServer
