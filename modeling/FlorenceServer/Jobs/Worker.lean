import FlorenceServer.Jobs.Enqueue

/-!
# The steps of a worker loop

`jobs/worker.rs`: initialisation, `process_worker_request` and `finish_job`.
Each counter update, each locked section and each file or network operation is
one step.  The inference of a request is a step whose outcome is arbitrary; one
that times out leaves its task running in the background.
-/

namespace FlorenceServer

variable {M : Type}

/-- How `FlorenceWorker::new` ends on its blocking thread. -/
inductive InitOutcome where
  | ready (elapsedMs : Nat)
  | failed
  | panicked
deriving DecidableEq, Repr

/-- How the inference of a request ends for the worker that waits for it. -/
inductive InferenceOutcome (M : Type) where
  | succeeded (metadata : M)
  | failed (err : String)
  | panicked (err : String)
  | timedOut

inductive WorkerAction (M : Type) where
  | initWorker (outcome : InitOutcome)
  | markReady
  | recv
  | recordStarted
  | markRunning (now : OffsetDateTime)
  | infer (elapsedMs : Nat) (outcome : InferenceOutcome M)
  | count
  | publish (now : OffsetDateTime)
  | append (outcome : AppendOutcome)
  | notify (env : DeliveryEnv)
  | cleanup (removal : RemoveFile)
  | retain (order : IterationOrder (JobRecord M))
  | markStopped
  | leave

section Outcomes

/-- What `handle_inference_result` passes on to `finish_job`. -/
structure InferenceReport (M : Type) where
  updates : List CounterUpdate
  result : Except String M
  restart : Bool

/-- `handle_inference_result` and `handle_completed_inference`. -/
def handleInferenceResult (cfg : Config) (elapsedMs : Nat) :
    InferenceOutcome M → InferenceReport M
  | .succeeded metadata =>
      { updates := CounterUpdate.recordJobSucceeded elapsedMs
        result := .ok metadata
        restart := false }
  | .failed err =>
      { updates := CounterUpdate.recordJobFailed elapsedMs
        result := .error err
        restart := false }
  | .panicked err =>
      { updates := CounterUpdate.recordJobFailed elapsedMs ++
          CounterUpdate.recordWorkerRestart
        result := .error ("worker task failed: " ++ err)
        restart := true }
  | .timedOut =>
      { updates := CounterUpdate.recordJobTimedOut elapsedMs ++
          CounterUpdate.recordWorkerRestart
        result := .error
          ("job timed out after " ++ toString cfg.jobTimeoutSeconds ++ " seconds")
        restart := true }

/-- `wait_for_inference`: without a timeout every inference is waited for. -/
def InferenceOutcome.possible (cfg : Config) : InferenceOutcome M → Bool
  | .timedOut => decide (cfg.jobTimeoutSeconds ≠ 0)
  | .succeeded _ | .failed _ | .panicked _ => true

end Outcomes

namespace Server

/-- `initialize_worker` up to the counter that records its outcome. -/
def initializeLoop (s : Server M) (w : Nat) : InitOutcome → Server M
  | .ready elapsedMs =>
      { s.setLoop w .loaded with metrics := s.metrics.recordModelLoad elapsedMs }
  | .failed | .panicked =>
      { s.setLoop w .leaving with workers := s.workers.markFailed }

/-- `recv` takes the oldest request; it fails once the channel is empty and all
senders are gone. -/
def recvLoop (s : Server M) (w : Nat) : Option (Server M) :=
  match s.queue with
  | request :: rest => some { s.setLoop w (.received request) with queue := rest }
  | [] => if s.senders = 0 then some (s.setLoop w (.stopping false)) else none

/-- `mark_running`. -/
def markRunning (s : Server M) (w : Nat) (request : JobRequest)
    (now : OffsetDateTime) : Server M :=
  match s.jobs.get request.id with
  | some record =>
      { s.setLoop w (.inferring request) with
        jobs := s.jobs.insert request.id (record.markedRunning now) }
  | none => s.setLoop w (.inferring request)

def inferLoop (cfg : Config) (s : Server M) (w : Nat) (request : JobRequest)
    (elapsedMs : Nat) (outcome : InferenceOutcome M) : Server M :=
  let report := handleInferenceResult cfg elapsedMs outcome
  { s.setLoop w (.finishing request report.updates report.result report.restart) with
    background :=
      match outcome with
      | .timedOut => s.background ++ [(w, request.id)]
      | .succeeded _ | .failed _ | .panicked _ => s.background }

/-- The first locked section of `finish_job`. -/
def publishLoop (s : Server M) (w : Nat) (request : JobRequest)
    (result : Except String M) (restart : Bool) (now : OffsetDateTime) : Server M :=
  match s.jobs.get request.id with
  | some record =>
      let final := record.finishedWith now result
      { s.setLoop w (.appending final restart) with
        jobs := s.jobs.insert request.id final
        effects := s.effects ++ [.finished final] }
  | none =>
      { s.setLoop w (WorkerLoop.afterRequest restart) with
        effects := s.effects ++ [.missing request.id] }

/-- A failed append is logged and otherwise ignored. -/
def appendLoop (s : Server M) (w : Nat) (record : JobRecord M) (restart : Bool)
    (outcome : AppendOutcome) : Server M :=
  { (s.appendResult (outcome.lines record)).setLoop w (.notifying record restart) with
    effects := s.effects ++ [.appended record outcome] }

/-- `send_webhook`. -/
def notifyLoop (cfg : Config) (s : Server M) (w : Nat) (record : JobRecord M)
    (restart : Bool) (env : DeliveryEnv) : Server M :=
  let delivery := (WebhookClient.fromConfig cfg).deliver env record
  { s.setLoop w (.cleaning record restart) with
    metrics := delivery.result.record s.metrics
    effects := s.effects ++ [.webhook record delivery] }

/-- `cleanup_job_artifacts`. -/
def cleanupLoop (cfg : Config) (s : Server M) (w : Nat) (record : JobRecord M)
    (restart : Bool) (removal : RemoveFile) : Server M :=
  let outcome := cleanupJobArtifacts cfg removal record
  { s.setLoop w (.retaining restart) with
    metrics := cleanupMetrics s.metrics outcome
    effects := s.effects ++ [.cleanup record outcome] }

/-- The second locked section of `finish_job`. -/
def retainLoop (cfg : Config) (s : Server M) (w : Nat) (restart : Bool)
    (order : IterationOrder (JobRecord M)) : Server M :=
  { s.setLoop w (WorkerLoop.afterRequest restart) with
    jobs := retainRecentJobs order s.jobs cfg.jobRetentionLimit }

/-- One step of worker loop `w`. -/
def workerStep (cfg : Config) (s : Server M) (w : Nat)
    (action : WorkerAction M) : Option (Server M) :=
  match s.loops w, action with
  | .initializing, .initWorker outcome => some (s.initializeLoop w outcome)
  | .loaded, .markReady =>
      some { s.setLoop w .receiving with workers := s.workers.markReady }
  | .receiving, .recv => s.recvLoop w
  | .received request, .recordStarted =>
      some { s.setLoop w (.started request) with metrics := s.metrics.recordJobStarted }
  | .started request, .markRunning now => some (s.markRunning w request now)
  | .inferring request, .infer elapsedMs outcome =>
      if outcome.possible cfg then
        some (s.inferLoop cfg w request elapsedMs outcome)
      else none
  | .finishing request (update :: updates) result restart, .count =>
      some { s.setLoop w (.finishing request updates result restart) with
        metrics := s.metrics.apply update }
  | .finishing request [] result restart, .publish now =>
      some (s.publishLoop w request result restart now)
  | .appending record restart, .append outcome =>
      some (s.appendLoop w record restart outcome)
  | .notifying record restart, .notify env =>
      some (s.notifyLoop cfg w record restart env)
  | .cleaning record restart, .cleanup removal =>
      some (s.cleanupLoop cfg w record restart removal)
  | .retaining restart, .retain order => some (s.retainLoop cfg w restart order)
  | .stopping restart, .markStopped =>
      some { s.setLoop w (if restart then .initializing else .leaving) with
        workers := s.workers.markStopped }
  | .leaving, .leave => some (s.setLoop w .returned)
  | _, _ => none

/-- The steps of a worker loop, one constructor for each of its positions. -/
inductive WorkerCase (cfg : Config) (s : Server M) (w : Nat) :
    WorkerAction M → Server M → Prop where
  | initWorker (outcome : InitOutcome)
      (hloop : s.loops w = .initializing) :
      WorkerCase cfg s w (.initWorker outcome) (s.initializeLoop w outcome)
  | markReady
      (hloop : s.loops w = .loaded) :
      WorkerCase cfg s w .markReady
        { s.setLoop w .receiving with workers := s.workers.markReady }
  | recv (request : JobRequest) (rest : List JobRequest)
      (hloop : s.loops w = .receiving)
      (hqueue : s.queue = request :: rest) :
      WorkerCase cfg s w .recv { s.setLoop w (.received request) with queue := rest }
  | recvClosed
      (hloop : s.loops w = .receiving)
      (hqueue : s.queue = [])
      (hsenders : s.senders = 0) :
      WorkerCase cfg s w .recv (s.setLoop w (.stopping false))
  | recordStarted (request : JobRequest)
      (hloop : s.loops w = .received request) :
      WorkerCase cfg s w .recordStarted
        { s.setLoop w (.started request) with metrics := s.metrics.recordJobStarted }
  | markRunning (request : JobRequest) (now : OffsetDateTime)
      (hloop : s.loops w = .started request) :
      WorkerCase cfg s w (.markRunning now) (s.markRunning w request now)
  | infer (request : JobRequest) (elapsedMs : Nat) (outcome : InferenceOutcome M)
      (hloop : s.loops w = .inferring request)
      (hpossible : outcome.possible cfg = true) :
      WorkerCase cfg s w (.infer elapsedMs outcome)
        (s.inferLoop cfg w request elapsedMs outcome)
  | count (request : JobRequest) (update : CounterUpdate) (updates : List CounterUpdate)
      (result : Except String M) (restart : Bool)
      (hloop : s.loops w = .finishing request (update :: updates) result restart) :
      WorkerCase cfg s w .count
        { s.setLoop w (.finishing request updates result restart) with
          metrics := s.metrics.apply update }
  | publish (request : JobRequest) (result : Except String M) (restart : Bool)
      (now : OffsetDateTime)
      (hloop : s.loops w = .finishing request [] result restart) :
      WorkerCase cfg s w (.publish now) (s.publishLoop w request result restart now)
  | append (record : JobRecord M) (restart : Bool) (outcome : AppendOutcome)
      (hloop : s.loops w = .appending record restart) :
      WorkerCase cfg s w (.append outcome) (s.appendLoop w record restart outcome)
  | notify (record : JobRecord M) (restart : Bool) (env : DeliveryEnv)
      (hloop : s.loops w = .notifying record restart) :
      WorkerCase cfg s w (.notify env) (s.notifyLoop cfg w record restart env)
  | cleanup (record : JobRecord M) (restart : Bool) (removal : RemoveFile)
      (hloop : s.loops w = .cleaning record restart) :
      WorkerCase cfg s w (.cleanup removal) (s.cleanupLoop cfg w record restart removal)
  | retain (restart : Bool) (order : IterationOrder (JobRecord M))
      (hloop : s.loops w = .retaining restart) :
      WorkerCase cfg s w (.retain order) (s.retainLoop cfg w restart order)
  | markStopped (restart : Bool)
      (hloop : s.loops w = .stopping restart) :
      WorkerCase cfg s w .markStopped
        { s.setLoop w (if restart then .initializing else .leaving) with
          workers := s.workers.markStopped }
  | leave
      (hloop : s.loops w = .leaving) :
      WorkerCase cfg s w .leave (s.setLoop w .returned)

theorem workerStep_cases
    {cfg : Config} {s s' : Server M} {w : Nat} {action : WorkerAction M}
    (h : s.workerStep cfg w action = some s') :
    WorkerCase cfg s w action s' := by
  unfold workerStep at h
  split at h
  case h_1 outcome hloop =>
      cases h
      exact .initWorker outcome hloop
  case h_2 hloop =>
      cases h
      exact .markReady hloop
  case h_3 hloop =>
      unfold recvLoop at h
      split at h
      case h_1 request rest hqueue =>
          cases h
          exact .recv request rest hloop hqueue
      case h_2 hqueue =>
          by_cases hsenders : s.senders = 0
          · rw [if_pos hsenders] at h
            cases h
            exact .recvClosed hloop hqueue hsenders
          · rw [if_neg hsenders] at h
            cases h
  case h_4 request hloop =>
      cases h
      exact .recordStarted request hloop
  case h_5 request now hloop =>
      cases h
      exact .markRunning request now hloop
  case h_6 request elapsedMs outcome hloop =>
      by_cases hpossible : outcome.possible cfg = true
      · rw [if_pos hpossible] at h
        cases h
        exact .infer request elapsedMs outcome hloop hpossible
      · rw [if_neg hpossible] at h
        cases h
  case h_7 request update updates result restart hloop =>
      cases h
      exact .count request update updates result restart hloop
  case h_8 request result restart now hloop =>
      cases h
      exact .publish request result restart now hloop
  case h_9 record restart outcome hloop =>
      cases h
      exact .append record restart outcome hloop
  case h_10 record restart env hloop =>
      cases h
      exact .notify record restart env hloop
  case h_11 record restart removal hloop =>
      cases h
      exact .cleanup record restart removal hloop
  case h_12 restart order hloop =>
      cases h
      exact .retain restart order hloop
  case h_13 restart hloop =>
      cases h
      exact .markStopped restart hloop
  case h_14 hloop =>
      cases h
      exact .leave hloop
  case h_15 =>
      cases h

end Server

section ServerSteps

/-- One atomic step of a server process. -/
inductive Action (M : Type) where
  /-- a submit handler calls `enqueue_record` -/
  | submit (record : JobRecord M)
  | call (id : Uuid) (action : CallAction)
  | worker (w : Nat) (action : WorkerAction M)
  /-- `get_job` -/
  | read (id : Uuid)
  /-- the listener stops and the router drops its state; `main` returns then, and the
  runtime drops the worker tasks, wherever they stand.  The steps that are still possible
  after it are those of tasks that have not been dropped yet. -/
  | shutdown
  /-- a timed-out inference task ends -/
  | backgroundDone (w : Nat) (id : Uuid)

namespace Server

/-- A submit handler calls `enqueue_record` with a record whose id is fresh. -/
def submit (s : Server M) (record : JobRecord M) : Option (Server M) :=
  match s.serving, s.calls record.id with
  | true, .fresh =>
      some { s.setCall record.id (.checking record) with
        senders := s.senders + 1
        effects := s.effects ++ [.submitted record] }
  | _, _ => none

def read (s : Server M) (id : Uuid) : Server M :=
  { s with reads := s.reads ++ [(id, getJob s.jobs id)] }

def step (cfg : Config) (s : Server M) : Action M → Option (Server M)
  | .submit record => s.submit record
  | .call id action => s.callStep cfg id action
  | .worker w action => if w < cfg.workers then s.workerStep cfg w action else none
  | .read id => some (s.read id)
  | .shutdown =>
      if s.serving then some { s with serving := false, senders := s.senders - 1 }
      else none
  | .backgroundDone w id =>
      -- the result is dropped with the join handle; nothing else changes
      if (w, id) ∈ s.background then
        some { s with background := s.background.erase (w, id) }
      else none

end Server
end ServerSteps

section ActionConditions

/-- Records are submitted by the submit handlers only. -/
def Action.FromHandlers : Action M → Prop
  | .submit record => BuiltBySubmitHandler record
  | .call _ _ | .worker _ _ | .read _ | .shutdown | .backgroundDone _ _ => True

/-- The outcome of the `append_jsonl` call that an action makes. -/
def Action.appendOutcome : Action M → Option AppendOutcome
  | .call _ (.append outcome) => some outcome
  | .call _ (.persist _ outcome) => some outcome
  | .worker _ (.append outcome) => some outcome
  | .worker _ (.notify env) => some env.deadLetter
  | _ => none

/-- No `append_jsonl` call fails. -/
def Action.AppendsSucceed (a : Action M) : Prop :=
  ∀ outcome, a.appendOutcome = some outcome → outcome = .ok

instance (a : Action M) : Decidable a.AppendsSucceed :=
  inferInstanceAs (Decidable (∀ outcome ∈ a.appendOutcome, outcome = .ok))

def Action.noDrop : Action M → Bool
  | .call _ (.drop _ _) => false
  | _ => true

/-- The future of no `enqueue_record` call is dropped. -/
def Action.NoDrop (a : Action M) : Prop :=
  a.noDrop = true

/-- A worker loop returns. -/
def Action.isLeave : Action M → Bool
  | .worker _ .leave => true
  | _ => false

end ActionConditions

section SampleActions

def Action.fromSamples : Action String → Bool
  | .submit record => isSampleRecord record
  | _ => true

theorem Action.fromHandlers_of_samples
    {a : Action String}
    (h : a.fromSamples = true) :
    a.FromHandlers := by
  cases a with
  | submit record => exact isSampleRecord_built h
  | _ => trivial

/-- No append fails and no future is dropped. -/
def Action.undisturbed (a : Action String) : Bool :=
  a.fromSamples && (decide a.AppendsSucceed && a.noDrop)

theorem Action.of_undisturbed
    {a : Action String}
    (h : a.undisturbed = true) :
    a.FromHandlers ∧ a.AppendsSucceed ∧ a.NoDrop := by
  obtain ⟨hsample, hrest⟩ := Bool.and_eq_true_iff.mp h
  obtain ⟨happends, hdrop⟩ := Bool.and_eq_true_iff.mp hrest
  exact ⟨Action.fromHandlers_of_samples hsample, of_decide_eq_true happends, hdrop⟩

/-- No append fails and no record is evicted. -/
def Action.withinLimit (cfg : Config) (s : Server String) (a : Action String) : Bool :=
  a.fromSamples && (decide a.AppendsSucceed && decide (s.jobs.len ≤ cfg.jobRetentionLimit))

theorem Action.of_withinLimit
    {cfg : Config} {s : Server String} {a : Action String}
    (h : a.withinLimit cfg s = true) :
    a.FromHandlers ∧ a.AppendsSucceed ∧ s.jobs.len ≤ cfg.jobRetentionLimit := by
  obtain ⟨hsample, hrest⟩ := Bool.and_eq_true_iff.mp h
  obtain ⟨happends, hlen⟩ := Bool.and_eq_true_iff.mp hrest
  exact ⟨Action.fromHandlers_of_samples hsample, of_decide_eq_true happends,
    of_decide_eq_true hlen⟩

/-- A call that sends its request. -/
def enqueueActions (record : JobRecord String) : List (Action String) :=
  [.submit record, .call record.id .check, .call record.id .insert,
    .call record.id (.append .ok), .call record.id .send]

/-- A worker comes up. -/
def readyActions (w : Nat) : List (Action String) :=
  [.worker w (.initWorker (.ready 900)), .worker w .markReady]

/-- A worker takes the oldest request and runs its inference. -/
def inferActions (w : Nat) (now : OffsetDateTime) : List (Action String) :=
  [.worker w .recv, .worker w .recordStarted, .worker w (.markRunning now),
    .worker w (.infer 40 (.succeeded "a red pixel")), .worker w .count, .worker w .count]

def sampleDelivery : DeliveryEnv where
  eventId := 7
  createdAt := 60
  attempt := fun _ => .ok ()
  failedAt := 60
  deadLetter := .ok
  deadLetterError := ""

/-- `finish_job`. -/
def finishActions (w : Nat) (now : OffsetDateTime) : List (Action String) :=
  [.worker w (.publish now), .worker w (.append .ok), .worker w (.notify sampleDelivery),
    .worker w (.cleanup .removed), .worker w (.retain IterationOrder.stored)]

end SampleActions
end FlorenceServer
