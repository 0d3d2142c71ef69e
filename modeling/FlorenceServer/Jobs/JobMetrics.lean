import FlorenceServer.Jobs.WorkerPool

/-!
# The job counters

The outcome of a job is recorded by several counter updates one after the other.
A ledger of the jobs that were started and of the outcomes that were recorded is
kept beside the state, and the counters are compared with it.

* `job_metrics_conserve`: between the updates of an outcome and as long as no
  counter has wrapped, every started job is counted as succeeded or failed or is
  still with its worker, timeouts are failures, restarts are timeouts and panics,
  and the inference time is the sum over the recorded jobs.
-/

namespace FlorenceServer

open Runs

variable {M : Type}

section Counters

/-- The counters that the outcome of a job changes. -/
inductive JobCounter where
  | succeeded
  | failed
  | timedOut
  | restarts
  | inferenceMs
deriving DecidableEq, Repr

def AppMetrics.value (metrics : AppMetrics) : JobCounter → Nat
  | .succeeded => metrics.jobsSucceeded
  | .failed => metrics.jobsFailed
  | .timedOut => metrics.jobsTimedOut
  | .restarts => metrics.workerRestarts
  | .inferenceMs => metrics.totalInferenceMs

/-- What an update adds to a counter. -/
def CounterUpdate.amount (counter : JobCounter) : CounterUpdate → Nat
  | .jobsSucceeded => if counter = .succeeded then 1 else 0
  | .jobsFailed => if counter = .failed then 1 else 0
  | .jobsTimedOut => if counter = .timedOut then 1 else 0
  | .workerRestarts => if counter = .restarts then 1 else 0
  | .totalInferenceMs elapsedMs =>
      if counter = .inferenceMs then elapsedUsize elapsedMs else 0

/-- What several updates add to a counter. -/
def updatesAmount (counter : JobCounter) (updates : List CounterUpdate) : Nat :=
  (updates.map (fun update => update.amount counter)).sum

@[simp] theorem updatesAmount_append
    (counter : JobCounter) (updates updates' : List CounterUpdate) :
    updatesAmount counter (updates ++ updates') =
      updatesAmount counter updates + updatesAmount counter updates' := by
  simp [updatesAmount]

@[simp] theorem updatesAmount_singleton (counter : JobCounter) (update : CounterUpdate) :
    updatesAmount counter [update] = update.amount counter := by
  simp [updatesAmount]

/-- A counter holds the sum of its updates, up to wrapping around. -/
theorem AppMetrics.value_apply
    {metrics : AppMetrics} {counter : JobCounter} {sum : Nat}
    (hvalue : metrics.value counter = sum % usizeCount) (update : CounterUpdate) :
    (metrics.apply update).value counter = (sum + update.amount counter) % usizeCount := by
  have hadd : ∀ amount, fetchAdd (sum % usizeCount) amount = (sum + amount) % usizeCount :=
    fun amount => Nat.mod_add_mod sum usizeCount amount
  cases counter <;> cases update <;>
    simp_all [AppMetrics.value, AppMetrics.apply, CounterUpdate.amount]

/-- A webhook touches none of these counters. -/
theorem delivery_keeps (metrics : AppMetrics) (result : WebhookDeliveryResult) :
    (result.record metrics).jobsStarted = metrics.jobsStarted ∧
      ∀ counter, (result.record metrics).value counter = metrics.value counter := by
  cases result <;> exact ⟨rfl, fun counter => by cases counter <;> rfl⟩

/-- Neither does the removal of an image. -/
theorem cleanup_keeps (metrics : AppMetrics) (removal : Option RemoveFile) :
    (cleanupMetrics metrics removal).jobsStarted = metrics.jobsStarted ∧
      ∀ counter, (cleanupMetrics metrics removal).value counter = metrics.value counter := by
  cases removal with
  | none =>
      exact ⟨rfl, fun _ => rfl⟩
  | some removal =>
      cases removal <;> exact ⟨rfl, fun counter => by cases counter <;> rfl⟩

end Counters

section Ledgers

/-- An outcome that a worker has to record. -/
structure PendingReport (M : Type) where
  elapsedMs : Nat
  outcome : InferenceOutcome M
  /-- how many of its counter updates have been made -/
  made : Nat

def PendingReport.updates (cfg : Config) (report : PendingReport M) : List CounterUpdate :=
  (handleInferenceResult cfg report.elapsedMs report.outcome).updates

/-- The jobs that the workers started and the outcomes that they recorded. -/
structure JobLedger (M : Type) where
  started : Nat
  /-- elapsed times and outcomes whose counter updates have all been made -/
  recorded : List (Nat × InferenceOutcome M)
  pending : Nat → Option (PendingReport M)

namespace JobLedger

def empty : JobLedger M where
  started := 0
  recorded := []
  pending := fun _ => none

def setPending (l : JobLedger M) (w : Nat) (report : Option (PendingReport M)) : JobLedger M :=
  { l with pending := Function.update l.pending w report }

@[simp] theorem setPending_self (l : JobLedger M) (w : Nat) (report : Option (PendingReport M)) :
    (l.setPending w report).pending w = report :=
  Function.update_self _ _ _

theorem setPending_of_ne
    (l : JobLedger M) {w v : Nat} (hv : v ≠ w) (report : Option (PendingReport M)) :
    (l.setPending w report).pending v = l.pending v :=
  Function.update_of_ne hv _ _

/-- Worker `w` has made all updates for its outcome. -/
def record (l : JobLedger M) (w : Nat) (report : PendingReport M) : JobLedger M :=
  { l.setPending w none with
    recorded := l.recorded ++ [(report.elapsedMs, report.outcome)] }

/-- A counter update of worker `w`. -/
def noteCount (cfg : Config) (l : JobLedger M) (w : Nat) : JobLedger M :=
  match l.pending w with
  | none => l
  | some report =>
      if report.made + 1 = (report.updates cfg).length then
        l.record w report
      else
        l.setPending w (some { report with made := report.made + 1 })

def note (cfg : Config) (_ : Server M) (a : Action M) (l : JobLedger M) : JobLedger M :=
  match a with
  | .worker _ .recordStarted => { l with started := l.started + 1 }
  | .worker w (.infer elapsedMs outcome) =>
      l.setPending w (some { elapsedMs, outcome, made := 0 })
  | .worker w .count => l.noteCount cfg w
  | _ => l

theorem noteCount_last
    {cfg : Config} {l : JobLedger M} {w : Nat} {report : PendingReport M}
    (hreport : l.pending w = some report)
    (hlast : report.made + 1 = (report.updates cfg).length) :
    l.noteCount cfg w = l.record w report := by
  simp [noteCount, hreport, hlast]

theorem noteCount_more
    {cfg : Config} {l : JobLedger M} {w : Nat} {report : PendingReport M}
    (hreport : l.pending w = some report)
    (hmore : report.made + 1 ≠ (report.updates cfg).length) :
    l.noteCount cfg w = l.setPending w (some { report with made := report.made + 1 }) := by
  simp [noteCount, hreport, hmore]

/-- What the updates made for a pending outcome added to a counter. -/
def pendingAmount (cfg : Config) (l : JobLedger M) (counter : JobCounter) (w : Nat) : Nat :=
  ((l.pending w).map (fun report =>
    updatesAmount counter ((report.updates cfg).take report.made))).getD 0

/-- What the recorded outcomes added to a counter. -/
def recordedAmount (cfg : Config) (l : JobLedger M) (counter : JobCounter) : Nat :=
  (l.recorded.map (fun job =>
    updatesAmount counter (handleInferenceResult cfg job.1 job.2).updates)).sum

/-- Everything that was added to a counter. -/
def amount (cfg : Config) (l : JobLedger M) (counter : JobCounter) : Nat :=
  l.recordedAmount cfg counter + total cfg.workers (l.pendingAmount cfg counter)

/-- No counter has wrapped around. -/
def Unwrapped (cfg : Config) (l : JobLedger M) : Prop :=
  l.started < usizeCount ∧ ∀ counter, l.amount cfg counter < usizeCount

/-- No worker is between the first and the last counter update for an outcome. -/
def Settled (cfg : Config) (l : JobLedger M) : Prop :=
  ∀ w < cfg.workers, ∀ report, l.pending w = some report → report.made = 0

end JobLedger

/-- The counter updates that the loop has to make. -/
def WorkerLoop.updatesLeft : WorkerLoop M → List CounterUpdate
  | .finishing _ updates _ _ => updates
  | _ => []

/-- The loop has started a job and not recorded its outcome. -/
def WorkerLoop.hasUnrecordedJob : WorkerLoop M → Bool
  | .started _ | .inferring _ => true
  | .finishing _ updates _ _ => !updates.isEmpty
  | _ => false

theorem updatesLeft_afterRequest (restart : Bool) :
    (WorkerLoop.afterRequest restart : WorkerLoop M).updatesLeft = [] := by
  cases restart <;> rfl

theorem hasUnrecordedJob_afterRequest (restart : Bool) :
    (WorkerLoop.afterRequest restart : WorkerLoop M).hasUnrecordedJob = false := by
  cases restart <;> rfl

end Ledgers

section Agreement

variable {cfg : Config} {s s' : Server M} {l : JobLedger M}

/-- The pending outcome of a worker and the updates it has to make. -/
def PendingOk (cfg : Config) (loop : WorkerLoop M) : Option (PendingReport M) → Prop
  | none => loop.updatesLeft = []
  | some report =>
      report.made < (report.updates cfg).length ∧
        loop.updatesLeft = (report.updates cfg).drop report.made ∧
        loop.hasUnrecordedJob = true

/-- The counters agree with the ledger. -/
structure LedgerOk (cfg : Config) (s : Server M) (l : JobLedger M) : Prop where
  pending_ok : ∀ w, PendingOk cfg (s.loops w) (l.pending w)
  started_eq : s.metrics.jobsStarted = l.started % usizeCount
  value_eq : ∀ counter, s.metrics.value counter = l.amount cfg counter % usizeCount
  started_sum : l.started = l.recorded.length +
    countBelow cfg.workers (fun w => (s.loops w).hasUnrecordedJob)

namespace LedgerOk

/-- A step that concerns neither the outcome of a job nor its start. -/
theorem keep
    (hok : LedgerOk cfg s l) {w : Nat} {before : WorkerLoop M} (loop : WorkerLoop M)
    (hloop : s.loops w = before)
    (hloops : s'.loops = Function.update s.loops w loop)
    (hupdates : loop.updatesLeft = before.updatesLeft)
    (hjob : loop.hasUnrecordedJob = before.hasUnrecordedJob)
    (hstarted : s'.metrics.jobsStarted = s.metrics.jobsStarted)
    (hvalue : ∀ counter, s'.metrics.value counter = s.metrics.value counter) :
    LedgerOk cfg s' l where
  pending_ok := by
    intro v
    have hv := hok.pending_ok v
    rw [hloops]
    by_cases hvw : v = w
    · rw [hvw] at hv ⊢
      rw [Function.update_self]
      cases hpending : l.pending w with
      | none =>
          rw [hpending] at hv
          exact (hloop ▸ hupdates).trans hv
      | some report =>
          rw [hpending] at hv
          exact ⟨hv.1, (hloop ▸ hupdates).trans hv.2.1, (hloop ▸ hjob).trans hv.2.2⟩
    · rw [Function.update_of_ne hvw]
      exact hv
  started_eq := hstarted.trans hok.started_eq
  value_eq := fun counter => (hvalue counter).trans (hok.value_eq counter)
  started_sum := by
    have hsame : ∀ v, (s'.loops v).hasUnrecordedJob = (s.loops v).hasUnrecordedJob := by
      intro v
      rw [hloops]
      by_cases hvw : v = w
      · rw [hvw, Function.update_self, hjob, hloop]
      · rw [Function.update_of_ne hvw]
    simp only [hsame]
    exact hok.started_sum

/-- The other workers keep their pending outcomes. -/
theorem pending_update
    (hok : LedgerOk cfg s l) (s' : Server M) {w : Nat} {loop : WorkerLoop M}
    (report : Option (PendingReport M))
    (hloops : s'.loops = Function.update s.loops w loop)
    (hreport : PendingOk cfg loop report) :
    ∀ v, PendingOk cfg (s'.loops v) ((l.setPending w report).pending v) := by
  intro v
  rw [hloops]
  by_cases hv : v = w
  · rw [hv, Function.update_self, JobLedger.setPending_self]
    exact hreport
  · rw [Function.update_of_ne hv, JobLedger.setPending_of_ne l hv]
    exact hok.pending_ok v

/-- A worker without updates to make has no pending outcome. -/
theorem pending_eq_none
    (hok : LedgerOk cfg s l) {w : Nat} (hleft : (s.loops w).updatesLeft = []) :
    l.pending w = none := by
  have hpending := hok.pending_ok w
  cases hreport : l.pending w with
  | none =>
      rfl
  | some report =>
      rw [hreport] at hpending
      obtain ⟨hmade, hdrop, -⟩ := hpending
      have hlength := congrArg List.length hdrop
      rw [hleft, List.length_drop, List.length_nil] at hlength
      omega

/-- How the number of busy workers changes. -/
theorem busy_change
    (s s' : Server M) {w : Nat} {loop : WorkerLoop M}
    (hw : w < cfg.workers)
    (hloops : s'.loops = Function.update s.loops w loop) :
    countBelow cfg.workers (fun v => (s'.loops v).hasUnrecordedJob) +
        (s.loops w).hasUnrecordedJob.toNat =
      countBelow cfg.workers (fun v => (s.loops v).hasUnrecordedJob) +
        loop.hasUnrecordedJob.toNat := by
  have hchange := countBelow_change (p := fun v => (s.loops v).hasUnrecordedJob)
    (q := fun v => (s'.loops v).hasUnrecordedJob) hw
    (fun v hv => by rw [hloops, Function.update_of_ne hv])
  rwa [hloops, Function.update_self, ← hloops] at hchange

/-- How the amount of a counter changes with the pending outcome of one worker. -/
theorem pendingTotal_change
    (cfg : Config) (l : JobLedger M) {w : Nat} (hw : w < cfg.workers)
    (report : Option (PendingReport M)) (counter : JobCounter) :
    total cfg.workers ((l.setPending w report).pendingAmount cfg counter) +
        l.pendingAmount cfg counter w =
      total cfg.workers (l.pendingAmount cfg counter) +
        (l.setPending w report).pendingAmount cfg counter w := by
  refine total_change hw (fun v hv => ?_)
  unfold JobLedger.pendingAmount
  rw [JobLedger.setPending_of_ne l hv]

theorem recordStarted
    (hok : LedgerOk cfg s l) {w : Nat} {request : JobRequest}
    (hw : w < cfg.workers) (hloop : s.loops w = .received request) :
    LedgerOk cfg
      { s.setLoop w (.started request) with metrics := s.metrics.recordJobStarted }
      { l with started := l.started + 1 } where
  pending_ok := by
    have hpending := hok.pending_update (s.setLoop w (.started request)) none rfl rfl
    have hnone : l.pending w = none := hok.pending_eq_none (by rw [hloop]; rfl)
    have hself : Function.update l.pending w none = l.pending := by
      rw [← hnone, Function.update_eq_self]
    unfold JobLedger.setPending at hpending
    rw [hself] at hpending
    exact hpending
  started_eq := by
    change (s.metrics.jobsStarted + 1) % usizeCount = (l.started + 1) % usizeCount
    rw [hok.started_eq, Nat.mod_add_mod]
  value_eq := by
    intro counter
    have hvalue : s.metrics.recordJobStarted.value counter = s.metrics.value counter := by
      cases counter <;> rfl
    exact hvalue.trans (hok.value_eq counter)
  started_sum := by
    have hbusy := busy_change s (s.setLoop w (.started request)) hw rfl
    have hsum := hok.started_sum
    have hbefore : (s.loops w).hasUnrecordedJob.toNat = 0 := by
      rw [hloop]
      rfl
    have hafter : (WorkerLoop.started request : WorkerLoop M).hasUnrecordedJob.toNat = 1 := rfl
    change l.started + 1 = l.recorded.length +
      countBelow cfg.workers (fun v => ((s.setLoop w (.started request)).loops v).hasUnrecordedJob)
    omega

/-- The inference ends; nothing is counted yet. -/
theorem infer
    (hok : LedgerOk cfg s l) {w : Nat} {request : JobRequest}
    (hw : w < cfg.workers) (hloop : s.loops w = .inferring request)
    (elapsedMs : Nat) (outcome : InferenceOutcome M) :
    LedgerOk cfg (s.inferLoop cfg w request elapsedMs outcome)
      (l.setPending w (some { elapsedMs, outcome, made := 0 })) := by
  have hnone : l.pending w = none := hok.pending_eq_none (by rw [hloop]; rfl)
  have hsome : 0 < (handleInferenceResult cfg elapsedMs outcome).updates.length := by
    cases outcome <;> exact Nat.succ_pos _
  have hbusyAfter : (WorkerLoop.finishing request
      (handleInferenceResult cfg elapsedMs outcome).updates
      (handleInferenceResult cfg elapsedMs outcome).result
      (handleInferenceResult cfg elapsedMs outcome).restart).hasUnrecordedJob = true := by
    cases outcome <;> rfl
  constructor
  · exact hok.pending_update (s.inferLoop cfg w request elapsedMs outcome) _ rfl
      ⟨hsome, rfl, hbusyAfter⟩
  · exact hok.started_eq
  · intro counter
    have hchange := pendingTotal_change cfg l hw
      (some { elapsedMs, outcome, made := 0 }) counter
    have hbefore : l.pendingAmount cfg counter w = 0 := by
      rw [JobLedger.pendingAmount, hnone]
      rfl
    have hafter : (l.setPending w (some { elapsedMs, outcome, made := 0 })).pendingAmount cfg
        counter w = 0 := by
      rw [JobLedger.pendingAmount, JobLedger.setPending_self]
      rfl
    rw [hbefore, hafter] at hchange
    change s.metrics.value counter = _
    rw [hok.value_eq counter, JobLedger.amount, JobLedger.amount]
    exact congrArg (fun sum => (l.recordedAmount cfg counter + sum) % usizeCount) hchange.symm
  · have hbusy := busy_change s (s.inferLoop cfg w request elapsedMs outcome) hw rfl
    have hsum := hok.started_sum
    have hbusyBefore : (s.loops w).hasUnrecordedJob = true := by
      rw [hloop]
      rfl
    rw [hbusyBefore, hbusyAfter] at hbusy
    change l.started = l.recorded.length + countBelow cfg.workers
      (fun v => ((s.inferLoop cfg w request elapsedMs outcome).loops v).hasUnrecordedJob)
    omega

/-- The pending outcome of a worker that has an update to make. -/
theorem exists_pending
    (hok : LedgerOk cfg s l) {w : Nat} {update : CounterUpdate} {updates : List CounterUpdate}
    (hleft : (s.loops w).updatesLeft = update :: updates) :
    ∃ report, l.pending w = some report ∧
      updates = (report.updates cfg).drop (report.made + 1) ∧
      (report.updates cfg).take (report.made + 1) =
        (report.updates cfg).take report.made ++ [update] := by
  have hpending := hok.pending_ok w
  cases hreport : l.pending w with
  | none =>
      rw [hreport] at hpending
      rw [show (s.loops w).updatesLeft = [] from hpending] at hleft
      cases hleft
  | some report =>
      rw [hreport] at hpending
      obtain ⟨hmade, hdrop, -⟩ := hpending
      rw [hleft, List.drop_eq_getElem_cons hmade] at hdrop
      obtain ⟨hhead, htail⟩ := List.cons.inj hdrop
      refine ⟨report, rfl, htail, ?_⟩
      rw [hhead, List.take_concat_get']

/-- A counter update adds its amount to what the ledger says was counted. -/
theorem amount_noteCount
    (l : JobLedger M) {w : Nat} (hw : w < cfg.workers)
    {report : PendingReport M} {update : CounterUpdate} (counter : JobCounter)
    (hreport : l.pending w = some report)
    (htake : (report.updates cfg).take (report.made + 1) =
      (report.updates cfg).take report.made ++ [update]) :
    (l.noteCount cfg w).amount cfg counter = l.amount cfg counter + update.amount counter := by
  have hnext := congrArg (updatesAmount counter) htake
  rw [updatesAmount_append, updatesAmount_singleton] at hnext
  have hbefore : l.pendingAmount cfg counter w =
      updatesAmount counter ((report.updates cfg).take report.made) := by
    rw [JobLedger.pendingAmount, hreport]
    rfl
  by_cases hlast : report.made + 1 = (report.updates cfg).length
  · rw [JobLedger.noteCount_last hreport hlast]
    have hchange := pendingTotal_change cfg l hw none counter
    have hafter : (l.setPending w none).pendingAmount cfg counter w = 0 := by
      rw [JobLedger.pendingAmount, JobLedger.setPending_self]
      rfl
    rw [hlast, List.take_length] at hnext
    rw [hbefore, hafter] at hchange
    have hrecorded : (l.record w report).recordedAmount cfg counter =
        l.recordedAmount cfg counter + updatesAmount counter (report.updates cfg) := by
      simp [JobLedger.recordedAmount, JobLedger.record, PendingReport.updates]
    unfold JobLedger.amount
    rw [hrecorded]
    change _ + total cfg.workers ((l.setPending w none).pendingAmount cfg counter) = _
    omega
  · rw [JobLedger.noteCount_more hreport hlast]
    have hchange := pendingTotal_change cfg l hw
      (some { report with made := report.made + 1 }) counter
    have hafter : (l.setPending w (some { report with made := report.made + 1 })).pendingAmount
        cfg counter w = updatesAmount counter ((report.updates cfg).take (report.made + 1)) := by
      rw [JobLedger.pendingAmount, JobLedger.setPending_self]
      rfl
    rw [hbefore, hafter, hnext] at hchange
    unfold JobLedger.amount
    change l.recordedAmount cfg counter + _ = _
    omega

theorem noteCount_started (cfg : Config) (l : JobLedger M) (w : Nat) :
    (l.noteCount cfg w).started = l.started := by
  unfold JobLedger.noteCount
  split
  · rfl
  · split <;> rfl

/-- A counter update at the end of a job. -/
theorem count
    (hok : LedgerOk cfg s l) {w : Nat} {request : JobRequest} {update : CounterUpdate}
    {updates : List CounterUpdate} {result : Except String M} {restart : Bool}
    (hw : w < cfg.workers)
    (hloop : s.loops w = .finishing request (update :: updates) result restart) :
    LedgerOk cfg
      { s.setLoop w (.finishing request updates result restart) with
        metrics := s.metrics.apply update }
      (l.noteCount cfg w) := by
  have hleft : (s.loops w).updatesLeft = update :: updates := by
    rw [hloop]
    rfl
  obtain ⟨report, hreport, hdrop, htake⟩ := hok.exists_pending hleft
  set loop : WorkerLoop M := .finishing request updates result restart with hafter
  have hbusy := busy_change s (s.setLoop w loop) hw rfl
  have hbefore : (s.loops w).hasUnrecordedJob.toNat = 1 := by
    rw [hloop]
    rfl
  have hsum := hok.started_sum
  have hvalue : ∀ counter, (s.metrics.apply update).value counter =
      (l.noteCount cfg w).amount cfg counter % usizeCount := by
    intro counter
    rw [amount_noteCount l hw counter hreport htake]
    exact AppMetrics.value_apply (hok.value_eq counter) update
  have hstarted : (s.metrics.apply update).jobsStarted =
      (l.noteCount cfg w).started % usizeCount := by
    rw [noteCount_started, ← hok.started_eq]
    cases update <;> rfl
  by_cases hlast : report.made + 1 = (report.updates cfg).length
  · rw [hlast, List.drop_length] at hdrop
    have hidle : loop.hasUnrecordedJob.toNat = 0 := by
      rw [hafter, hdrop]
      rfl
    have hledger := JobLedger.noteCount_last hreport hlast
    refine ⟨?_, hstarted, hvalue, ?_⟩
    · rw [hledger]
      exact hok.pending_update (s.setLoop w loop) none rfl hdrop
    · rw [hledger]
      change l.started = (l.recorded ++ [(report.elapsedMs, report.outcome)]).length +
        countBelow cfg.workers (fun v => ((s.setLoop w loop).loops v).hasUnrecordedJob)
      rw [List.length_append, List.length_singleton]
      omega
  · have hlength := congrArg List.length htake
    simp only [List.length_take, List.length_append, List.length_singleton] at hlength
    have hne : updates ≠ [] := by
      rw [hdrop, Ne, List.drop_eq_nil_iff]
      omega
    have hjob : loop.hasUnrecordedJob = true := by
      simpa [hafter, WorkerLoop.hasUnrecordedJob] using hne
    have hledger := JobLedger.noteCount_more hreport hlast
    refine ⟨?_, hstarted, hvalue, ?_⟩
    · rw [hledger]
      exact hok.pending_update (s.setLoop w loop) (some { report with made := report.made + 1 })
        rfl
        ⟨by simp only [PendingReport.updates] at *; omega, hdrop, hjob⟩
    · rw [hledger]
      rw [hjob] at hbusy
      change l.started = l.recorded.length +
        countBelow cfg.workers (fun v => ((s.setLoop w loop).loops v).hasUnrecordedJob)
      simp only [Bool.toNat_true] at hbusy
      omega

/-- What a step of a worker loop does to the job counters and to the ledger. -/
theorem workerStep
    (hok : LedgerOk cfg s l) {w : Nat} {action : WorkerAction M}
    (hw : w < cfg.workers)
    (hcase : Server.WorkerCase cfg s w action s') :
    LedgerOk cfg s' (JobLedger.note cfg s (.worker w action) l) := by
  cases hcase with
  | initWorker outcome hloop =>
      cases outcome with
      | ready elapsedMs =>
          exact hok.keep .loaded hloop rfl rfl rfl rfl
            (fun counter => by cases counter <;> rfl)
      | failed =>
          exact hok.keep .leaving hloop rfl rfl rfl rfl (fun _ => rfl)
      | panicked =>
          exact hok.keep .leaving hloop rfl rfl rfl rfl (fun _ => rfl)
  | markReady hloop =>
      exact hok.keep .receiving hloop rfl rfl rfl rfl (fun _ => rfl)
  | recv request rest hloop hqueue =>
      exact hok.keep (.received request) hloop rfl rfl rfl rfl (fun _ => rfl)
  | recvClosed hloop hqueue hsenders =>
      exact hok.keep (.stopping false) hloop rfl rfl rfl rfl (fun _ => rfl)
  | recordStarted request hloop =>
      exact hok.recordStarted hw hloop
  | markRunning request now hloop =>
      cases hget : s.jobs.get request.id with
      | some record =>
          rw [Server.markRunning, hget]
          exact hok.keep (.inferring request) hloop rfl rfl rfl rfl (fun _ => rfl)
      | none =>
          rw [Server.markRunning, hget]
          exact hok.keep (.inferring request) hloop rfl rfl rfl rfl (fun _ => rfl)
  | infer request elapsedMs outcome hloop hpossible =>
      exact hok.infer hw hloop elapsedMs outcome
  | count request update updates result restart hloop =>
      exact hok.count hw hloop
  | publish request result restart now hloop =>
      cases hget : s.jobs.get request.id with
      | some record =>
          rw [Server.publishLoop, hget]
          exact hok.keep (.appending _ restart) hloop rfl rfl rfl rfl (fun _ => rfl)
      | none =>
          rw [Server.publishLoop, hget]
          exact hok.keep (WorkerLoop.afterRequest restart) hloop rfl
            (updatesLeft_afterRequest restart)
            (hasUnrecordedJob_afterRequest restart) rfl (fun _ => rfl)
  | append record restart outcome hloop =>
      exact hok.keep (.notifying record restart) hloop rfl rfl rfl rfl (fun _ => rfl)
  | notify record restart env hloop =>
      have hsame := delivery_keeps s.metrics
        ((WebhookClient.fromConfig cfg).deliver env record).result
      exact hok.keep (.cleaning record restart) hloop rfl rfl rfl
        hsame.1 hsame.2
  | cleanup record restart removal hloop =>
      have hsame := cleanup_keeps s.metrics (cleanupJobArtifacts cfg removal record)
      exact hok.keep (.retaining restart) hloop rfl rfl rfl
        hsame.1 hsame.2
  | retain restart order hloop =>
      exact hok.keep (WorkerLoop.afterRequest restart) hloop rfl
        (updatesLeft_afterRequest restart)
        (hasUnrecordedJob_afterRequest restart) rfl (fun _ => rfl)
  | markStopped restart hloop =>
      exact hok.keep (if restart then .initializing else .leaving) hloop rfl
        (by cases restart <;> rfl) (by cases restart <;> rfl) rfl
        (fun _ => rfl)
  | leave hloop =>
      exact hok.keep .returned hloop rfl rfl rfl rfl (fun _ => rfl)

theorem start
    {s₀ : Server M} (hstarted : Started cfg s₀) :
    LedgerOk cfg s₀ JobLedger.empty := by
  obtain ⟨jobs, disk, effects, reads, used, rfl⟩ := hstarted.exists_start
  constructor
  · exact fun _ => rfl
  · rfl
  · intro counter
    have hzero : (JobLedger.empty : JobLedger M).amount cfg counter = 0 := by
      simp [JobLedger.amount, JobLedger.recordedAmount, JobLedger.empty, total,
        JobLedger.pendingAmount]
    rw [hzero]
    cases counter <;> rfl
  · change 0 = 0 + countBelow cfg.workers (fun _ => false)
    rw [countBelow_eq_zero (fun _ => rfl)]

theorem step
    {a : Action M}
    (hok : LedgerOk cfg s l)
    (hstep : s.step cfg a = some s') :
    LedgerOk cfg s' (JobLedger.note cfg s a l) := by
  rcases step_worker_or_same hstep with ⟨w, action, rfl, hw, hcase⟩ | ⟨hother, hsame⟩
  · exact hok.workerStep hw hcase
  · have hnote : JobLedger.note cfg s a l = l := by
      cases a with
      | worker w action => exact absurd rfl (hother w action)
      | _ => rfl
    rw [hnote]
    constructor
    · rw [hsame.loops]
      exact hok.pending_ok
    · rw [hsame.metrics]
      exact hok.started_eq
    · rw [hsame.metrics]
      exact hok.value_eq
    · rw [hsame.loops]
      exact hok.started_sum

theorem run
    {ok : Server M → Action M → Prop} {s₀ : Server M}
    (hstarted : Started cfg s₀)
    (hrun : ObservedRun (Server.step cfg) ok (JobLedger.note cfg) (s₀, JobLedger.empty) (s, l)) :
    LedgerOk cfg s l :=
  hrun.invariant (fun _ _ _ _ _ hstep hok => hok.step hstep) (start hstarted)

end LedgerOk
end Agreement

section Conservation

variable {cfg : Config} {s : Server M} {l : JobLedger M}

def InferenceOutcome.isPanicked : InferenceOutcome M → Bool
  | .panicked _ => true
  | _ => false

/-- What one outcome adds to the counters. -/
theorem outcome_amounts
    (cfg : Config) (elapsedMs : Nat) (outcome : InferenceOutcome M) :
    let updates := (handleInferenceResult cfg elapsedMs outcome).updates
    updatesAmount .succeeded updates + updatesAmount .failed updates = 1 ∧
    updatesAmount .timedOut updates ≤ updatesAmount .failed updates ∧
    updatesAmount .restarts updates =
      updatesAmount .timedOut updates + outcome.isPanicked.toNat ∧
    updatesAmount .inferenceMs updates = elapsedUsize elapsedMs := by
  cases outcome <;>
    simp [handleInferenceResult, CounterUpdate.recordJobSucceeded, CounterUpdate.recordJobFailed,
      CounterUpdate.recordJobTimedOut, CounterUpdate.recordWorkerRestart, updatesAmount,
      CounterUpdate.amount, InferenceOutcome.isPanicked]

/-- The jobs that were recorded as ended by a panicked task. -/
def JobLedger.panicked (l : JobLedger M) : List (Nat × InferenceOutcome M) :=
  l.recorded.filter (fun job => job.2.isPanicked)

/-- What the recorded outcomes added to the counters. -/
theorem recorded_amounts (cfg : Config) (l : JobLedger M) :
    l.recordedAmount cfg .succeeded + l.recordedAmount cfg .failed = l.recorded.length ∧
    l.recordedAmount cfg .timedOut ≤ l.recordedAmount cfg .failed ∧
    l.recordedAmount cfg .restarts = l.recordedAmount cfg .timedOut + l.panicked.length ∧
    l.recordedAmount cfg .inferenceMs =
      (l.recorded.map (fun job => elapsedUsize job.1)).sum := by
  unfold JobLedger.recordedAmount JobLedger.panicked
  induction l.recorded with
  | nil =>
      exact ⟨rfl, Nat.le_refl _, rfl, rfl⟩
  | cons job jobs ih =>
      obtain ⟨hcount, htimed, hrestarts, hms⟩ := ih
      obtain ⟨hcount', htimed', hrestarts', hms'⟩ := outcome_amounts cfg job.1 job.2
      simp only [List.map_cons, List.sum_cons, List.length_cons]
      refine ⟨by omega, by omega, ?_, by omega⟩
      cases hpanicked : job.2.isPanicked with
      | true =>
          rw [hpanicked, Bool.toNat_true] at hrestarts'
          simp only [List.filter_cons, hpanicked, if_true, List.length_cons]
          omega
      | false =>
          rw [hpanicked, Bool.toNat_false] at hrestarts'
          simp only [List.filter_cons, hpanicked, Bool.false_eq_true, if_false]
          omega

/-- Between the updates of an outcome only recorded outcomes have been counted. -/
theorem JobLedger.Settled.amount_eq
    (hsettled : l.Settled cfg) (counter : JobCounter) :
    l.amount cfg counter = l.recordedAmount cfg counter := by
  have hzero : total cfg.workers (l.pendingAmount cfg counter) = 0 := by
    refine Finset.sum_eq_zero (fun w hw => ?_)
    unfold JobLedger.pendingAmount
    cases hpending : l.pending w with
    | none =>
        rfl
    | some report =>
        rw [Option.map_some, hsettled w (Finset.mem_range.mp hw) report hpending]
        rfl
  rw [JobLedger.amount, hzero, Nat.add_zero]

/--
Whenever no worker is between the counter updates for an outcome, and as long as
no counter has wrapped, every started job has been counted as succeeded or failed
or is still with its worker, no more jobs have timed out than failed, the
restarts are the timeouts and the panicked tasks, and the inference time is the
sum over the recorded jobs.
-/
theorem job_metrics_conserve
    {ok : Server M → Action M → Prop} {s₀ : Server M}
    (hstarted : Started cfg s₀)
    (hrun : ObservedRun (Server.step cfg) ok (JobLedger.note cfg) (s₀, JobLedger.empty) (s, l))
    (hsettled : l.Settled cfg)
    (hunwrapped : l.Unwrapped cfg) :
    s.metrics.jobsStarted = s.metrics.jobsSucceeded + s.metrics.jobsFailed +
      countBelow cfg.workers (fun w => (s.loops w).hasUnrecordedJob) ∧
    s.metrics.jobsTimedOut ≤ s.metrics.jobsFailed ∧
    s.metrics.workerRestarts = s.metrics.jobsTimedOut + l.panicked.length ∧
    s.metrics.totalInferenceMs = (l.recorded.map (fun job => elapsedUsize job.1)).sum ∧
    ((∀ job ∈ l.recorded, job.1 ≤ usizeMax) →
      s.metrics.totalInferenceMs = (l.recorded.map Prod.fst).sum) := by
  have hok := LedgerOk.run hstarted hrun
  have hvalue : ∀ counter, s.metrics.value counter = l.recordedAmount cfg counter := by
    intro counter
    rw [hok.value_eq counter, Nat.mod_eq_of_lt (hunwrapped.2 counter), hsettled.amount_eq]
  have hstart := hok.started_eq
  rw [Nat.mod_eq_of_lt hunwrapped.1, hok.started_sum] at hstart
  have hsucceeded : s.metrics.jobsSucceeded = _ := hvalue .succeeded
  have hfailed : s.metrics.jobsFailed = _ := hvalue .failed
  have htimedOut : s.metrics.jobsTimedOut = _ := hvalue .timedOut
  have hrestarts : s.metrics.workerRestarts = _ := hvalue .restarts
  have hms : s.metrics.totalInferenceMs = _ := hvalue .inferenceMs
  obtain ⟨hcount, hle, hsum, htotal⟩ := recorded_amounts cfg l
  refine ⟨by omega, by omega, by omega, by omega, fun hfit => ?_⟩
  have hexact : l.recorded.map (fun job => elapsedUsize job.1) = l.recorded.map Prod.fst :=
    List.map_congr_left (fun job hjob => Nat.min_eq_left (hfit job hjob))
  rw [hms, htotal, hexact]

/-- One job of worker 0 succeeds, one of worker 1 times out, and worker 0 has begun a third. -/
def metricsActions : List (Action String) :=
  enqueueActions (sampleRecord 1 5 none) ++ enqueueActions (sampleRecord 2 6 none) ++
    enqueueActions (sampleRecord 3 7 none) ++ readyActions 0 ++ readyActions 1 ++
    inferActions 0 8 ++
    [.worker 1 .recv, .worker 1 .recordStarted, .worker 1 (.markRunning 8),
      .worker 1 (.infer 300000 .timedOut), .worker 1 .count, .worker 1 .count,
      .worker 1 .count, .worker 1 .count] ++
    finishActions 0 9 ++
    [.worker 0 .recv, .worker 0 .recordStarted, .worker 0 (.markRunning 10),
      .worker 0 (.infer 50 (.panicked "worker thread"))]

/-- All pending outcomes are untouched, and all amounts are small. -/
def settledSample (state : Server String × JobLedger String) : Bool :=
  (List.range 3).all (fun w => (state.2.pending w).all (fun report => report.made == 0)) &&
    (decide (state.2.started = 3) &&
      [JobCounter.succeeded, .failed, .timedOut, .restarts, .inferenceMs].all
        (fun counter => decide (state.2.amount threeWorkers counter < usizeCount)))

theorem job_metrics_conserve_sample :
    ∃ (s : Server String) (l : JobLedger String),
      l.started = 3 ∧
      s.metrics.jobsStarted = s.metrics.jobsSucceeded + s.metrics.jobsFailed +
        countBelow 3 (fun w => (s.loops w).hasUnrecordedJob) ∧
      s.metrics.workerRestarts = s.metrics.jobsTimedOut + l.panicked.length := by
  have hexec : (runActions (observed (Server.step threeWorkers) (JobLedger.note threeWorkers))
      (fun _ _ => true) (Server.initial threeWorkers, JobLedger.empty)
      metricsActions).any settledSample = true := by
    decide +kernel
  obtain ⟨⟨s, l⟩, hrun, htest⟩ :
      ∃ q, ObservedRun (Server.step threeWorkers) (fun _ _ => True)
        (JobLedger.note threeWorkers) (Server.initial threeWorkers, JobLedger.empty) q ∧
        settledSample q = true :=
    exists_observedRun_of_any (fun _ _ _ => trivial) hexec
  obtain ⟨hpending, hrest⟩ := Bool.and_eq_true_iff.mp htest
  obtain ⟨hstarted, hamounts⟩ := Bool.and_eq_true_iff.mp hrest
  have hsettled : l.Settled threeWorkers := by
    intro w hw report hreport
    have hall := List.all_eq_true.mp hpending w (List.mem_range.mpr hw)
    rw [hreport] at hall
    simpa using hall
  have hunwrapped : l.Unwrapped threeWorkers := by
    refine ⟨?_, fun counter => ?_⟩
    · rw [show l.started = 3 from of_decide_eq_true hstarted]
      decide
    · refine of_decide_eq_true (List.all_eq_true.mp hamounts counter ?_)
      cases counter <;> simp
  obtain ⟨hsum, -, hrestarts, -⟩ :=
    job_metrics_conserve (started_initial threeWorkers) hrun hsettled hunwrapped
  exact ⟨s, l, of_decide_eq_true hstarted, hsum, hrestarts⟩

end Conservation
end FlorenceServer
