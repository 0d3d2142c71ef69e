import Mathlib.Data.FinEnum
import FlorenceServer.Lib.Components
import FlorenceServer.Jobs.Abandoned

/-!
# The work of a process is bounded and runs dry

Requests come in through `submit`, are answered by `read`, and `shutdown` is the
listener's decision.  Everything else is work that the process has taken on.  A
rank counts the work that is left: every step of a call, of a worker loop or of an
abandoned inference lowers it, and only a submission raises it.

* `server_work_is_bounded`: a process with `n` submissions does at most
  `21 * n + 5 * workers` steps of work, whatever the outcomes of its file
  operations, inferences and model loads.
* `server_runs_dry`: as long as the listener has not stopped, the work that is left
  can be finished, up to inferences that never return.  Where none is left no call is
  in progress, every accepted job has passed `finish_job` once, or is in such an
  inference, or waits in the queue with no loop to take it, and every loop waits at an
  empty queue, waits for such an inference or has returned.

Once the listener has stopped `main` returns, and the runtime drops the worker tasks
where they stand, so nothing runs dry then.
-/

namespace FlorenceServer

open Runs Finset

variable {M : Type}

section Ranks

/-- The steps that a worker loop takes before it waits again, and one to leave. -/
def WorkerLoop.rank : WorkerLoop M → Nat
  | .returned => 0
  | .leaving => 1
  | .stopping false => 2
  | .receiving => 3
  | .loaded => 4
  | .initializing => 5
  | .stopping true => 6
  | .retaining _ => 7
  | .cleaning _ _ => 8
  | .notifying _ _ => 9
  | .appending _ _ => 10
  | .finishing _ updates _ _ => 11 + updates.length
  -- a timed-out inference makes four updates and leaves a task in the background
  | .inferring _ => 17
  | .started _ => 18
  | .received _ => 19

/-- What a request in the queue adds to the rank of the loop that takes it, with the
`recv` step. -/
def requestRank : Nat := 17

def CallPc.rank : CallPc → Nat
  | .persisting _ => 1
  | .rollingBack _ => 2
  | .sending => 1 + requestRank
  | .appending => 2 + requestRank
  | .inserting => 3 + requestRank

def EnqueueCall.rank : EnqueueCall M → Nat
  | .fresh | .past | .ended _ _ => 0
  | .checking _ => 4 + requestRank
  | .live _ pc => pc.rank

/-- The work that is left. -/
def Server.rank (cfg : Config) (s : Server M) : Nat :=
  ∑ id, (s.calls id).rank + requestRank * s.queue.length +
    total cfg.workers (fun w => (s.loops w).rank) + s.background.length

/-- The calls that have not ended. -/
def Server.liveCalls (s : Server M) : Nat :=
  ∑ id, (s.calls id).isLive.toNat

theorem WorkerLoop.rank_afterRequest_le (restart : Bool) :
    (WorkerLoop.afterRequest restart : WorkerLoop M).rank ≤ 6 := by
  cases restart <;> simp [WorkerLoop.afterRequest, WorkerLoop.rank]

theorem CallPc.rank_pos (pc : CallPc) : 0 < pc.rank := by
  cases pc <;> simp [CallPc.rank]

end Ranks

section StepEffects

variable {cfg : Config} {s s' : Server M}

/-- A call step moves the call, may add its request to the queue, and spends work. -/
structure Server.CallSpends (s s' : Server M) (id : Uuid) (call : EnqueueCall M) : Prop where
  calls : s'.calls = Function.update s.calls id call
  loops : s'.loops = s.loops
  background : s'.background = s.background
  serving : s'.serving = s.serving
  senders : s'.senders = if call.isLive then s.senders else s.senders - 1
  live : (s.calls id).isLive = true
  rank : call.rank + requestRank * s'.queue.length <
    (s.calls id).rank + requestRank * s.queue.length

/-- The call ends without a request in the queue. -/
theorem Server.CallSpends.endCall
    {id : Uuid} {record : JobRecord M} {ending : CallEnding}
    (hlive : (s.calls id).isLive = true)
    (hrank : 0 < (s.calls id).rank)
    (s' : Server M)
    (hs' : s'.calls = (s.endCall id record ending).calls ∧ s'.loops = s.loops ∧
      s'.background = s.background ∧ s'.serving = s.serving ∧
      s'.senders = s.senders - 1 ∧ s'.queue = s.queue) :
    s.CallSpends s' id (.ended record ending) where
  calls := hs'.1
  loops := hs'.2.1
  background := hs'.2.2.1
  serving := hs'.2.2.2.1
  senders := hs'.2.2.2.2.1
  live := hlive
  rank := by
    have hended : (EnqueueCall.ended record ending).rank = 0 := rfl
    rw [hs'.2.2.2.2.2, hended]
    omega

/-- The call moves on. -/
theorem Server.CallSpends.setCall
    {id : Uuid} {sub : Submission M} {pc : CallPc}
    (hlive : (s.calls id).isLive = true)
    (hrank : pc.rank < (s.calls id).rank)
    (s' : Server M)
    (hs' : s'.calls = (s.setCall id (.live sub pc)).calls ∧ s'.loops = s.loops ∧
      s'.background = s.background ∧ s'.serving = s.serving ∧
      s'.senders = s.senders ∧ s'.queue = s.queue) :
    s.CallSpends s' id (.live sub pc) where
  calls := hs'.1
  loops := hs'.2.1
  background := hs'.2.2.1
  serving := hs'.2.2.2.1
  senders := hs'.2.2.2.2.1
  live := hlive
  rank := by
    have hmoved : (EnqueueCall.live sub pc).rank = pc.rank := rfl
    rw [hs'.2.2.2.2.2, hmoved]
    omega

theorem callStep_spends
    {id : Uuid} {action : CallAction}
    (hcase : Server.CallCase cfg s id action s') :
    ∃ call, s.CallSpends s' id call := by
  cases hcase with
  | check record hcall =>
      have hlive : (s.calls id).isLive = true := by rw [hcall]; rfl
      have hrank : (s.calls id).rank = 4 + requestRank := by rw [hcall]; rfl
      unfold Server.checkCall
      split
      · exact ⟨_, .endCall hlive (by omega) _ ⟨rfl, rfl, rfl, rfl, rfl, rfl⟩⟩
      · split
        · exact ⟨_, .endCall hlive (by omega) _ ⟨rfl, rfl, rfl, rfl, rfl, rfl⟩⟩
        · refine ⟨_, .setCall hlive ?_ _ ⟨rfl, rfl, rfl, rfl, rfl, rfl⟩⟩
          rw [hrank, CallPc.rank]
          omega
  | insert sub hcall =>
      have hlive : (s.calls id).isLive = true := by rw [hcall]; rfl
      have hrank : CallPc.appending.rank < (s.calls id).rank := by
        rw [hcall]
        simp [EnqueueCall.rank, CallPc.rank]
      exact ⟨_, .setCall hlive hrank _ ⟨rfl, rfl, rfl, rfl, rfl, rfl⟩⟩
  | append sub outcome hcall =>
      have hlive : (s.calls id).isLive = true := by rw [hcall]; rfl
      have hrank : (s.calls id).rank = 2 + requestRank := by rw [hcall]; rfl
      unfold Server.appendCall
      split
      · refine ⟨_, .setCall hlive ?_ _ ⟨rfl, rfl, rfl, rfl, rfl, rfl⟩⟩
        rw [hrank, CallPc.rank]
        omega
      · exact ⟨_, .endCall hlive (by omega) _ ⟨rfl, rfl, rfl, rfl, rfl, rfl⟩⟩
  | send sub hcall =>
      have hlive : (s.calls id).isLive = true := by rw [hcall]; rfl
      have hrank : (s.calls id).rank = 1 + requestRank := by rw [hcall]; rfl
      unfold Server.sendCall
      split
      · refine ⟨_, .setCall hlive ?_ _ ⟨rfl, rfl, rfl, rfl, rfl, rfl⟩⟩
        rw [hrank]
        simp [CallPc.rank, requestRank]
      · -- the request takes its share of the call's rank along
        refine ⟨_, rfl, rfl, rfl, rfl, rfl, hlive, ?_⟩
        rw [hrank, List.length_append, List.length_singleton, EnqueueCall.rank, Nat.mul_succ]
        omega
  | rollback sub reason hcall =>
      have hlive : (s.calls id).isLive = true := by rw [hcall]; rfl
      have hrank : (CallPc.persisting reason).rank < (s.calls id).rank := by
        rw [hcall]
        simp [EnqueueCall.rank, CallPc.rank]
      exact ⟨_, .setCall hlive hrank _ ⟨rfl, rfl, rfl, rfl, rfl, rfl⟩⟩
  | persist sub reason now outcome hcall =>
      refine ⟨_, .endCall (by rw [hcall]; rfl) ?_ _ ⟨rfl, rfl, rfl, rfl, rfl, rfl⟩⟩
      rw [hcall, EnqueueCall.rank]
      exact CallPc.rank_pos _
  | drop sub pc now written hcall hpc =>
      have hlive : (s.calls id).isLive = true := by rw [hcall]; rfl
      have hrank : 0 < (s.calls id).rank := by
        rw [hcall, EnqueueCall.rank]
        exact pc.rank_pos
      cases pc with
      | sending => cases hpc
      | _ => exact ⟨_, .endCall hlive hrank _ ⟨rfl, rfl, rfl, rfl, rfl, rfl⟩⟩

/-- A worker step moves its loop, may take a request, may leave a background task,
and spends work. -/
structure Server.LoopSpends (s s' : Server M) (w : Nat) (loop : WorkerLoop M) : Prop where
  calls : s'.calls = s.calls
  loops : s'.loops = Function.update s.loops w loop
  serving : s'.serving = s.serving
  senders : s'.senders = s.senders
  rank : loop.rank + requestRank * s'.queue.length + s'.background.length <
    (s.loops w).rank + requestRank * s.queue.length + s.background.length

/-- A step that neither takes a request nor leaves a background task. -/
theorem Server.LoopSpends.move
    {w : Nat} {before : WorkerLoop M} (loop : WorkerLoop M)
    (hloop : s.loops w = before)
    (hrank : loop.rank < before.rank)
    (s' : Server M)
    (hs' : s'.calls = s.calls ∧ s'.loops = Function.update s.loops w loop ∧
      s'.serving = s.serving ∧ s'.senders = s.senders ∧ s'.queue = s.queue ∧
      s'.background = s.background) :
    s.LoopSpends s' w loop where
  calls := hs'.1
  loops := hs'.2.1
  serving := hs'.2.2.1
  senders := hs'.2.2.2.1
  rank := by
    rw [hs'.2.2.2.2.1, hs'.2.2.2.2.2, hloop]
    omega

/-- No outcome makes more than four updates. -/
theorem handleInferenceResult_updates_le
    (cfg : Config) (elapsedMs : Nat) (outcome : InferenceOutcome M) :
    (handleInferenceResult cfg elapsedMs outcome).updates.length ≤ 4 := by
  cases outcome <;>
    simp [handleInferenceResult, CounterUpdate.recordJobSucceeded,
      CounterUpdate.recordJobTimedOut, CounterUpdate.recordJobFailed,
      CounterUpdate.recordWorkerRestart]

theorem workerStep_spends
    {w : Nat} {action : WorkerAction M}
    (hcase : Server.WorkerCase cfg s w action s') :
    ∃ loop, s.LoopSpends s' w loop := by
  cases hcase with
  | initWorker outcome hloop =>
      cases outcome with
      | ready elapsedMs =>
          exact ⟨_, .move .loaded hloop (by simp [WorkerLoop.rank]) _
            ⟨rfl, rfl, rfl, rfl, rfl, rfl⟩⟩
      | _ =>
          exact ⟨_, .move .leaving hloop (by simp [WorkerLoop.rank]) _
            ⟨rfl, rfl, rfl, rfl, rfl, rfl⟩⟩
  | markReady hloop =>
      exact ⟨_, .move .receiving hloop (by simp [WorkerLoop.rank]) _
        ⟨rfl, rfl, rfl, rfl, rfl, rfl⟩⟩
  | recv request rest hloop hqueue =>
      refine ⟨.received request, rfl, rfl, rfl, rfl, ?_⟩
      rw [hloop, hqueue, List.length_cons, Nat.mul_succ]
      simp only [WorkerLoop.rank, requestRank, Server.setLoop]
      omega
  | recvClosed hloop hqueue hsenders =>
      exact ⟨_, .move (.stopping false) hloop (by simp [WorkerLoop.rank]) _
        ⟨rfl, rfl, rfl, rfl, rfl, rfl⟩⟩
  | recordStarted request hloop =>
      exact ⟨_, .move (.started request) hloop (by simp [WorkerLoop.rank]) _
        ⟨rfl, rfl, rfl, rfl, rfl, rfl⟩⟩
  | markRunning request now hloop =>
      unfold Server.markRunning
      split <;>
        exact ⟨_, .move (.inferring request) hloop (by simp [WorkerLoop.rank]) _
          ⟨rfl, rfl, rfl, rfl, rfl, rfl⟩⟩
  | infer request elapsedMs outcome hloop hpossible =>
      have hupdates := handleInferenceResult_updates_le cfg elapsedMs outcome
      have hbackground :
          (s.inferLoop cfg w request elapsedMs outcome).background.length ≤
            s.background.length + 1 := by
        cases outcome <;> simp [Server.inferLoop]
      have hqueue : (s.inferLoop cfg w request elapsedMs outcome).queue = s.queue := rfl
      refine ⟨_, rfl, rfl, rfl, rfl, ?_⟩
      rw [hloop, hqueue]
      simp only [WorkerLoop.rank]
      omega
  | count request update updates result restart hloop =>
      exact ⟨_, .move (.finishing request updates result restart) hloop
        (by simp [WorkerLoop.rank]) _ ⟨rfl, rfl, rfl, rfl, rfl, rfl⟩⟩
  | publish request result restart now hloop =>
      unfold Server.publishLoop
      split
      · exact ⟨_, .move _ hloop (by simp [WorkerLoop.rank]) _
          ⟨rfl, rfl, rfl, rfl, rfl, rfl⟩⟩
      · have hafter := WorkerLoop.rank_afterRequest_le (M := M) restart
        exact ⟨_, .move (WorkerLoop.afterRequest restart) hloop
          (lt_of_le_of_lt hafter (by simp [WorkerLoop.rank])) _
          ⟨rfl, rfl, rfl, rfl, rfl, rfl⟩⟩
  | append record restart outcome hloop =>
      exact ⟨_, .move (.notifying record restart) hloop (by simp [WorkerLoop.rank]) _
        ⟨rfl, rfl, rfl, rfl, rfl, rfl⟩⟩
  | notify record restart env hloop =>
      exact ⟨_, .move (.cleaning record restart) hloop (by simp [WorkerLoop.rank]) _
        ⟨rfl, rfl, rfl, rfl, rfl, rfl⟩⟩
  | cleanup record restart removal hloop =>
      exact ⟨_, .move (.retaining restart) hloop (by simp [WorkerLoop.rank]) _
        ⟨rfl, rfl, rfl, rfl, rfl, rfl⟩⟩
  | retain restart order hloop =>
      have hafter := WorkerLoop.rank_afterRequest_le (M := M) restart
      exact ⟨_, .move (WorkerLoop.afterRequest restart) hloop
        (lt_of_le_of_lt hafter (by simp [WorkerLoop.rank])) _
        ⟨rfl, rfl, rfl, rfl, rfl, rfl⟩⟩
  | markStopped restart hloop =>
      cases restart with
      | true =>
          exact ⟨_, .move .initializing hloop (by simp [WorkerLoop.rank]) _
            ⟨rfl, rfl, rfl, rfl, rfl, rfl⟩⟩
      | false =>
          exact ⟨_, .move .leaving hloop (by simp [WorkerLoop.rank]) _
            ⟨rfl, rfl, rfl, rfl, rfl, rfl⟩⟩
  | leave hloop =>
      exact ⟨_, .move .returned hloop (by simp [WorkerLoop.rank]) _
        ⟨rfl, rfl, rfl, rfl, rfl, rfl⟩⟩

end StepEffects

section Work

variable {cfg : Config} {s s' : Server M}

/-- The process goes on with something it has taken on. -/
def Action.isWork : Action M → Bool
  | .call _ _ | .worker _ _ | .backgroundDone _ _ => true
  | .submit _ | .read _ | .shutdown => false

def Action.isSubmit : Action M → Bool
  | .submit _ => true
  | _ => false

/-- The work of a submitted job. -/
def submissionRank : Nat := 4 + requestRank

theorem Server.CallSpends.rank_lt
    {id : Uuid} {call : EnqueueCall M}
    (hspends : s.CallSpends s' id call) :
    s'.rank cfg < s.rank cfg := by
  have hsum := sum_change (f := fun i => (s.calls i).rank)
    (g := fun i => (s'.calls i).rank) (i := id)
    (fun j hj => by rw [hspends.calls, Function.update_of_ne hj])
  have hcall : (s'.calls id).rank = call.rank := by
    rw [hspends.calls, Function.update_self]
  have hrank := hspends.rank
  simp only [hcall] at hsum
  unfold Server.rank
  rw [hspends.loops, hspends.background]
  omega

theorem Server.LoopSpends.rank_lt
    {w : Nat} {loop : WorkerLoop M}
    (hw : w < cfg.workers)
    (hspends : s.LoopSpends s' w loop) :
    s'.rank cfg < s.rank cfg := by
  have hsum := total_change (f := fun v => (s.loops v).rank)
    (g := fun v => (s'.loops v).rank) hw
    (fun v hv => by rw [hspends.loops, Function.update_of_ne hv])
  have hloop : (s'.loops w).rank = loop.rank := by
    rw [hspends.loops, Function.update_self]
  have hrank := hspends.rank
  simp only [hloop] at hsum
  unfold Server.rank
  rw [hspends.calls]
  omega

theorem submit_rank
    {record : JobRecord M}
    (hstep : s.submit record = some s') :
    s'.rank cfg = s.rank cfg + submissionRank := by
  unfold Server.submit at hstep
  split at hstep
  case h_1 hserving hcall =>
      cases hstep
      have hsum := sum_change (f := fun i => (s.calls i).rank)
        (g := fun i => (Function.update s.calls record.id (.checking record) i).rank)
        (i := record.id) (fun j hj => by rw [Function.update_of_ne hj])
      simp only [hcall, Function.update_self] at hsum
      have hfresh : (EnqueueCall.fresh : EnqueueCall M).rank = 0 := rfl
      have hchecking : (EnqueueCall.checking record).rank = submissionRank := rfl
      simp only [Server.rank, Server.setCall]
      omega
  case h_2 => cases hstep

/-- A step of work lowers the rank; of the others only a submission raises it. -/
theorem step_rank
    {a : Action M}
    (hstep : s.step cfg a = some s') :
    s'.rank cfg + a.isWork.toNat ≤ s.rank cfg + submissionRank * a.isSubmit.toNat := by
  cases a with
  | submit record =>
      have hrank : s'.rank cfg = s.rank cfg + submissionRank := submit_rank hstep
      simp only [Action.isWork, Action.isSubmit, Bool.toNat_true, Bool.toNat_false]
      omega
  | call id action =>
      obtain ⟨call, hspends⟩ := callStep_spends (Server.callStep_cases hstep)
      have hlt : s'.rank cfg < s.rank cfg := hspends.rank_lt
      simp only [Action.isWork, Action.isSubmit, Bool.toNat_true, Bool.toNat_false]
      omega
  | worker w action =>
      simp only [Server.step] at hstep
      split at hstep
      · rename_i hw
        obtain ⟨loop, hspends⟩ := workerStep_spends (Server.workerStep_cases hstep)
        have hlt := hspends.rank_lt hw
        simp only [Action.isWork, Action.isSubmit, Bool.toNat_true, Bool.toNat_false]
        omega
      · cases hstep
  | read id =>
      cases hstep
      exact le_refl _
  | shutdown =>
      simp only [Server.step] at hstep
      split at hstep
      · cases hstep
        exact le_refl _
      · cases hstep
  | backgroundDone w id =>
      simp only [Server.step] at hstep
      split at hstep
      · rename_i hmem
        cases hstep
        have hlength := List.length_erase_of_mem hmem
        have hpos := List.length_pos_of_mem hmem
        simp only [Server.rank, Action.isWork, Action.isSubmit, Bool.toNat_true,
          Bool.toNat_false]
        omega
      · cases hstep

theorem Started.rank
    (hstarted : Started cfg s) :
    s.rank cfg = 5 * cfg.workers := by
  obtain ⟨jobs, disk, effects, reads, used, rfl⟩ := hstarted.exists_start
  have hcalls : ∀ id, ((Server.start cfg jobs disk effects reads used).calls id).rank = 0 := by
    intro id
    cases hused : used id <;> simp [Server.start, hused, EnqueueCall.rank]
  simp only [Server.rank, hcalls]
  simp [Server.start, total, WorkerLoop.rank, Nat.mul_comm]

/-- The submissions of a run, and its steps of work. -/
abbrev Workload := Account

def Workload.note : Server M → Action M → Workload → Workload :=
  Account.note (fun a => a.isSubmit.toNat) (fun a => a.isWork.toNat)

/--
Whatever the interleaving and the outcomes, a process does at most 21 steps of
work for each submission and 5 for each worker loop: a request is inferred once, a
loop loads its model again only after a request, and no call or loop goes round.
-/
theorem server_work_is_bounded
    {ok : Server M → Action M → Prop} {s₀ : Server M} {load : Workload}
    (hstarted : Started cfg s₀)
    (hrun : ObservedRun (Server.step cfg) ok Workload.note
      (s₀, { earned := 0, spent := 0 }) (s, load)) :
    load.spent ≤ 21 * load.earned + 5 * cfg.workers := by
  have hpays : ∀ (t : Server M) (a : Action M) (t' : Server M), ok t a →
      t.step cfg a = some t' →
      t'.rank cfg + a.isWork.toNat ≤ t.rank cfg + submissionRank * a.isSubmit.toNat :=
    fun _ _ _ _ hstep => step_rank hstep
  have hle := ObservedRun.spent_le hpays hrun
  rw [hstarted.rank] at hle
  simp only [submissionRank, requestRank] at hle
  omega

/-- A job that times out, with its inference ending in the background. -/
def timeoutActions : List (Action String) :=
  enqueueActions (sampleRecord 1 5 none) ++ readyActions 0 ++
    [.worker 0 .recv, .worker 0 .recordStarted, .worker 0 (.markRunning 20),
      .worker 0 (.infer 300000 .timedOut), .backgroundDone 0 1]

theorem server_work_is_bounded_sample :
    ∃ (s : Server String) (load : Workload),
      ObservedRun (Server.step Config.default) (fun _ _ => True) Workload.note
        (Server.initial Config.default, { earned := 0, spent := 0 }) (s, load) ∧
      load.spent = 11 ∧ 11 ≤ 21 * load.earned + 5 * Config.default.workers := by
  have hexec : (runActions (observed (Server.step Config.default) Workload.note)
      (fun _ _ => true) (Server.initial Config.default, { earned := 0, spent := 0 })
      timeoutActions).any (fun q => q.2.spent == 11) = true := by
    decide +kernel
  obtain ⟨⟨s, load⟩, hrun, htest⟩ :
      ∃ q, ObservedRun (Server.step Config.default) (fun _ _ => True) Workload.note
        (Server.initial Config.default, { earned := 0, spent := 0 }) q ∧
        (q.2.spent == 11) = true :=
    exists_observedRun_of_any (fun _ _ _ => trivial) hexec
  have hspent : load.spent = 11 := by simpa using htest
  have hle := server_work_is_bounded (started_initial Config.default) hrun
  exact ⟨s, load, hrun, hspent, hspent ▸ hle⟩

end Work

section Quiescence

variable {cfg : Config} {s₀ s s' : Server M}

def InferenceOutcome.isTimedOut : InferenceOutcome M → Bool
  | .timedOut => true
  | .succeeded _ | .failed _ | .panicked _ => false

/-- The listener goes on, and the inferences of the jobs in `endless` do not return; a
worker gives them up at their timeout or waits for ever. -/
def Server.InService (endless : Uuid → Prop) (s : Server M) : Action M → Prop
  | .shutdown => False
  | .worker w (.infer _ outcome) =>
      outcome.isTimedOut = true ∨ ∀ request, s.loops w = .inferring request → ¬ endless request.id
  | .backgroundDone _ id => ¬ endless id
  | _ => True

/-- The process goes on with its work while the listener serves. -/
def Server.Works (endless : Uuid → Prop) (s : Server M) (a : Action M) : Prop :=
  a.isWork = true ∧ s.InService endless a

/-- No work is left. -/
def Server.Quiescent (cfg : Config) (endless : Uuid → Prop) (s : Server M) : Prop :=
  ∀ a : Action M, s.Works endless a → s.step cfg a = none

/-- A worker waits for the inference of a job, without a timeout and for ever. -/
def Server.Hangs (cfg : Config) (endless : Uuid → Prop) (s : Server M) (w : Nat) (id : Uuid) :
    Prop :=
  cfg.jobTimeoutSeconds = 0 ∧ endless id ∧
    ∃ request, s.loops w = .inferring request ∧ request.id = id

/-- The handlers of live calls, and the router while it serves, hold a sender. -/
def Server.CountsSenders (s : Server M) : Prop :=
  s.senders = s.serving.toNat + s.liveCalls

theorem Server.CallSpends.countsSenders
    {id : Uuid} {call : EnqueueCall M}
    (hspends : s.CallSpends s' id call)
    (hcounts : s.CountsSenders) :
    s'.CountsSenders := by
  have hsum := sum_change (f := fun i => (s.calls i).isLive.toNat)
    (g := fun i => (s'.calls i).isLive.toNat) (i := id)
    (fun j hj => by rw [hspends.calls, Function.update_of_ne hj])
  have hcall : s'.calls id = call := by
    rw [hspends.calls, Function.update_self]
  have hsenders := hspends.senders
  unfold Server.CountsSenders Server.liveCalls at *
  simp only [hcall, hspends.live, Bool.toNat_true] at hsum
  rw [hspends.serving]
  cases hlive : call.isLive with
  | true =>
      simp only [hlive, if_true, Bool.toNat_true] at hsenders hsum
      omega
  | false =>
      simp only [hlive, Bool.false_eq_true, if_false, Bool.toNat_false] at hsenders hsum
      omega

theorem step_countsSenders
    {a : Action M}
    (hstep : s.step cfg a = some s')
    (hcounts : s.CountsSenders) :
    s'.CountsSenders := by
  cases a with
  | submit record =>
      simp only [Server.step, Server.submit] at hstep
      split at hstep
      case h_1 hserving hcall =>
          cases hstep
          have hsum := sum_change (f := fun i => (s.calls i).isLive.toNat)
            (g := fun i =>
              (Function.update s.calls record.id (.checking record) i).isLive.toNat)
            (i := record.id) (fun j hj => by rw [Function.update_of_ne hj])
          have hfresh : (EnqueueCall.fresh : EnqueueCall M).isLive.toNat = 0 := rfl
          have hchecking : (EnqueueCall.checking record).isLive.toNat = 1 := rfl
          simp only [hcall, Function.update_self] at hsum
          simp only [Server.CountsSenders, Server.liveCalls, Server.setCall] at *
          omega
      case h_2 => cases hstep
  | call id action =>
      obtain ⟨call, hspends⟩ := callStep_spends (Server.callStep_cases hstep)
      exact hspends.countsSenders hcounts
  | worker w action =>
      simp only [Server.step] at hstep
      split at hstep
      · obtain ⟨loop, hspends⟩ := workerStep_spends (Server.workerStep_cases hstep)
        unfold Server.CountsSenders Server.liveCalls at *
        rw [hspends.senders, hspends.serving, hspends.calls]
        exact hcounts
      · cases hstep
  | read id =>
      cases hstep
      exact hcounts
  | shutdown =>
      simp only [Server.step] at hstep
      split at hstep
      · rename_i hserving
        cases hstep
        unfold Server.CountsSenders Server.liveCalls at *
        rw [hserving, Bool.toNat_true] at hcounts
        simp only [Bool.toNat_false]
        omega
      · cases hstep
  | backgroundDone w id =>
      simp only [Server.step] at hstep
      split at hstep <;> cases hstep
      exact hcounts

theorem step_serving
    {endless : Uuid → Prop} {a : Action M}
    (hserves : s.InService endless a)
    (hstep : s.step cfg a = some s') :
    s'.serving = s.serving := by
  cases a with
  | submit record =>
      simp only [Server.step, Server.submit] at hstep
      split at hstep <;> cases hstep
      rfl
  | call id action =>
      obtain ⟨call, hspends⟩ := callStep_spends (Server.callStep_cases hstep)
      exact hspends.serving
  | worker w action =>
      simp only [Server.step] at hstep
      split at hstep
      · obtain ⟨loop, hspends⟩ := workerStep_spends (Server.workerStep_cases hstep)
        exact hspends.serving
      · cases hstep
  | read id =>
      cases hstep
      rfl
  | shutdown => exact hserves.elim
  | backgroundDone w id =>
      simp only [Server.step] at hstep
      split at hstep <;> cases hstep
      rfl

theorem Started.serving
    (hstarted : Started cfg s) :
    s.serving = true := by
  obtain ⟨jobs, disk, effects, reads, used, rfl⟩ := hstarted.exists_start
  rfl

theorem Started.countsSenders
    (hstarted : Started cfg s) :
    s.CountsSenders := by
  obtain ⟨jobs, disk, effects, reads, used, rfl⟩ := hstarted.exists_start
  have hcalls : ∀ id,
      ((Server.start cfg jobs disk effects reads used).calls id).isLive = false := by
    intro id
    cases hused : used id <;> simp [Server.start, hused, EnqueueCall.isLive]
  have hnone : (Server.start cfg jobs disk effects reads used).liveCalls = 0 := by
    simp only [Server.liveCalls, hcalls, Bool.toNat_false, sum_const_zero]
  rw [Server.CountsSenders, hnone]
  rfl

/-- A call that has not ended can go on. -/
theorem callStep_of_live
    {id : Uuid}
    (hlive : (s.calls id).isLive = true) :
    ∃ action, s.step cfg (.call id action) ≠ none := by
  cases hcall : s.calls id with
  | checking record => exact ⟨.check, by simp [Server.step, Server.callStep, hcall]⟩
  | live sub pc =>
      cases pc with
      | inserting => exact ⟨.insert, by simp [Server.step, Server.callStep, hcall]⟩
      | appending => exact ⟨.append .ok, by simp [Server.step, Server.callStep, hcall]⟩
      | sending => exact ⟨.send, by simp [Server.step, Server.callStep, hcall]⟩
      | rollingBack reason => exact ⟨.rollback, by simp [Server.step, Server.callStep, hcall]⟩
      | persisting reason =>
          exact ⟨.persist 0 .ok, by simp [Server.step, Server.callStep, hcall]⟩
  | _ =>
      rw [hcall] at hlive
      cases hlive

/-- A loop that cannot go on has returned, waits at an empty queue whose senders are
not all gone, or waits for an inference that never returns. -/
theorem loop_of_stuck
    {endless : Uuid → Prop} {w : Nat}
    (hstuck : ∀ action : WorkerAction M, s.InService endless (.worker w action) →
      s.workerStep cfg w action = none) :
    (s.loops w = .receiving ∧ s.queue = [] ∧ s.senders ≠ 0) ∨ s.loops w = .returned ∨
      ∃ id, s.Hangs cfg endless w id := by
  cases hloop : s.loops w with
  | returned => exact Or.inr (Or.inl rfl)
  | receiving =>
      have hrecv := hstuck .recv trivial
      simp only [Server.workerStep, hloop, Server.recvLoop] at hrecv
      split at hrecv
      · cases hrecv
      · rename_i hqueue
        split at hrecv
        · cases hrecv
        · rename_i hsenders
          exact Or.inl ⟨rfl, hqueue, hsenders⟩
  | inferring request =>
      by_cases hendless : endless request.id
      · -- only the timeout gets the worker out of this inference
        have h := hstuck (.infer 0 .timedOut) (Or.inl rfl)
        simp only [Server.workerStep, hloop, InferenceOutcome.possible] at h
        refine Or.inr (Or.inr ⟨request.id, ?_, hendless, request, hloop, rfl⟩)
        by_contra htimeout
        simp [htimeout] at h
      · have h := hstuck (.infer 0 (.failed "")) <| Or.inr fun other hother => by
          rw [hloop] at hother
          cases hother
          exact hendless
        simp [Server.workerStep, hloop, InferenceOutcome.possible] at h
  | initializing =>
      have h := hstuck (.initWorker .failed) trivial
      simp [Server.workerStep, hloop] at h
  | loaded =>
      have h := hstuck .markReady trivial
      simp [Server.workerStep, hloop] at h
  | received request =>
      have h := hstuck .recordStarted trivial
      simp [Server.workerStep, hloop] at h
  | started request =>
      have h := hstuck (.markRunning 0) trivial
      simp [Server.workerStep, hloop] at h
  | finishing request updates result restart =>
      cases updates with
      | nil =>
          have h := hstuck (.publish 0) trivial
          simp [Server.workerStep, hloop] at h
      | cons update updates =>
          have h := hstuck .count trivial
          simp [Server.workerStep, hloop] at h
  | appending record restart =>
      have h := hstuck (.append .ok) trivial
      simp [Server.workerStep, hloop] at h
  | notifying record restart =>
      have h := hstuck (.notify sampleDelivery) trivial
      simp [Server.workerStep, hloop] at h
  | cleaning record restart =>
      have h := hstuck (.cleanup .removed) trivial
      simp [Server.workerStep, hloop] at h
  | retaining restart =>
      have h := hstuck (.retain IterationOrder.stored) trivial
      simp [Server.workerStep, hloop] at h
  | stopping restart =>
      have h := hstuck .markStopped trivial
      simp [Server.workerStep, hloop] at h
  | leaving =>
      have h := hstuck .leave trivial
      simp [Server.workerStep, hloop] at h

/-- What a process with no work left looks like while its listener serves. -/
structure Server.Drained (cfg : Config) (endless : Uuid → Prop) (s : Server M) : Prop where
  calls : ∀ id, (s.calls id).isLive = false
  /-- the router's -/
  senders : s.senders = 1
  background : ∀ task ∈ s.background, endless task.2
  loops : ∀ w < cfg.workers,
    (s.loops w = .receiving ∧ s.queue = []) ∨ s.loops w = .returned ∨
      ∃ id, s.Hangs cfg endless w id
  /-- an accepted job is finished, in an inference that never returns, or in the queue
  of a pool without a loop that could take it -/
  jobs : ∀ id, (s.calls id).isAccepted = true →
    ((s.effectsOf id).countP Effect.entersFinish = 1 ∧ ¬ s.Queued id) ∨
      (∃ w < cfg.workers, s.Hangs cfg endless w id) ∨
      (s.Queued id ∧ ∀ w < cfg.workers,
        s.loops w = .returned ∨ ∃ other, s.Hangs cfg endless w other)

/-- A job that came to rest after its call returned `Ok` has passed `finish_job`. -/
theorem Life.Ok.finished_once
    {id : Uuid} {L : Life M} {record : JobRecord M}
    (hok : L.Ok id)
    (hstage : L.stage = .settled record (Stage.accepted record.id)) :
    L.effects.countP Effect.entersFinish = 1 := by
  simp only [Life.Ok, hstage] at hok
  obtain ⟨-, hsettled⟩ := hok
  generalize hending : Stage.accepted record.id = ending at hsettled
  cases hsettled with
  | completed final outcome delivery removal hfinal hrecord hsub hres heff =>
      rw [heff]
      rfl
  | lost hrecord hsub hres heff =>
      rw [heff]
      rfl
  | _ => cases hending

/-- An accepted job is in the queue, with a worker, or past `finish_job`. -/
theorem Tracks.accepted_cases
    {lives : Uuid → Life M} {id : Uuid}
    (htracks : Tracks s lives)
    (haccepted : (s.calls id).isAccepted = true) :
    ((s.effectsOf id).countP Effect.entersFinish = 1 ∧ ¬ s.Queued id) ∨
      s.Queued id ∨ s.Held id := by
  obtain ⟨hview, hok⟩ := htracks id
  by_cases hqueued : s.Queued id
  · exact Or.inr (Or.inl hqueued)
  · rw [hview.call] at haccepted
    cases hstage : (lives id).stage with
    | queued record =>
        have hcount := hview.requests
        rw [hstage, Stage.requests] at hcount
        have hpos : 0 < s.queue.countP (fun request => decide (request.id = id)) := by omega
        obtain ⟨request, hmem, hid⟩ := List.countP_pos_iff.mp hpos
        exact absurd ⟨request, hmem, of_decide_eq_true hid⟩ hqueued
    | held record w pc =>
        have hheld := (hview.holder w pc).mpr (by rw [hstage]; rfl)
        exact Or.inr (Or.inr ⟨w, pc, hheld⟩)
    | settled record ending =>
        have hending : ending = Stage.accepted record.id := by
          rw [hstage] at haccepted
          simp only [Life.Ok, hstage] at hok
          cases hok.2 with
          | completed => rfl
          | lost => rfl
          | _ => cases haccepted
        refine Or.inl ⟨?_, hqueued⟩
        unfold Server.effectsOf
        rw [hview.effects]
        exact hok.finished_once (hstage.trans (by rw [hending]))
    | _ =>
        rw [hstage] at haccepted
        cases haccepted

/-- What the argument needs of a reachable state. -/
structure Server.Accounted (cfg : Config) (s : Server M) : Prop where
  tracked : ∃ lives, Tracks s lives
  idleBeyond : s.IdleBeyond cfg
  countsSenders : s.CountsSenders

theorem Server.Accounted.run
    {ok : Server M → Action M → Prop}
    (haccounted : s.Accounted cfg)
    (hrun : Run (Server.step cfg) ok s s') :
    s'.Accounted cfg := by
  refine hrun.invariant (I := fun t => t.Accounted cfg) ?_ haccounted
  rintro t a t' _ hstep ⟨⟨lives, htracks⟩, hbeyond, hcounts⟩
  obtain ⟨lives', htracks', -⟩ := step_tracks htracks hstep
  exact ⟨⟨lives', htracks'⟩, step_idleBeyond hstep hbeyond, step_countsSenders hstep hcounts⟩

theorem Started.accounted
    (hstarted : Started cfg s) :
    s.Accounted cfg := by
  obtain ⟨lives, htracks, -⟩ := hstarted.tracks
  exact ⟨⟨lives, htracks⟩, hstarted.idleBeyond, hstarted.countsSenders⟩

theorem Server.Hangs.held
    {endless : Uuid → Prop} {w : Nat} {id : Uuid}
    (hhangs : s.Hangs cfg endless w id) :
    (s.loops w).held = some (id, .executing) := by
  obtain ⟨-, -, request, hloop, rfl⟩ := hhangs
  rw [hloop]
  rfl

theorem Server.Quiescent.drained
    {endless : Uuid → Prop}
    (hquiescent : s.Quiescent cfg endless)
    (hserving : s.serving = true)
    (haccounted : s.Accounted cfg) :
    s.Drained cfg endless := by
  obtain ⟨⟨lives, htracks⟩, hbeyond, hcounts⟩ := haccounted
  have hcalls : ∀ id, (s.calls id).isLive = false := by
    intro id
    cases hlive : (s.calls id).isLive with
    | false => rfl
    | true =>
        obtain ⟨action, hstep⟩ : ∃ action, s.step cfg (.call id action) ≠ none :=
          callStep_of_live hlive
        exact absurd (hquiescent (.call id action) ⟨rfl, trivial⟩) hstep
  have hstuck : ∀ w < cfg.workers, ∀ action, s.InService endless (.worker w action) →
      s.workerStep cfg w action = none := by
    intro w hw action hserves
    have hnone := hquiescent (.worker w action) ⟨rfl, hserves⟩
    rwa [Server.step, if_pos hw] at hnone
  have hloops := fun w hw => loop_of_stuck (hstuck w hw)
  refine ⟨hcalls, ?_, ?_, ?_, ?_⟩
  · rw [hcounts, hserving, Server.liveCalls]
    simp [hcalls]
  · rintro ⟨w, id⟩ hmem
    by_contra hreturns
    have hnone := hquiescent (.backgroundDone w id) ⟨rfl, hreturns⟩
    rw [Server.step, if_pos hmem] at hnone
    cases hnone
  · intro w hw
    exact (hloops w hw).imp_left (fun h => ⟨h.1, h.2.1⟩)
  · intro id haccepted
    refine (htracks.accepted_cases haccepted).imp_right ?_
    rintro (hqueued | ⟨w, pc, hheld⟩)
    · refine Or.inr ⟨hqueued, ?_⟩
      intro w hw
      refine (hloops w hw).resolve_left ?_
      rintro ⟨-, hempty, -⟩
      obtain ⟨request, hmem, -⟩ := hqueued
      rw [hempty] at hmem
      cases hmem
    · have hw : w < cfg.workers := by
        by_contra hw
        rw [hbeyond w (Nat.le_of_not_lt hw)] at hheld
        cases hheld
      rcases hloops w hw with ⟨hat, -, -⟩ | hat | ⟨other, hhangs⟩
      · rw [hat] at hheld
        cases hheld
      · rw [hat] at hheld
        cases hheld
      · rw [hhangs.held] at hheld
        cases hheld
        exact Or.inl ⟨w, hw, hhangs⟩

/--
As long as the listener serves, the process can finish the work it has taken on from
every reachable state, up to the inferences that never return.  However it does so, it
ends up drained: every call has ended, every loop waits at an empty queue, waits for
such an inference or has returned, and every accepted job has passed `finish_job` once
unless it is in such an inference itself or no loop is left to take it.
-/
theorem server_runs_dry
    {endless : Uuid → Prop}
    (hstarted : Started cfg s₀)
    (hrun : Run (Server.step cfg) (Server.InService endless) s₀ s) :
    (∃ t, Run (Server.step cfg) (Server.Works endless) s t ∧ t.Quiescent cfg endless) ∧
    ∀ t, Run (Server.step cfg) (Server.Works endless) s t →
      t.Quiescent cfg endless → t.Drained cfg endless := by
  constructor
  · refine exists_stuck_of_rank (Server.rank cfg) ?_ s
    intro t a t' hworks hstep
    have hrank := step_rank hstep
    have hsubmit : a.isSubmit = false := by
      cases a with
      | submit record => cases hworks.1
      | _ => rfl
    rw [hworks.1, hsubmit, Bool.toNat_true, Bool.toNat_false] at hrank
    omega
  · intro t hwork hquiescent
    have hall : Run (Server.step cfg) (Server.InService endless) s₀ t :=
      hrun.trans (hwork.mono (fun _ _ hworks => hworks.2))
    have hserving : t.serving = true :=
      hall.invariant (I := fun u => u.serving = true)
        (fun _ _ _ hserves hstep hserving => (step_serving hserves hstep).trans hserving)
        hstarted.serving
    exact hquiescent.drained hserving (hstarted.accounted.run hall)

/-- Neither the listener nor an inference ends with this action. -/
def Action.endsNothing : Action M → Bool
  | .shutdown | .worker _ (.infer _ _) | .backgroundDone _ _ => false
  | _ => true

theorem Server.inService_of_endsNothing
    {endless : Uuid → Prop} {a : Action M}
    (h : a.endsNothing = true) :
    s.InService endless a := by
  cases a with
  | shutdown => cases h
  | backgroundDone w id => cases h
  | worker w action =>
      cases action with
      | infer elapsedMs outcome => cases h
      | _ => trivial
  | _ => trivial

/-- Every inference is waited for. -/
def patientConfig : Config :=
  { Config.default with jobTimeoutSeconds := 0 }

/-- The only worker infers the first job, and the second one is queued. -/
def hangingActions : List (Action String) :=
  enqueueActions (sampleRecord 1 5 none) ++ readyActions 0 ++
    [.worker 0 .recv, .worker 0 .recordStarted, .worker 0 (.markRunning 20)] ++
    enqueueActions (sampleRecord 2 6 none)

theorem server_runs_dry_sample :
    ∃ s t : Server String, s.queue.length = 1 ∧
      Run (Server.step patientConfig) (Server.Works (fun id => id = 1)) s t ∧
      t.Drained patientConfig (fun id => id = 1) := by
  have hexec : (runActions (Server.step patientConfig) (fun _ a => a.endsNothing)
      (Server.initial patientConfig) hangingActions).any
      (fun s => s.queue.length == 1) = true := by
    decide +kernel
  obtain ⟨s, hrun, htest⟩ : ∃ s, Run (Server.step patientConfig)
      (Server.InService (fun id => id = 1)) (Server.initial patientConfig) s ∧
      (s.queue.length == 1) = true :=
    exists_run_of_any (fun _ _ => Server.inService_of_endsNothing) hexec
  obtain ⟨⟨t, hwork, hquiescent⟩, hdrained⟩ :=
    server_runs_dry (started_initial patientConfig) hrun
  exact ⟨s, t, by simpa using htest, hwork, hdrained t hwork hquiescent⟩

end Quiescence
end FlorenceServer
