import FlorenceServer.Lib.Components
import FlorenceServer.Jobs.Tracking

/-!
# The counters of the worker pool

`WorkerPoolState` is updated by separate steps of the worker loops.  A history
of the calls that each loop made is kept beside the state, and the counters are
compared with it.

* `worker_pool_counts_its_loops`: the ready counter is the number of loops
  between `mark_ready` and `mark_stopped`, the failed counter the number of loops
  behind `mark_failed`, together they are at most the expected number, and
  `mark_stopped` never finds the ready counter at zero.
-/

namespace FlorenceServer

open Runs

variable {M : Type}

section Frame

variable {cfg : Config} {s s' : Server M}

/-- What only the worker loops change. -/
structure Server.SameWorkers (s s' : Server M) : Prop where
  loops : s'.loops = s.loops
  workers : s'.workers = s.workers
  metrics : s'.metrics = s.metrics

theorem callStep_sameWorkers
    {id : Uuid} {action : CallAction}
    (hcase : Server.CallCase cfg s id action s') :
    s.SameWorkers s' := by
  cases hcase with
  | check record hcall =>
      unfold Server.checkCall
      split
      · exact ⟨rfl, rfl, rfl⟩
      · split <;> exact ⟨rfl, rfl, rfl⟩
  | insert sub hcall =>
      exact ⟨rfl, rfl, rfl⟩
  | append sub outcome hcall =>
      unfold Server.appendCall
      split <;> exact ⟨rfl, rfl, rfl⟩
  | send sub hcall =>
      unfold Server.sendCall
      split <;> exact ⟨rfl, rfl, rfl⟩
  | rollback sub reason hcall =>
      exact ⟨rfl, rfl, rfl⟩
  | persist sub reason now outcome hcall =>
      exact ⟨rfl, rfl, rfl⟩
  | drop sub pc now written hcall hpc =>
      cases pc <;> exact ⟨rfl, rfl, rfl⟩

/-- A step is one of a worker that exists, or it leaves the workers as they are. -/
theorem step_worker_or_same
    {a : Action M}
    (hstep : s.step cfg a = some s') :
    (∃ w action, a = .worker w action ∧ w < cfg.workers ∧
      Server.WorkerCase cfg s w action s') ∨
    ((∀ w action, a ≠ .worker w action) ∧ s.SameWorkers s') := by
  cases a with
  | worker w action =>
      simp only [Server.step] at hstep
      split at hstep
      · rename_i hw
        exact Or.inl ⟨w, action, rfl, hw, Server.workerStep_cases hstep⟩
      · cases hstep
  | submit record =>
      simp only [Server.step, Server.submit] at hstep
      split at hstep <;> cases hstep
      exact Or.inr ⟨(fun _ _ h => by cases h), rfl, rfl, rfl⟩
  | call id action =>
      exact Or.inr ⟨(fun _ _ h => by cases h), callStep_sameWorkers (Server.callStep_cases hstep)⟩
  | read id =>
      cases hstep
      exact Or.inr ⟨(fun _ _ h => by cases h), rfl, rfl, rfl⟩
  | shutdown =>
      simp only [Server.step] at hstep
      split at hstep <;> cases hstep
      exact Or.inr ⟨(fun _ _ h => by cases h), rfl, rfl, rfl⟩
  | backgroundDone w id =>
      simp only [Server.step] at hstep
      split at hstep <;> cases hstep
      exact Or.inr ⟨(fun _ _ h => by cases h), rfl, rfl, rfl⟩

end Frame

section Histories

/-- The loop has a loaded model and has not called `mark_stopped` for it. -/
def WorkerLoop.isServing : WorkerLoop M → Bool
  | .receiving | .received _ | .started _ | .inferring _ | .finishing _ _ _ _
  | .appending _ _ | .notifying _ _ | .cleaning _ _ | .retaining _ | .stopping _ => true
  | .initializing | .loaded | .leaving | .returned => false

/-- The loop handles no more requests. -/
def WorkerLoop.isGone : WorkerLoop M → Bool
  | .leaving | .returned => true
  | _ => false

@[simp] theorem WorkerLoop.isServing_afterRequest (restart : Bool) :
    (WorkerLoop.afterRequest restart : WorkerLoop M).isServing = true := by
  cases restart <;> rfl

/-- The calls that the loops made on `WorkerPoolState`. -/
structure PoolHistory where
  /-- the loop has passed `mark_ready` and not yet `mark_stopped` -/
  serving : Nat → Bool
  /-- the loop has passed `mark_failed` -/
  failed : Nat → Bool

namespace PoolHistory

def empty : PoolHistory where
  serving := fun _ => false
  failed := fun _ => false

def noteWorker (h : PoolHistory) (w : Nat) : WorkerAction M → PoolHistory
  | .markReady => { h with serving := Function.update h.serving w true }
  | .markStopped => { h with serving := Function.update h.serving w false }
  | .initWorker .failed | .initWorker .panicked =>
      { h with failed := Function.update h.failed w true }
  | _ => h

def note (_ : Server M) (a : Action M) (h : PoolHistory) : PoolHistory :=
  match a with
  | .worker w action => h.noteWorker w action
  | _ => h

end PoolHistory

end Histories

section Counters

variable {cfg : Config} {s s' : Server M} {h : PoolHistory}

/-- The counters agree with the history of the loops. -/
structure PoolCounts (cfg : Config) (s : Server M) (h : PoolHistory) : Prop where
  serving_eq : ∀ w, h.serving w = (s.loops w).isServing
  failed_gone : ∀ w, h.failed w = true → (s.loops w).isGone = true
  ready_eq : s.workers.ready = countBelow cfg.workers h.serving
  failed_eq : s.workers.failed = countBelow cfg.workers h.failed
  expected_eq : s.workers.expected = cfg.workers

namespace PoolCounts

theorem not_serving_of_failed
    (hcounts : PoolCounts cfg s h) {w : Nat} (hfailed : h.failed w = true) :
    h.serving w = false := by
  have hgone := hcounts.failed_gone w hfailed
  rw [hcounts.serving_eq w]
  cases hloop : s.loops w with
  | leaving => rfl
  | returned => rfl
  | _ =>
      rw [hloop] at hgone
      cases hgone

theorem not_failed
    (hcounts : PoolCounts cfg s h) {w : Nat} (hgone : (s.loops w).isGone = false) :
    h.failed w = false := by
  cases hfailed : h.failed w with
  | false =>
      rfl
  | true =>
      rw [hcounts.failed_gone w hfailed] at hgone
      cases hgone

theorem sum_le (hcounts : PoolCounts cfg s h) :
    s.workers.ready + s.workers.failed ≤ cfg.workers := by
  have hdisjoint : ∀ w, h.failed w = true → h.serving w = false :=
    fun _ hfailed => hcounts.not_serving_of_failed hfailed
  have hle := countBelow_add_le (n := cfg.workers) hdisjoint
  rw [hcounts.ready_eq, hcounts.failed_eq]
  omega

/-- A step that makes no call on the pool. -/
theorem keep
    (hcounts : PoolCounts cfg s h) {w : Nat} {before : WorkerLoop M} (loop : WorkerLoop M)
    (hloop : s.loops w = before)
    (hworkers : s'.workers = s.workers)
    (hloops : s'.loops = Function.update s.loops w loop)
    (hserving : loop.isServing = before.isServing)
    (hgone : before.isGone = true → loop.isGone = true) :
    PoolCounts cfg s' h where
  serving_eq := by
    intro v
    rw [hcounts.serving_eq v, hloops]
    by_cases hv : v = w
    · rw [hv, Function.update_self, hserving, hloop]
    · rw [Function.update_of_ne hv]
  failed_gone := by
    intro v hfailed
    have hold := hcounts.failed_gone v hfailed
    rw [hloops]
    by_cases hv : v = w
    · rw [hv] at hold ⊢
      rw [hloop] at hold
      rw [Function.update_self]
      exact hgone hold
    · rw [Function.update_of_ne hv]
      exact hold
  ready_eq := by rw [hworkers, hcounts.ready_eq]
  failed_eq := by rw [hworkers, hcounts.failed_eq]
  expected_eq := by rw [hworkers, hcounts.expected_eq]

/-- A step of a loop that has not failed, with what it does to the ready counter. -/
theorem setServing
    (hcounts : PoolCounts cfg s h) {w : Nat} (loop : WorkerLoop M)
    (hw : w < cfg.workers)
    (hloops : s'.loops = Function.update s.loops w loop)
    (hgone : (s.loops w).isGone = false)
    (hready : s'.workers.ready + (s.loops w).isServing.toNat =
      s.workers.ready + loop.isServing.toNat)
    (hfailed : s'.workers.failed = s.workers.failed)
    (hexpected : s'.workers.expected = s.workers.expected) :
    PoolCounts cfg s' { h with serving := Function.update h.serving w loop.isServing } where
  serving_eq := by
    intro v
    change Function.update h.serving w loop.isServing v = (s'.loops v).isServing
    rw [hloops]
    by_cases hv : v = w
    · rw [hv, Function.update_self, Function.update_self]
    · rw [Function.update_of_ne hv, Function.update_of_ne hv, hcounts.serving_eq v]
  failed_gone := by
    intro v hv
    have hne : v ≠ w := by
      rintro rfl
      rw [hcounts.not_failed hgone] at hv
      cases hv
    rw [hloops, Function.update_of_ne hne]
    exact hcounts.failed_gone v hv
  ready_eq := by
    have hcount := countBelow_change (p := h.serving)
      (q := Function.update h.serving w loop.isServing) hw
      (fun v hv => Function.update_of_ne hv _ _)
    rw [Function.update_self, hcounts.serving_eq w] at hcount
    rw [hcounts.ready_eq] at hready
    change s'.workers.ready = countBelow cfg.workers (Function.update h.serving w loop.isServing)
    omega
  failed_eq := by rw [hfailed, hcounts.failed_eq]
  expected_eq := by rw [hexpected, hcounts.expected_eq]

theorem markReady
    (hcounts : PoolCounts cfg s h) {w : Nat}
    (hcfg : cfg.workers < usizeCount) (hw : w < cfg.workers)
    (hloop : s.loops w = .loaded) :
    PoolCounts cfg { s.setLoop w .receiving with workers := s.workers.markReady }
      { h with serving := Function.update h.serving w true } := by
  have hbefore : (s.loops w).isServing = false := by
    rw [hloop]
    rfl
  have hlt := countBelow_lt hw ((hcounts.serving_eq w).trans hbefore)
  rw [← hcounts.ready_eq] at hlt
  refine hcounts.setServing .receiving hw rfl (by rw [hloop]; rfl) ?_ rfl rfl
  change (s.workers.ready + 1) % usizeCount + _ = _
  rw [Nat.mod_eq_of_lt (by omega), hbefore]
  rfl

/-- `mark_stopped` is called by loops that are counted as ready. -/
theorem ready_pos
    (hcounts : PoolCounts cfg s h) {w : Nat} {restart : Bool}
    (hw : w < cfg.workers) (hloop : s.loops w = .stopping restart) :
    0 < s.workers.ready := by
  have hserving : h.serving w = true := by
    rw [hcounts.serving_eq w, hloop]
    rfl
  rw [hcounts.ready_eq]
  exact countBelow_pos hw hserving

theorem markStopped
    (hcounts : PoolCounts cfg s h) {w : Nat} {restart : Bool}
    (hw : w < cfg.workers) (hloop : s.loops w = .stopping restart) :
    PoolCounts cfg
      { s.setLoop w (if restart then .initializing else .leaving) with
        workers := s.workers.markStopped }
      { h with serving := Function.update h.serving w false } := by
  have hpos := hcounts.ready_pos hw hloop
  have hafter : (if restart then .initializing else .leaving : WorkerLoop M).isServing = false := by
    cases restart <;> rfl
  have hstopped : s.workers.markStopped = { s.workers with ready := s.workers.ready - 1 } :=
    if_neg (by omega)
  rw [← hafter, hstopped]
  refine hcounts.setServing _ hw rfl (by rw [hloop]; rfl) ?_ rfl rfl
  rw [hafter, hloop]
  change s.workers.ready - 1 + 1 = s.workers.ready + 0
  omega

theorem markFailed
    (hcounts : PoolCounts cfg s h) {w : Nat}
    (hcfg : cfg.workers < usizeCount) (hw : w < cfg.workers)
    (hloop : s.loops w = .initializing) :
    PoolCounts cfg { s.setLoop w .leaving with workers := s.workers.markFailed }
      { h with failed := Function.update h.failed w true } := by
  have hbefore : h.failed w = false := hcounts.not_failed (by rw [hloop]; rfl)
  have hlt := countBelow_lt hw hbefore
  have hcount := countBelow_change (p := h.failed) (q := Function.update h.failed w true) hw
    (fun v hv => Function.update_of_ne hv _ _)
  rw [Function.update_self, hbefore] at hcount
  rw [← hcounts.failed_eq] at hlt hcount
  constructor
  · intro v
    by_cases hv : v = w
    · rw [hv]
      exact (hcounts.serving_eq w).trans (by rw [hloop]; simp [Server.setLoop]; rfl)
    · simpa [Server.setLoop, Function.update_of_ne hv] using hcounts.serving_eq v
  · intro v hv
    by_cases hvw : v = w
    · rw [hvw]
      simp [Server.setLoop, WorkerLoop.isGone]
    · simp only [Function.update_of_ne hvw] at hv
      simpa [Server.setLoop, Function.update_of_ne hvw] using hcounts.failed_gone v hv
  · exact hcounts.ready_eq
  · change (s.workers.failed + 1) % usizeCount =
      countBelow cfg.workers (Function.update h.failed w true)
    rw [Nat.mod_eq_of_lt (by omega)]
    simp only [Bool.toNat_true, Bool.toNat_false] at hcount
    omega
  · exact hcounts.expected_eq

/-- What a step of a worker loop does to the counters and to the history. -/
theorem workerStep
    (hcounts : PoolCounts cfg s h) {w : Nat} {action : WorkerAction M}
    (hcfg : cfg.workers < usizeCount) (hw : w < cfg.workers)
    (hcase : Server.WorkerCase cfg s w action s') :
    PoolCounts cfg s' (h.noteWorker w action) := by
  cases hcase with
  | initWorker outcome hloop =>
      cases outcome with
      | ready elapsedMs =>
          exact hcounts.keep .loaded hloop rfl rfl rfl id
      | failed => exact hcounts.markFailed hcfg hw hloop
      | panicked => exact hcounts.markFailed hcfg hw hloop
  | markReady hloop =>
      exact hcounts.markReady hcfg hw hloop
  | recv request rest hloop hqueue =>
      exact hcounts.keep (.received request) hloop rfl rfl rfl id
  | recvClosed hloop hqueue hsenders =>
      exact hcounts.keep (.stopping false) hloop rfl rfl rfl id
  | recordStarted request hloop =>
      exact hcounts.keep (.started request) hloop rfl rfl rfl id
  | markRunning request now hloop =>
      refine hcounts.keep (.inferring request) hloop ?_ ?_ rfl id
      · unfold Server.markRunning
        split <;> rfl
      · unfold Server.markRunning
        split <;> rfl
  | infer request elapsedMs outcome hloop hpossible =>
      exact hcounts.keep _ hloop rfl rfl rfl id
  | count request update updates result restart hloop =>
      exact hcounts.keep _ hloop rfl rfl rfl id
  | publish request result restart now hloop =>
      cases hget : s.jobs.get request.id with
      | some record =>
          rw [Server.publishLoop, hget]
          exact hcounts.keep _ hloop rfl rfl rfl id
      | none =>
          rw [Server.publishLoop, hget]
          exact hcounts.keep _ hloop rfl rfl (WorkerLoop.isServing_afterRequest restart)
            (fun h => absurd h Bool.false_ne_true)
  | append record restart outcome hloop =>
      exact hcounts.keep _ hloop rfl rfl rfl id
  | notify record restart env hloop =>
      exact hcounts.keep _ hloop rfl rfl rfl id
  | cleanup record restart removal hloop =>
      exact hcounts.keep _ hloop rfl rfl rfl id
  | retain restart order hloop =>
      exact hcounts.keep _ hloop rfl rfl (WorkerLoop.isServing_afterRequest restart)
        (fun h => absurd h Bool.false_ne_true)
  | markStopped restart hloop =>
      exact hcounts.markStopped hw hloop
  | leave hloop =>
      exact hcounts.keep _ hloop rfl rfl rfl (fun _ => rfl)

theorem start
    {s₀ : Server M} (hstarted : Started cfg s₀) :
    PoolCounts cfg s₀ PoolHistory.empty := by
  obtain ⟨jobs, disk, effects, reads, used, rfl⟩ := hstarted.exists_start
  constructor
  · exact fun _ => rfl
  · nofun
  · exact (countBelow_eq_zero (fun _ => rfl)).symm
  · exact (countBelow_eq_zero (fun _ => rfl)).symm
  · rfl

theorem step
    {a : Action M}
    (hcfg : cfg.workers < usizeCount)
    (hcounts : PoolCounts cfg s h)
    (hstep : s.step cfg a = some s') :
    PoolCounts cfg s' (PoolHistory.note s a h) := by
  rcases step_worker_or_same hstep with ⟨w, action, rfl, hw, hcase⟩ | ⟨hother, hsame⟩
  · exact hcounts.workerStep hcfg hw hcase
  · have hnote : PoolHistory.note s a h = h := by
      cases a with
      | worker w action => exact absurd rfl (hother w action)
      | _ => rfl
    rw [hnote]
    constructor
    · rw [hsame.loops]
      exact hcounts.serving_eq
    · rw [hsame.loops]
      exact hcounts.failed_gone
    · rw [hsame.workers]
      exact hcounts.ready_eq
    · rw [hsame.workers]
      exact hcounts.failed_eq
    · rw [hsame.workers]
      exact hcounts.expected_eq

theorem run
    {ok : Server M → Action M → Prop} {s₀ : Server M}
    (hcfg : cfg.workers < usizeCount)
    (hstarted : Started cfg s₀)
    (hrun : ObservedRun (Server.step cfg) ok PoolHistory.note (s₀, PoolHistory.empty) (s, h)) :
    PoolCounts cfg s h :=
  hrun.invariant (fun _ _ _ _ _ hstep hcounts => hcounts.step hcfg hstep) (start hstarted)

end PoolCounts

/-- A loop that has failed only leaves. -/
theorem eq_leave_of_gone
    {w : Nat} {action : WorkerAction M}
    (hgone : (s.loops w).isGone = true)
    (hstep : s.step cfg (.worker w action) = some s') :
    action = .leave := by
  simp only [Server.step] at hstep
  split at hstep
  · cases Server.workerStep_cases hstep with
    | leave hloop => rfl
    | _ => simp_all [WorkerLoop.isGone]
  · cases hstep

/--
At every point of a run the ready counter is the number of loops that have
passed `mark_ready` and not yet `mark_stopped`, the failed counter is the number
of loops that have passed `mark_failed`, and both together are at most the
expected number.  A loop that has failed holds no request and only leaves, and
`mark_stopped` never finds the ready counter at zero.
-/
theorem worker_pool_counts_its_loops
    {ok : Server M → Action M → Prop} {s₀ : Server M}
    (hcfg : cfg.workers < usizeCount)
    (hstarted : Started cfg s₀)
    (hrun : ObservedRun (Server.step cfg) ok PoolHistory.note (s₀, PoolHistory.empty) (s, h)) :
    s.workers.ready = countBelow cfg.workers h.serving ∧
    s.workers.failed = countBelow cfg.workers h.failed ∧
    s.workers.expected = cfg.workers ∧
    s.workers.ready + s.workers.failed ≤ s.workers.expected ∧
    (∀ w, h.failed w = true →
      (s.loops w).held = none ∧
      ∀ action s', s.step cfg (.worker w action) = some s' → action = .leave) ∧
    (∀ w s', s.step cfg (.worker w .markStopped) = some s' → 0 < s.workers.ready) := by
  have hcounts := PoolCounts.run hcfg hstarted hrun
  refine ⟨hcounts.ready_eq, hcounts.failed_eq, hcounts.expected_eq, ?_, ?_, ?_⟩
  · rw [hcounts.expected_eq]
    exact hcounts.sum_le
  · intro w hfailed
    have hgone := hcounts.failed_gone w hfailed
    refine ⟨?_, fun action s' hstep => eq_leave_of_gone hgone hstep⟩
    cases hloop : s.loops w with
    | leaving => rfl
    | returned => rfl
    | _ =>
        rw [hloop] at hgone
        cases hgone
  · intro w s' hstep
    simp only [Server.step] at hstep
    split at hstep
    · rename_i hw
      cases Server.workerStep_cases hstep with
      | markStopped restart hloop => exact hcounts.ready_pos hw hloop
    · cases hstep

/-- Three workers: one restarts after a timeout, one fails, one still loads. -/
def restartActions : List (Action String) :=
  enqueueActions (sampleRecord 1 5 none) ++ readyActions 0 ++
    [.worker 1 (.initWorker .panicked), .worker 1 .leave,
      .worker 0 .recv, .worker 0 .recordStarted, .worker 0 (.markRunning 8),
      .worker 0 (.infer 300000 .timedOut), .worker 0 .count, .worker 0 .count,
      .worker 0 .count, .worker 0 .count] ++
    finishActions 0 9 ++ [.worker 0 .markStopped] ++ readyActions 0

def threeWorkers : Config :=
  { Config.default with workers := 3 }

/-- Worker 0 serves and worker 1 has failed. -/
def restartedSample (state : Server String × PoolHistory) : Bool :=
  state.2.serving 0 && (state.2.failed 1 && (!state.2.serving 1 && !state.2.serving 2))

theorem worker_pool_counts_its_loops_sample :
    ∃ (s : Server String) (h : PoolHistory),
      s.workers.ready = countBelow 3 h.serving ∧ s.workers.failed = countBelow 3 h.failed ∧
      h.serving 0 = true ∧ h.failed 1 = true ∧ s.workers.ready + s.workers.failed ≤ 3 := by
  have hexec : (runActions (observed (Server.step threeWorkers) PoolHistory.note)
      (fun _ _ => true) (Server.initial threeWorkers, PoolHistory.empty)
      restartActions).any restartedSample = true := by
    decide +kernel
  obtain ⟨⟨s, h⟩, hrun, htest⟩ :
      ∃ q, ObservedRun (Server.step threeWorkers) (fun _ _ => True) PoolHistory.note
        (Server.initial threeWorkers, PoolHistory.empty) q ∧ restartedSample q = true :=
    exists_observedRun_of_any (fun _ _ _ => trivial) hexec
  simp only [restartedSample, Bool.and_eq_true] at htest
  obtain ⟨hready, hfailed, hexpected, hle, -, -⟩ :=
    worker_pool_counts_its_loops (by decide) (started_initial threeWorkers) hrun
  rw [hexpected] at hle
  exact ⟨s, h, hready, hfailed, htest.1, htest.2.1, hle⟩

end Counters
end FlorenceServer
