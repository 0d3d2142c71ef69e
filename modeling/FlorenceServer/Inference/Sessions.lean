import FlorenceServer.Jobs.WorkerPool

/-!
# Who owns the model sessions

A `FlorenceWorker` holds five ONNX sessions.  `take_for_blocking` moves them into
the task that runs an inference and leaves the worker of the slot empty; the
task gives them back with its result.  The table of slots and tasks is kept
beside the state of the server and follows the steps of the worker loops.

* `sessions_have_one_owner`: whenever a request is about to be processed, its
  slot holds all five sessions, no inference finds a session missing, and no
  session is in two places, also while timed-out tasks are still running.
-/

namespace FlorenceServer

open Runs

variable {M : Type}

section Workers

/-- The five models. -/
inductive ModelSession where
  | visionEncoder
  | embedTokens
  | encoderModel
  | decoderModel
  | decoderModelMerged
deriving DecidableEq, Repr

/-- `FlorenceSessions`: a session is known by the order in which it was loaded,
and one that has been taken is `none`. -/
structure FlorenceSessions where
  visionEncoder : Option Nat
  embedTokens : Option Nat
  encoderModel : Option Nat
  decoderModel : Option Nat
  decoderModelMerged : Option Nat
deriving DecidableEq, Repr

namespace FlorenceSessions

def get (sessions : FlorenceSessions) : ModelSession → Option Nat
  | .visionEncoder => sessions.visionEncoder
  | .embedTokens => sessions.embedTokens
  | .encoderModel => sessions.encoderModel
  | .decoderModel => sessions.decoderModel
  | .decoderModelMerged => sessions.decoderModelMerged

/-- What is left of a worker whose sessions are gone. -/
def empty : FlorenceSessions :=
  ⟨none, none, none, none, none⟩

/-- The sessions of `FlorenceWorker::new`, after so many sessions have been loaded. -/
def load (created : Nat) : FlorenceSessions :=
  ⟨some created, some (created + 1), some (created + 2), some (created + 3), some (created + 4)⟩

/-- `Option::take`: what is moved out, and what is left. -/
def take (session : Option Nat) : Option Nat × Option Nat :=
  (session, none)

/-- `take_for_blocking`: the worker for the task, and the one that stays in the slot. -/
def takeForBlocking (sessions : FlorenceSessions) : FlorenceSessions × FlorenceSessions :=
  let visionEncoder := take sessions.visionEncoder
  let embedTokens := take sessions.embedTokens
  let encoderModel := take sessions.encoderModel
  let decoderModel := take sessions.decoderModel
  let decoderModelMerged := take sessions.decoderModelMerged
  (⟨visionEncoder.1, embedTokens.1, encoderModel.1, decoderModel.1, decoderModelMerged.1⟩,
    ⟨visionEncoder.2, embedTokens.2, encoderModel.2, decoderModel.2, decoderModelMerged.2⟩)

/-- All five sessions are in place. -/
def Full (sessions : FlorenceSessions) : Prop :=
  ∀ model, sessions.get model ≠ none

@[simp] theorem get_empty (model : ModelSession) : empty.get model = none := by
  cases model <;> rfl

theorem takeForBlocking_eq (sessions : FlorenceSessions) :
    sessions.takeForBlocking = (sessions, empty) := rfl

theorem full_load (created : Nat) : (load created).Full := by
  intro model
  cases model <;> nofun

/-- A loaded worker has sessions that no other worker has. -/
theorem get_load
    {created : Nat} {model : ModelSession} {id : Nat}
    (h : (load created).get model = some id) :
    created ≤ id ∧ id < created + 5 := by
  cases model <;> simp only [load, get, Option.some.injEq] at h <;> omega

theorem load_unique
    {created : Nat} {model model' : ModelSession} {id : Nat}
    (h : (load created).get model = some id)
    (h' : (load created).get model' = some id) :
    model = model' := by
  cases model <;> cases model' <;>
    simp only [load, get, Option.some.injEq] at h h' <;> first | rfl | omega

end FlorenceSessions

/-- The name of a session in its error text. -/
def ModelSession.label : ModelSession → String
  | .visionEncoder => "vision encoder"
  | .embedTokens => "embed_tokens"
  | .encoderModel => "encoder_model"
  | .decoderModel => "decoder_model"
  | .decoderModelMerged => "decoder_model_merged"

/--
The sessions that an `infer` call asks for, one after the other: the `run_`
methods fail where a session has been taken.
-/
def requireSessions (workerId : Nat) (sessions : FlorenceSessions) :
    List ModelSession → Except String Unit
  | [] => .ok ()
  | model :: rest =>
      match sessions.get model with
      | some _ => requireSessions workerId sessions rest
      | none =>
          .error ("worker " ++ toString workerId ++ " " ++ model.label ++
            " session is unavailable")

/-- A full worker has every session that an inference asks for. -/
theorem requireSessions_of_full
    {sessions : FlorenceSessions} (hfull : sessions.Full)
    (workerId : Nat) (asked : List ModelSession) :
    requireSessions workerId sessions asked = .ok () := by
  induction asked with
  | nil =>
      rfl
  | cons model rest ih =>
      obtain ⟨id, hid⟩ := Option.ne_none_iff_exists'.mp (hfull model)
      simp only [requireSessions, hid]
      exact ih

end Workers

section Tables

/-- A blocking task of `spawn_inference`. -/
structure BlockingTask where
  worker : Nat
  job : Uuid
  sessions : FlorenceSessions
deriving DecidableEq

/-- The workers in the slots and the blocking tasks. -/
structure SessionTable where
  /-- how many sessions have been loaded -/
  created : Nat
  /-- the `worker` variable of each loop -/
  slot : Nat → FlorenceSessions
  /-- how many tasks have been spawned -/
  spawned : Nat
  /-- the tasks that have not ended, also the ones that nobody waits for -/
  tasks : Nat → Option BlockingTask
  /-- the task whose join handle the loop holds -/
  waiting : Nat → Option Nat

/-- A place for a worker value. -/
inductive Holder where
  | slot (w : Nat)
  | task (n : Nat)
deriving DecidableEq, Repr

namespace SessionTable

def empty : SessionTable where
  created := 0
  slot := fun _ => FlorenceSessions.empty
  spawned := 0
  tasks := fun _ => none
  waiting := fun _ => none

def sessionAt (t : SessionTable) (holder : Holder) (model : ModelSession) : Option Nat :=
  match holder with
  | .slot w => (t.slot w).get model
  | .task n => (t.tasks n).bind (fun task => task.sessions.get model)

/-- `FlorenceWorker::new` fills the slot. -/
def loadWorker (t : SessionTable) (w : Nat) : SessionTable :=
  { t with
    created := t.created + 5
    slot := Function.update t.slot w (FlorenceSessions.load t.created) }

/-- `spawn_inference`. -/
def spawnInference (t : SessionTable) (w : Nat) (job : Uuid) : SessionTable :=
  let worker := (t.slot w).takeForBlocking
  { t with
    slot := Function.update t.slot w worker.2
    spawned := t.spawned + 1
    tasks := Function.update t.tasks t.spawned (some ⟨w, job, worker.1⟩)
    waiting := Function.update t.waiting w (some t.spawned) }

/-- The task returns its worker to the slot. -/
def returnWorker (t : SessionTable) (w n : Nat) (task : BlockingTask) : SessionTable :=
  { t with
    slot := Function.update t.slot w task.sessions
    tasks := Function.update t.tasks n none
    waiting := Function.update t.waiting w none }

/-- The task ends without a result and drops its worker. -/
def dropTask (t : SessionTable) (w n : Nat) : SessionTable :=
  { t with
    tasks := Function.update t.tasks n none
    waiting := Function.update t.waiting w none }

/-- The join handle is dropped and the task goes on. -/
def dropHandle (t : SessionTable) (w : Nat) : SessionTable :=
  { t with waiting := Function.update t.waiting w none }

/-- `wait_for_inference`, and the assignments of `handle_completed_inference`. -/
def endInference (t : SessionTable) (w : Nat) (outcome : InferenceOutcome M) : SessionTable :=
  match t.waiting w with
  | none => t
  | some n =>
      match t.tasks n, outcome with
      | some task, .succeeded _ | some task, .failed _ => t.returnWorker w n task
      | none, .succeeded _ | none, .failed _ => t.dropHandle w
      | _, .panicked _ => t.dropTask w n
      | _, .timedOut => t.dropHandle w

/-- The worker value of the slot is dropped at the end of `worker_loop`'s body. -/
def dropWorker (t : SessionTable) (w : Nat) : SessionTable :=
  { t with slot := Function.update t.slot w FlorenceSessions.empty }

/-- A task of the worker and the job that nobody waits for. -/
def isAbandoned (t : SessionTable) (w : Nat) (job : Uuid) (n : Nat) : Bool :=
  (t.tasks n).any (fun task => task.worker == w && task.job == job) && t.waiting w != some n

theorem isAbandoned_iff
    {t : SessionTable} {w n : Nat} {job : Uuid} :
    t.isAbandoned w job n = true ↔
      (∃ task, t.tasks n = some task ∧ task.worker = w ∧ task.job = job) ∧
        t.waiting w ≠ some n := by
  unfold isAbandoned
  rw [Bool.and_eq_true, Option.any_eq_true_iff_get]
  cases t.tasks n with
  | none => simp
  | some task => simp

theorem isAbandoned_congr
    {t t' : SessionTable} {w n : Nat}
    (htasks : t'.tasks n = t.tasks n)
    (hwaiting : t'.waiting w = some n ↔ t.waiting w = some n) (job : Uuid) :
    t'.isAbandoned w job n = t.isAbandoned w job n := by
  rw [Bool.eq_iff_iff, isAbandoned_iff, isAbandoned_iff, htasks, Ne, Ne, hwaiting]

/-- A task that its worker waits for is not abandoned. -/
theorem isAbandoned_awaited
    {t : SessionTable} {n : Nat} {task : BlockingTask}
    (htask : t.tasks n = some task)
    (hwaiting : t.waiting task.worker = some n) (w : Nat) (job : Uuid) :
    t.isAbandoned w job n = false := by
  rw [Bool.eq_false_iff, Ne, isAbandoned_iff]
  rintro ⟨⟨other, hother, rfl, -⟩, hnot⟩
  rw [htask, Option.some.injEq] at hother
  rw [← hother] at hnot
  exact hnot hwaiting

theorem isAbandoned_ended
    {t : SessionTable} {n : Nat} (htask : t.tasks n = none) (w : Nat) (job : Uuid) :
    t.isAbandoned w job n = false := by
  rw [Bool.eq_false_iff, Ne, isAbandoned_iff, htask]
  rintro ⟨⟨_, hother, -⟩, -⟩
  cases hother

/-- A timed-out task ends, and its result is dropped with its worker. -/
def endAbandoned (t : SessionTable) (w : Nat) (job : Uuid) : SessionTable :=
  match (List.range t.spawned).find? (t.isAbandoned w job) with
  | none => t
  | some n => { t with tasks := Function.update t.tasks n none }

def noteWorker (s : Server M) (t : SessionTable) (w : Nat) : WorkerAction M → SessionTable
  | .initWorker (.ready _) => t.loadWorker w
  | .markRunning _ =>
      match s.loops w with
      | .started request => t.spawnInference w request.id
      | _ => t
  | .infer _ outcome => t.endInference w outcome
  | .markStopped => t.dropWorker w
  | _ => t

def note (s : Server M) (a : Action M) (t : SessionTable) : SessionTable :=
  match a with
  | .worker w action => t.noteWorker s w action
  | .backgroundDone w job => t.endAbandoned w job
  | _ => t

end SessionTable
end Tables

section Separation

/-- No session is in two places. -/
structure Separated (t : SessionTable) : Prop where
  bounded : ∀ holder model id, t.sessionAt holder model = some id → id < t.created
  unique : ∀ holder holder' model model' id,
    t.sessionAt holder model = some id → t.sessionAt holder' model' = some id →
    holder = holder' ∧ model = model'

namespace Separated

variable {t t' : SessionTable}

/-- Sessions are dropped. -/
theorem mono
    (hsep : Separated t)
    (hcreated : t'.created = t.created)
    (hsub : ∀ holder model id,
      t'.sessionAt holder model = some id → t.sessionAt holder model = some id) :
    Separated t' where
  bounded := by
    intro holder model id hid
    rw [hcreated]
    exact hsep.bounded holder model id (hsub holder model id hid)
  unique := by
    intro holder holder' model model' id hid hid'
    exact hsep.unique holder holder' model model' id (hsub _ _ _ hid) (hsub _ _ _ hid')

/-- The sessions of one place are moved to another. -/
theorem transfer
    (hsep : Separated t) (source target : Holder)
    (hcreated : t'.created = t.created)
    (htarget : ∀ model, t'.sessionAt target model = t.sessionAt source model)
    (hsource : ∀ model, t'.sessionAt source model = none)
    (hothers : ∀ holder, holder ≠ target → holder ≠ source →
      ∀ model, t'.sessionAt holder model = t.sessionAt holder model) :
    Separated t' := by
  -- the place where a session was before the move
  have hcame : ∀ holder model id, t'.sessionAt holder model = some id →
      (holder = target ∧ t.sessionAt source model = some id) ∨
      (holder ≠ target ∧ holder ≠ source ∧ t.sessionAt holder model = some id) := by
    intro holder model id hid
    by_cases ht : holder = target
    · rw [ht, htarget] at hid
      exact Or.inl ⟨ht, hid⟩
    · by_cases hs : holder = source
      · rw [hs, hsource] at hid
        cases hid
      · rw [hothers holder ht hs] at hid
        exact Or.inr ⟨ht, hs, hid⟩
  constructor
  · intro holder model id hid
    rw [hcreated]
    rcases hcame holder model id hid with ⟨-, hold⟩ | ⟨-, -, hold⟩
    · exact hsep.bounded _ _ _ hold
    · exact hsep.bounded _ _ _ hold
  · intro holder holder' model model' id hid hid'
    rcases hcame holder model id hid with ⟨ht, hold⟩ | ⟨ht, hs, hold⟩ <;>
      rcases hcame holder' model' id hid' with ⟨ht', hold'⟩ | ⟨ht', hs', hold'⟩
    · exact ⟨ht.trans ht'.symm, (hsep.unique _ _ _ _ _ hold hold').2⟩
    · exact absurd (hsep.unique _ _ _ _ _ hold hold').1.symm hs'
    · exact absurd (hsep.unique _ _ _ _ _ hold hold').1 hs
    · exact hsep.unique _ _ _ _ _ hold hold'

@[simp] theorem sessionAt_slot (t : SessionTable) (w : Nat) (model : ModelSession) :
    t.sessionAt (.slot w) model = (t.slot w).get model := rfl

@[simp] theorem sessionAt_task (t : SessionTable) (n : Nat) (model : ModelSession) :
    t.sessionAt (.task n) model = (t.tasks n).bind (fun task => task.sessions.get model) := rfl

theorem empty : Separated SessionTable.empty := by
  have hnone : ∀ holder model, SessionTable.empty.sessionAt holder model = none := by
    intro holder model
    cases holder with
    | slot w => exact FlorenceSessions.get_empty model
    | task n => rfl
  constructor
  · intro holder model id hid
    rw [hnone] at hid
    cases hid
  · intro holder holder' model model' id hid
    rw [hnone] at hid
    cases hid

/-- A loaded worker gets sessions that no other place has. -/
theorem loadWorker (hsep : Separated t) (w : Nat) :
    Separated (t.loadWorker w) := by
  have hcame : ∀ holder model id, (t.loadWorker w).sessionAt holder model = some id →
      (holder = .slot w ∧ (FlorenceSessions.load t.created).get model = some id) ∨
      t.sessionAt holder model = some id := by
    intro holder model id hid
    cases holder with
    | slot v =>
        by_cases hv : v = w
        · subst hv
          simp only [sessionAt_slot, SessionTable.loadWorker, Function.update_self] at hid
          exact Or.inl ⟨rfl, hid⟩
        · simp only [sessionAt_slot, SessionTable.loadWorker, Function.update_of_ne hv] at hid
          exact Or.inr hid
    | task n => exact Or.inr hid
  constructor
  · intro holder model id hid
    change id < t.created + 5
    rcases hcame holder model id hid with ⟨-, hnew⟩ | hold
    · exact (FlorenceSessions.get_load hnew).2
    · have hlt := hsep.bounded _ _ _ hold
      omega
  · intro holder holder' model model' id hid hid'
    rcases hcame holder model id hid with ⟨hh, hnew⟩ | hold <;>
      rcases hcame holder' model' id hid' with ⟨hh', hnew'⟩ | hold'
    · exact ⟨hh.trans hh'.symm, FlorenceSessions.load_unique hnew hnew'⟩
    · have hge := (FlorenceSessions.get_load hnew).1
      have hlt := hsep.bounded _ _ _ hold'
      omega
    · have hge := (FlorenceSessions.get_load hnew').1
      have hlt := hsep.bounded _ _ _ hold
      omega
    · exact hsep.unique _ _ _ _ _ hold hold'

theorem spawnInference
    (hsep : Separated t) (w : Nat) (job : Uuid) :
    Separated (t.spawnInference w job) := by
  refine hsep.transfer (.slot w) (.task t.spawned) rfl ?_ ?_ ?_
  · intro model
    simp [SessionTable.spawnInference, FlorenceSessions.takeForBlocking_eq]
  · intro model
    simp [SessionTable.spawnInference, FlorenceSessions.takeForBlocking_eq]
  · intro holder htask hslot model
    cases holder with
    | slot v =>
        have hv : v ≠ w := fun hv => hslot (congrArg Holder.slot hv)
        simp [SessionTable.spawnInference, Function.update_of_ne hv]
    | task n =>
        have hn : n ≠ t.spawned := fun hn => htask (congrArg Holder.task hn)
        simp [SessionTable.spawnInference, Function.update_of_ne hn]

theorem returnWorker
    (hsep : Separated t) (w : Nat) {n : Nat} {task : BlockingTask}
    (htask : t.tasks n = some task) :
    Separated (t.returnWorker w n task) := by
  refine hsep.transfer (.task n) (.slot w) rfl ?_ ?_ ?_
  · intro model
    simp [SessionTable.returnWorker, htask]
  · intro model
    simp [SessionTable.returnWorker]
  · intro holder hslot htask model
    cases holder with
    | slot v =>
        have hv : v ≠ w := fun hv => hslot (congrArg Holder.slot hv)
        simp [SessionTable.returnWorker, Function.update_of_ne hv]
    | task m =>
        have hm : m ≠ n := fun hm => htask (congrArg Holder.task hm)
        simp [SessionTable.returnWorker, Function.update_of_ne hm]

/-- A task ends and drops its worker. -/
theorem dropTask
    (hsep : Separated t) (n : Nat)
    (hcreated : t'.created = t.created)
    (hslot : t'.slot = t.slot)
    (htasks : t'.tasks = Function.update t.tasks n none) :
    Separated t' := by
  refine hsep.mono hcreated ?_
  intro holder model id hid
  cases holder with
  | slot v =>
      rw [sessionAt_slot, hslot] at hid
      exact hid
  | task m =>
      rw [sessionAt_task, htasks] at hid
      by_cases hm : m = n
      · rw [hm, Function.update_self] at hid
        cases hid
      · rw [Function.update_of_ne hm] at hid
        exact hid

theorem dropWorker (hsep : Separated t) (w : Nat) :
    Separated (t.dropWorker w) := by
  refine hsep.mono rfl ?_
  intro holder model id hid
  cases holder with
  | slot v =>
      by_cases hv : v = w
      · subst hv
        simp [SessionTable.dropWorker] at hid
      · simpa [SessionTable.dropWorker, Function.update_of_ne hv] using hid
  | task m => exact hid

end Separated
end Separation

section Ownership

/-- The slot of the loop holds a worker with all its sessions. -/
def WorkerLoop.holdsSessions : WorkerLoop M → Bool
  | .loaded | .receiving | .received _ | .started _ => true
  | .finishing _ _ _ restart | .appending _ restart | .notifying _ restart
  | .cleaning _ restart | .retaining restart => !restart
  | .initializing | .inferring _ | .stopping _ | .leaving | .returned => false

@[simp] theorem WorkerLoop.holdsSessions_afterRequest (restart : Bool) :
    (WorkerLoop.afterRequest restart : WorkerLoop M).holdsSessions = !restart := by
  cases restart <;> rfl

/-- The loop waits for a blocking task. -/
def WorkerLoop.isInferring : WorkerLoop M → Bool
  | .inferring _ => true
  | _ => false

theorem WorkerLoop.ne_inferring
    {loop : WorkerLoop M} (h : loop.isInferring = false) (request : JobRequest) :
    loop ≠ .inferring request := by
  rintro rfl
  cases h

@[simp] theorem WorkerLoop.isInferring_afterRequest (restart : Bool) :
    (WorkerLoop.afterRequest restart : WorkerLoop M).isInferring = false := by
  cases restart <;> rfl

variable {cfg : Config} {s s' : Server M} {t t' : SessionTable}

/-- Inference tasks go to the background and end there by two kinds of steps. -/
theorem step_background
    {a : Action M}
    (hstep : s.step cfg a = some s')
    (hworker : ∀ w action, a ≠ .worker w action)
    (hdone : ∀ w job, a ≠ .backgroundDone w job) :
    s'.background = s.background := by
  cases a with
  | worker w action => exact absurd rfl (hworker w action)
  | backgroundDone w job => exact absurd rfl (hdone w job)
  | submit record =>
      simp only [Server.step, Server.submit] at hstep
      split at hstep <;> cases hstep
      rfl
  | read id =>
      cases hstep
      rfl
  | shutdown =>
      simp only [Server.step] at hstep
      split at hstep <;> cases hstep
      rfl
  | call id action =>
      cases Server.callStep_cases hstep with
      | check record hcall =>
          unfold Server.checkCall
          split
          · rfl
          · split <;> rfl
      | append sub outcome hcall =>
          unfold Server.appendCall
          split <;> rfl
      | send sub hcall =>
          unfold Server.sendCall
          split <;> rfl
      | drop sub pc now written hcall hpc =>
          cases pc <;> rfl
      | _ => rfl

/-- What holds of the slots and the tasks at every point of a run. -/
structure SessionsOk (s : Server M) (t : SessionTable) : Prop where
  slot_full : ∀ w, (s.loops w).holdsSessions = true → (t.slot w).Full
  waits : ∀ w n, t.waiting w = some n →
    ∃ task request, t.tasks n = some task ∧ task.worker = w ∧
      s.loops w = .inferring request ∧ task.job = request.id
  inferring : ∀ w request, s.loops w = .inferring request → ∃ n, t.waiting w = some n
  tasks_full : ∀ n task, t.tasks n = some task → n < t.spawned ∧ task.sessions.Full
  separated : Separated t
  background_eq : ∀ w job,
    s.background.count (w, job) = countBelow t.spawned (t.isAbandoned w job)

namespace SessionsOk

/-- The loop of the worker does not wait for a task. -/
theorem waiting_eq_none
    (hok : SessionsOk s t) {w : Nat}
    (hloop : (s.loops w).isInferring = false) :
    t.waiting w = none := by
  cases hwaiting : t.waiting w with
  | none =>
      rfl
  | some n =>
      obtain ⟨task, request, -, -, hinferring, -⟩ := hok.waits w n hwaiting
      exact absurd hinferring (WorkerLoop.ne_inferring hloop request)

/-- A step of one worker keeps what holds of the others. -/
theorem ofWorker
    (hok : SessionsOk s t) {w : Nat} (loop : WorkerLoop M)
    (hloops : s'.loops = Function.update s.loops w loop)
    (hslots : ∀ v, v ≠ w → t'.slot v = t.slot v)
    (hwaiting : ∀ v, v ≠ w → t'.waiting v = t.waiting v)
    (htasks : ∀ v n, v ≠ w → t.waiting v = some n → t'.tasks n = t.tasks n)
    (hslot : loop.holdsSessions = true → (t'.slot w).Full)
    (hwaits : ∀ n, t'.waiting w = some n →
      ∃ task request, t'.tasks n = some task ∧ task.worker = w ∧
        loop = .inferring request ∧ task.job = request.id)
    (hinferring : ∀ request, loop = .inferring request → ∃ n, t'.waiting w = some n)
    (hfull : ∀ n task, t'.tasks n = some task → n < t'.spawned ∧ task.sessions.Full)
    (hseparated : Separated t')
    (hbackground : ∀ v job,
      s'.background.count (v, job) = countBelow t'.spawned (t'.isAbandoned v job)) :
    SessionsOk s' t' where
  slot_full := by
    intro v hv
    rw [hloops] at hv
    by_cases hvw : v = w
    · rw [hvw, Function.update_self] at hv
      rw [hvw]
      exact hslot hv
    · rw [Function.update_of_ne hvw] at hv
      rw [hslots v hvw]
      exact hok.slot_full v hv
  waits := by
    intro v n hn
    rw [hloops]
    by_cases hvw : v = w
    · rw [hvw] at hn ⊢
      rw [Function.update_self]
      exact hwaits n hn
    · rw [hwaiting v hvw] at hn
      rw [Function.update_of_ne hvw, htasks v n hvw hn]
      exact hok.waits v n hn
  inferring := by
    intro v request hv
    rw [hloops] at hv
    by_cases hvw : v = w
    · rw [hvw, Function.update_self] at hv
      rw [hvw]
      exact hinferring request hv
    · rw [Function.update_of_ne hvw] at hv
      rw [hwaiting v hvw]
      exact hok.inferring v request hv
  tasks_full := hfull
  separated := hseparated
  background_eq := hbackground

/-- A task that is waited for belongs to the worker that waits. -/
theorem worker_of_waiting
    (hok : SessionsOk s t) {w n : Nat} {task : BlockingTask}
    (hn : t.waiting w = some n)
    (htask : t.tasks n = some task) :
    task.worker = w := by
  obtain ⟨waited, request, hwaited, hworker, -⟩ := hok.waits w n hn
  rw [htask, Option.some.injEq] at hwaited
  exact hwaited ▸ hworker

/-- A step that moves no worker value. -/
theorem keep
    (hok : SessionsOk s t) {w : Nat} {before : WorkerLoop M} (loop : WorkerLoop M)
    (hloop : s.loops w = before)
    (hloops : s'.loops = Function.update s.loops w loop)
    (hbackground : s'.background = s.background)
    (hholds : loop.holdsSessions = true → before.holdsSessions = true)
    (hbefore : before.isInferring = false)
    (hafter : loop.isInferring = false) :
    SessionsOk s' t := by
  subst hloop
  refine hok.ofWorker loop hloops (fun _ _ => rfl) (fun _ _ => rfl) (fun _ _ _ _ => rfl)
    (fun h => hok.slot_full w (hholds h)) ?_ ?_ hok.tasks_full hok.separated ?_
  · intro n hn
    rw [hok.waiting_eq_none hbefore] at hn
    cases hn
  · intro request hrequest
    exact absurd hrequest (WorkerLoop.ne_inferring hafter request)
  · rw [hbackground]
    exact hok.background_eq

theorem loadWorker
    (hok : SessionsOk s t) {w : Nat}
    (hloop : s.loops w = .initializing)
    (hloops : s'.loops = Function.update s.loops w .loaded)
    (hbackground : s'.background = s.background) :
    SessionsOk s' (t.loadWorker w) := by
  refine hok.ofWorker .loaded hloops ?_ (fun _ _ => rfl) (fun _ _ _ _ => rfl) ?_ ?_ nofun
    hok.tasks_full (hok.separated.loadWorker w) ?_
  · intro v hv
    exact Function.update_of_ne hv _ _
  · intro _
    simpa [SessionTable.loadWorker] using FlorenceSessions.full_load t.created
  · intro n hn
    change t.waiting w = some n at hn
    rw [hok.waiting_eq_none (by rw [hloop]; rfl)] at hn
    cases hn
  · rw [hbackground]
    exact hok.background_eq

theorem dropWorker
    (hok : SessionsOk s t) {w : Nat} {loop : WorkerLoop M}
    (hloops : s'.loops = Function.update s.loops w loop)
    (hbackground : s'.background = s.background)
    (hholds : loop.holdsSessions = false)
    (hbefore : (s.loops w).isInferring = false)
    (hafter : loop.isInferring = false) :
    SessionsOk s' (t.dropWorker w) := by
  refine hok.ofWorker loop hloops ?_ (fun _ _ => rfl) (fun _ _ _ _ => rfl) ?_ ?_ ?_
    hok.tasks_full (hok.separated.dropWorker w) ?_
  · intro v hv
    exact Function.update_of_ne hv _ _
  · intro h
    rw [hholds] at h
    cases h
  · intro n hn
    change t.waiting w = some n at hn
    rw [hok.waiting_eq_none hbefore] at hn
    cases hn
  · intro request hrequest
    exact absurd hrequest (WorkerLoop.ne_inferring hafter request)
  · rw [hbackground]
    exact hok.background_eq

/-- The spawned task is waited for. -/
theorem isAbandoned_spawned
    {w : Nat} {job : Uuid}
    (hwaiting : t.waiting w = none) (v : Nat) (other : Uuid) :
    countBelow (t.spawned + 1) ((t.spawnInference w job).isAbandoned v other) =
      countBelow t.spawned (t.isAbandoned v other) := by
  have hnew : (t.spawnInference w job).isAbandoned v other t.spawned = false :=
    SessionTable.isAbandoned_awaited (Function.update_self _ _ _)
      (Function.update_self _ _ _) v other
  rw [countBelow_succ, hnew]
  refine countBelow_congr (fun n hn => ?_)
  have hne : n ≠ t.spawned := by omega
  refine SessionTable.isAbandoned_congr (Function.update_of_ne hne _ _) ?_ other
  change Function.update t.waiting w (some t.spawned) v = some n ↔ _
  by_cases hv : v = w
  · rw [hv, Function.update_self, hwaiting, Option.some.injEq]
    exact ⟨fun h => absurd h.symm hne, nofun⟩
  · rw [Function.update_of_ne hv]

theorem spawnInference
    (hok : SessionsOk s t) {w : Nat} {request : JobRequest}
    (hloop : s.loops w = .started request)
    (hloops : s'.loops = Function.update s.loops w (.inferring request))
    (hbackground : s'.background = s.background) :
    SessionsOk s' (t.spawnInference w request.id) := by
  have hfull : (t.slot w).Full := hok.slot_full w (by rw [hloop]; rfl)
  have hwaiting := hok.waiting_eq_none (w := w) (by rw [hloop]; rfl)
  have hlt : ∀ n task, t.tasks n = some task → n < t.spawned :=
    fun n task htask => (hok.tasks_full n task htask).1
  refine hok.ofWorker (.inferring request) hloops ?_ ?_ ?_ nofun ?_ ?_ ?_
    (hok.separated.spawnInference w request.id) ?_
  · intro v hv
    exact Function.update_of_ne hv _ _
  · intro v hv
    exact Function.update_of_ne hv _ _
  · intro v n hv hn
    obtain ⟨task, -, htask, -⟩ := hok.waits v n hn
    exact Function.update_of_ne (Nat.ne_of_lt (hlt n task htask)) _ _
  · intro n hn
    simp only [SessionTable.spawnInference, Function.update_self, Option.some.injEq] at hn
    subst hn
    exact ⟨⟨w, request.id, t.slot w⟩, request, Function.update_self _ _ _, rfl, rfl, rfl⟩
  · intro _ _
    exact ⟨t.spawned, Function.update_self _ _ _⟩
  · intro n task htask
    change n < t.spawned + 1 ∧ _
    by_cases hn : n = t.spawned
    · subst hn
      simp only [SessionTable.spawnInference, Function.update_self, Option.some.injEq] at htask
      subst htask
      exact ⟨Nat.lt_succ_self _, hfull⟩
    · simp only [SessionTable.spawnInference, Function.update_of_ne hn] at htask
      obtain ⟨hbound, htaskFull⟩ := hok.tasks_full n task htask
      exact ⟨Nat.lt_succ_of_lt hbound, htaskFull⟩
  · intro v job
    rw [hbackground, hok.background_eq v job]
    exact (isAbandoned_spawned hwaiting v job).symm

theorem waiting_update_none
    {w n m v : Nat} (hn : t.waiting w = some n) (hm : m ≠ n) :
    Function.update t.waiting w none v = some m ↔ t.waiting v = some m := by
  by_cases hv : v = w
  · rw [hv, Function.update_self, hn, Option.some.injEq]
    exact ⟨nofun, fun h => absurd h.symm hm⟩
  · rw [Function.update_of_ne hv]

/-- The awaited task of the worker has ended. -/
theorem taskEnded
    (hok : SessionsOk s t) {w n : Nat} {task : BlockingTask} {loop : WorkerLoop M}
    (hn : t.waiting w = some n)
    (htask : t.tasks n = some task)
    (hworker : task.worker = w)
    (hloops : s'.loops = Function.update s.loops w loop)
    (hbackground : s'.background = s.background)
    (hafter : ∀ request, loop ≠ .inferring request)
    (hslots : ∀ v, v ≠ w → t'.slot v = t.slot v)
    (hslot : loop.holdsSessions = true → (t'.slot w).Full)
    (hspawned : t'.spawned = t.spawned)
    (htasks : t'.tasks = Function.update t.tasks n none)
    (hwaiting : t'.waiting = Function.update t.waiting w none)
    (hseparated : Separated t') :
    SessionsOk s' t' := by
  refine hok.ofWorker loop hloops hslots ?_ ?_ hslot ?_ ?_ ?_ hseparated ?_
  · intro v hv
    rw [hwaiting]
    exact Function.update_of_ne hv _ _
  · intro v m hv hm
    have hne : m ≠ n := by
      rintro rfl
      exact hv ((hok.worker_of_waiting hm htask).symm.trans hworker)
    rw [htasks]
    exact Function.update_of_ne hne _ _
  · intro m hm
    rw [hwaiting, Function.update_self] at hm
    cases hm
  · intro request hrequest
    exact absurd hrequest (hafter request)
  · intro m other hother
    rw [htasks] at hother
    rw [hspawned]
    by_cases hm : m = n
    · rw [hm, Function.update_self] at hother
      cases hother
    · rw [Function.update_of_ne hm] at hother
      exact hok.tasks_full m other hother
  · intro v job
    rw [hbackground, hok.background_eq v job, hspawned]
    refine (countBelow_congr (fun m _ => ?_)).symm
    by_cases hm : m = n
    · -- the task that ended was not an abandoned one
      rw [hm, SessionTable.isAbandoned_awaited htask (by rw [hworker]; exact hn),
        SessionTable.isAbandoned_ended (by rw [htasks]; exact Function.update_self _ _ _)]
    · refine SessionTable.isAbandoned_congr ?_ ?_ job
      · rw [htasks]
        exact Function.update_of_ne hm _ _
      · rw [hwaiting]
        exact waiting_update_none hn hm

/-- The worker stops waiting for its task, which goes on. -/
theorem dropHandle
    (hok : SessionsOk s t) {w n : Nat} {task : BlockingTask} {loop : WorkerLoop M}
    (hn : t.waiting w = some n)
    (htask : t.tasks n = some task)
    (hworker : task.worker = w)
    (hloops : s'.loops = Function.update s.loops w loop)
    (hbackground : s'.background = s.background ++ [(w, task.job)])
    (hafter : ∀ request, loop ≠ .inferring request)
    (hholds : loop.holdsSessions = false) :
    SessionsOk s' (t.dropHandle w) := by
  refine hok.ofWorker loop hloops (fun _ _ => rfl) ?_ (fun _ _ _ _ => rfl) ?_ ?_ ?_
    hok.tasks_full ?_ ?_
  · intro v hv
    exact Function.update_of_ne hv _ _
  · intro h
    rw [hholds] at h
    cases h
  · intro m hm
    simp [SessionTable.dropHandle] at hm
  · intro request hrequest
    exact absurd hrequest (hafter request)
  · exact hok.separated.mono rfl (fun _ _ _ hid => hid)
  · intro v job
    have hlt := (hok.tasks_full n task htask).1
    have hothers : ∀ m, m ≠ n →
        (t.dropHandle w).isAbandoned v job m = t.isAbandoned v job m := by
      intro m hm
      refine SessionTable.isAbandoned_congr ?_ ?_ job
      · rfl
      · exact waiting_update_none hn hm
    have hcount := countBelow_change (p := t.isAbandoned v job)
      (q := (t.dropHandle w).isAbandoned v job) hlt hothers
    have hbefore : t.isAbandoned v job n = false :=
      SessionTable.isAbandoned_awaited htask (by rw [hworker]; exact hn) v job
    have hnow : (t.dropHandle w).isAbandoned v job n = ((w, task.job) == (v, job)) := by
      rw [Bool.eq_iff_iff, SessionTable.isAbandoned_iff, beq_iff_eq, Prod.mk.injEq]
      constructor
      · rintro ⟨⟨other, hother, hv, hjob⟩, -⟩
        change t.tasks n = some other at hother
        rw [htask, Option.some.injEq] at hother
        rw [← hother] at hv hjob
        exact ⟨hworker.symm.trans hv, hjob⟩
      · rintro ⟨rfl, rfl⟩
        refine ⟨⟨task, htask, hworker, rfl⟩, ?_⟩
        simp [SessionTable.dropHandle]
    rw [hbefore, hnow] at hcount
    rw [hbackground, List.count_append, hok.background_eq v job, List.count_singleton]
    change _ = countBelow t.spawned _
    cases hpair : ((w, task.job) == (v, job)) with
    | true =>
        rw [hpair] at hcount
        exact hcount.symm
    | false =>
        rw [hpair] at hcount
        exact hcount.symm

/-- A timed-out task ends. -/
theorem endAbandoned
    (hok : SessionsOk s t) {w : Nat} {job : Uuid}
    (hmem : (w, job) ∈ s.background) :
    SessionsOk { s with background := s.background.erase (w, job) } (t.endAbandoned w job) := by
  have hcount := hok.background_eq w job
  have hpos := List.count_pos_iff.mpr hmem
  obtain ⟨n, hfind⟩ : ∃ n, (List.range t.spawned).find? (t.isAbandoned w job) = some n := by
    obtain ⟨n, hn, habandoned⟩ := exists_of_countBelow_pos (hcount ▸ hpos)
    rw [← Option.isSome_iff_exists, List.find?_isSome]
    exact ⟨n, List.mem_range.mpr hn, habandoned⟩
  have hn : n < t.spawned := List.mem_range.mp (List.mem_of_find?_eq_some hfind)
  have habandoned := List.find?_some hfind
  obtain ⟨⟨task, htask, hworker, hjob⟩, hnot⟩ := SessionTable.isAbandoned_iff.mp habandoned
  have hended : t.endAbandoned w job =
      { t with tasks := Function.update t.tasks n none } := by
    rw [SessionTable.endAbandoned, hfind]
  rw [hended]
  constructor
  · exact hok.slot_full
  · intro v m hm
    obtain ⟨other, request, hother, hv, hrest⟩ := hok.waits v m hm
    have hne : m ≠ n := by
      rintro rfl
      rw [← hok.worker_of_waiting hm htask, hworker] at hm
      exact hnot hm
    exact ⟨other, request, (Function.update_of_ne hne _ _).trans hother, hv, hrest⟩
  · exact hok.inferring
  · intro m other hother
    by_cases hm : m = n
    · subst hm
      simp at hother
    · simp only [Function.update_of_ne hm] at hother
      exact hok.tasks_full m other hother
  · exact hok.separated.dropTask n rfl rfl rfl
  · intro v other
    have hchange := countBelow_change (p := t.isAbandoned v other)
      (q := SessionTable.isAbandoned { t with tasks := Function.update t.tasks n none } v other)
      hn (fun m hm => by
        refine SessionTable.isAbandoned_congr ?_ ?_ other
        · exact Function.update_of_ne hm _ _
        · exact Iff.rfl)
    have hafter := SessionTable.isAbandoned_ended
      (Function.update_self n none t.tasks :
        SessionTable.tasks { t with tasks := Function.update t.tasks n none } n = none) v other
    rw [hafter, ← hok.background_eq v other] at hchange
    change (s.background.erase (w, job)).count (v, other) = countBelow t.spawned _
    by_cases hpair : (v, other) = (w, job)
    · cases hpair
      rw [habandoned] at hchange
      rw [List.count_erase_self]
      simp only [Bool.toNat_true, Bool.toNat_false] at hchange
      omega
    · have hbefore : t.isAbandoned v other n = false := by
        rw [Bool.eq_false_iff, Ne, SessionTable.isAbandoned_iff]
        rintro ⟨⟨same, hsame, rfl, rfl⟩, -⟩
        rw [htask, Option.some.injEq] at hsame
        rw [← hsame, hworker, hjob] at hpair
        exact hpair rfl
      rw [hbefore] at hchange
      rw [List.count_erase_of_ne hpair]
      exact hchange.symm

/-- `wait_for_inference` and the assignments behind it. -/
theorem endInference
    (hok : SessionsOk s t) {w : Nat} {request : JobRequest} {elapsedMs : Nat}
    (outcome : InferenceOutcome M)
    (hloop : s.loops w = .inferring request) :
    SessionsOk (s.inferLoop cfg w request elapsedMs outcome) (t.endInference w outcome) := by
  obtain ⟨n, hn⟩ := hok.inferring w request hloop
  obtain ⟨task, asked, htask, hworker, hasked, hjob⟩ := hok.waits w n hn
  rw [hloop, WorkerLoop.inferring.injEq] at hasked
  rw [← hasked] at hjob
  have hfull := (hok.tasks_full n task htask).2
  cases outcome with
  | succeeded metadata =>
      have hended : t.endInference w (.succeeded metadata) = t.returnWorker w n task := by
        simp only [SessionTable.endInference, hn, htask]
      rw [hended]
      refine hok.taskEnded hn htask hworker rfl rfl nofun ?_ ?_ rfl rfl rfl
        (hok.separated.returnWorker w htask)
      · exact fun v hv => Function.update_of_ne hv _ _
      · intro _
        simpa [SessionTable.returnWorker] using hfull
  | failed err =>
      have hended : t.endInference w (.failed err : InferenceOutcome M) =
          t.returnWorker w n task := by
        simp only [SessionTable.endInference, hn, htask]
      rw [hended]
      refine hok.taskEnded hn htask hworker rfl rfl nofun ?_ ?_ rfl rfl rfl
        (hok.separated.returnWorker w htask)
      · exact fun v hv => Function.update_of_ne hv _ _
      · intro _
        simpa [SessionTable.returnWorker] using hfull
  | panicked err =>
      have hended : t.endInference w (.panicked err : InferenceOutcome M) = t.dropTask w n := by
        simp only [SessionTable.endInference, hn]
      rw [hended]
      exact hok.taskEnded hn htask hworker rfl rfl nofun (fun _ _ => rfl) nofun rfl rfl rfl
        (hok.separated.dropTask n rfl rfl rfl)
  | timedOut =>
      have hended : t.endInference w (.timedOut : InferenceOutcome M) = t.dropHandle w := by
        simp only [SessionTable.endInference, hn]
      rw [hended]
      refine hok.dropHandle hn htask hworker rfl ?_ nofun rfl
      rw [hjob]
      rfl

/-- What a step of a worker loop does to the slots and the tasks. -/
theorem workerStep
    (hok : SessionsOk s t) {w : Nat} {action : WorkerAction M}
    (hcase : Server.WorkerCase cfg s w action s') :
    SessionsOk s' (t.noteWorker s w action) := by
  cases hcase with
  | initWorker outcome hloop =>
      cases outcome with
      | ready elapsedMs => exact hok.loadWorker hloop rfl rfl
      | failed =>
          exact hok.keep .leaving hloop rfl rfl (fun h => absurd h Bool.false_ne_true) rfl rfl
      | panicked =>
          exact hok.keep .leaving hloop rfl rfl (fun h => absurd h Bool.false_ne_true) rfl rfl
  | markReady hloop =>
      exact hok.keep .receiving hloop rfl rfl (fun _ => rfl) rfl rfl
  | recv request rest hloop hqueue =>
      exact hok.keep (.received request) hloop rfl rfl (fun _ => rfl) rfl rfl
  | recvClosed hloop hqueue hsenders =>
      exact hok.keep (.stopping false) hloop rfl rfl (fun h => absurd h Bool.false_ne_true) rfl rfl
  | recordStarted request hloop =>
      exact hok.keep (.started request) hloop rfl rfl (fun _ => rfl) rfl rfl
  | markRunning request now hloop =>
      have hnote : t.noteWorker s w (.markRunning now) = t.spawnInference w request.id := by
        simp only [SessionTable.noteWorker, hloop]
      rw [hnote]
      refine hok.spawnInference hloop ?_ ?_
      · unfold Server.markRunning
        split <;> rfl
      · unfold Server.markRunning
        split <;> rfl
  | infer request elapsedMs outcome hloop hpossible =>
      exact hok.endInference outcome hloop
  | count request update updates result restart hloop =>
      exact hok.keep _ hloop rfl rfl id rfl rfl
  | publish request result restart now hloop =>
      cases hget : s.jobs.get request.id with
      | some record =>
          rw [Server.publishLoop, hget]
          exact hok.keep _ hloop rfl rfl id rfl rfl
      | none =>
          rw [Server.publishLoop, hget]
          exact hok.keep _ hloop rfl rfl
            (fun h => by rw [WorkerLoop.holdsSessions_afterRequest] at h; exact h)
            rfl (WorkerLoop.isInferring_afterRequest restart)
  | append record restart outcome hloop =>
      exact hok.keep _ hloop rfl rfl id rfl rfl
  | notify record restart env hloop =>
      exact hok.keep _ hloop rfl rfl id rfl rfl
  | cleanup record restart removal hloop =>
      exact hok.keep _ hloop rfl rfl id rfl rfl
  | retain restart order hloop =>
      exact hok.keep _ hloop rfl rfl
        (fun h => by rw [WorkerLoop.holdsSessions_afterRequest] at h; exact h)
        rfl (WorkerLoop.isInferring_afterRequest restart)
  | markStopped restart hloop =>
      refine hok.dropWorker rfl rfl ?_ (by rw [hloop]; rfl) ?_
      · cases restart <;> rfl
      · cases restart <;> rfl
  | leave hloop =>
      exact hok.keep .returned hloop rfl rfl (fun h => absurd h Bool.false_ne_true) rfl rfl

theorem start
    {s₀ : Server M} (hstarted : Started cfg s₀) :
    SessionsOk s₀ SessionTable.empty := by
  obtain ⟨jobs, disk, effects, reads, used, rfl⟩ := hstarted.exists_start
  constructor
  · nofun
  · nofun
  · nofun
  · nofun
  · exact Separated.empty
  · intro w job
    exact (countBelow_eq_zero (fun n => SessionTable.isAbandoned_ended rfl w job)).symm

theorem step
    {a : Action M}
    (hok : SessionsOk s t)
    (hstep : s.step cfg a = some s') :
    SessionsOk s' (SessionTable.note s a t) := by
  rcases step_worker_or_same hstep with ⟨w, action, rfl, -, hcase⟩ | ⟨hother, hsame⟩
  · exact hok.workerStep hcase
  · by_cases hexists : ∃ w job, a = .backgroundDone w job
    · obtain ⟨w, job, rfl⟩ := hexists
      simp only [Server.step] at hstep
      split at hstep
      · rename_i hmem
        cases hstep
        exact hok.endAbandoned hmem
      · cases hstep
    · have hdone : ∀ w job, a ≠ .backgroundDone w job :=
        fun w job h => hexists ⟨w, job, h⟩
      have hnote : SessionTable.note s a t = t := by
        cases a with
        | worker w action => exact absurd rfl (hother w action)
        | backgroundDone w job => exact absurd rfl (hdone w job)
        | _ => rfl
      have hbackground := step_background hstep hother hdone
      rw [hnote]
      constructor
      · rw [hsame.loops]
        exact hok.slot_full
      · rw [hsame.loops]
        exact hok.waits
      · rw [hsame.loops]
        exact hok.inferring
      · exact hok.tasks_full
      · exact hok.separated
      · rw [hbackground]
        exact hok.background_eq

theorem run
    {ok : Server M → Action M → Prop} {s₀ : Server M}
    (hstarted : Started cfg s₀)
    (hrun : ObservedRun (Server.step cfg) ok SessionTable.note
      (s₀, SessionTable.empty) (s, t)) :
    SessionsOk s t :=
  hrun.invariant (fun _ _ _ _ _ hstep hok => hok.step hstep) (start hstarted)

/-- A timed-out inference that has not ended is a task that nobody waits for. -/
theorem exists_abandoned
    (hok : SessionsOk s t) {w : Nat} {job : Uuid}
    (hmem : (w, job) ∈ s.background) :
    ∃ n task, t.tasks n = some task ∧ task.worker = w ∧ task.job = job ∧
      t.waiting w ≠ some n := by
  have hpos := List.count_pos_iff.mpr hmem
  rw [hok.background_eq w job] at hpos
  obtain ⟨n, -, habandoned⟩ := exists_of_countBelow_pos hpos
  obtain ⟨⟨task, htask, hworker, hjob⟩, hnot⟩ := SessionTable.isAbandoned_iff.mp habandoned
  exact ⟨n, task, htask, hworker, hjob, hnot⟩

end SessionsOk

/--
At every point of a run, whatever the outcomes of the inferences were: a slot
that has taken a request holds all five sessions when `process_worker_request`
starts and when its inference is spawned; every inference task, waited for or
timed out and still running, has all five, so no call of `infer` finds a session
unavailable; and no session is in two slots or tasks.
-/
theorem sessions_have_one_owner
    {ok : Server M → Action M → Prop} {s₀ : Server M}
    (hstarted : Started cfg s₀)
    (hrun : ObservedRun (Server.step cfg) ok SessionTable.note
      (s₀, SessionTable.empty) (s, t)) :
    (∀ w request, s.loops w = .received request ∨ s.loops w = .started request →
      (t.slot w).Full) ∧
    (∀ w request, s.loops w = .inferring request →
      ∃ n task, t.waiting w = some n ∧ t.tasks n = some task ∧
        task.worker = w ∧ task.job = request.id) ∧
    (∀ w job, (w, job) ∈ s.background →
      ∃ n task, t.tasks n = some task ∧ task.worker = w ∧ task.job = job ∧
        t.waiting w ≠ some n) ∧
    (∀ n task, t.tasks n = some task →
      task.sessions.Full ∧
      ∀ asked, requireSessions task.worker task.sessions asked = .ok ()) ∧
    (∀ holder holder' model model' id,
      t.sessionAt holder model = some id → t.sessionAt holder' model' = some id →
      holder = holder' ∧ model = model') := by
  have hok := SessionsOk.run hstarted hrun
  refine ⟨?_, ?_, ?_, ?_, hok.separated.unique⟩
  · rintro w request (hloop | hloop)
    · exact hok.slot_full w (by rw [hloop]; rfl)
    · exact hok.slot_full w (by rw [hloop]; rfl)
  · intro w request hloop
    obtain ⟨n, hn⟩ := hok.inferring w request hloop
    obtain ⟨task, asked, htask, hworker, hasked, hjob⟩ := hok.waits w n hn
    rw [hloop, WorkerLoop.inferring.injEq] at hasked
    rw [← hasked] at hjob
    exact ⟨n, task, hn, htask, hworker, hjob⟩
  · exact fun w job hmem => hok.exists_abandoned hmem
  · intro n task htask
    have hfull := (hok.tasks_full n task htask).2
    exact ⟨hfull, requireSessions_of_full hfull task.worker⟩

/-- The inference of job 1 times out and goes on while job 2 is taken. -/
def timedOutActions : List (Action String) :=
  restartActions ++ enqueueActions (sampleRecord 2 12 none) ++
    [.worker 0 .recv, .worker 0 .recordStarted]

def WorkerLoop.isStarted : WorkerLoop M → Bool
  | .started _ => true
  | _ => false

/-- Worker 0 is about to spawn an inference, and an older one is still running. -/
def timedOutSample (state : Server String × SessionTable) : Bool :=
  (state.1.loops 0).isStarted && state.1.background.contains (0, 1)

theorem sessions_have_one_owner_sample :
    ∃ (s : Server String) (t : SessionTable) (n : Nat) (task : BlockingTask),
      (s.loops 0).isStarted = true ∧ (t.slot 0).Full ∧
      t.tasks n = some task ∧ task.worker = 0 ∧ task.job = 1 ∧ task.sessions.Full ∧
      ∀ model id, (t.slot 0).get model = some id → task.sessions.get model ≠ some id := by
  have hexec : (runActions (observed (Server.step threeWorkers) SessionTable.note)
      (fun _ _ => true) (Server.initial threeWorkers, SessionTable.empty)
      timedOutActions).any timedOutSample = true := by
    decide +kernel
  obtain ⟨⟨s, t⟩, hrun, htest⟩ :
      ∃ q, ObservedRun (Server.step threeWorkers) (fun _ _ => True) SessionTable.note
        (Server.initial threeWorkers, SessionTable.empty) q ∧ timedOutSample q = true :=
    exists_observedRun_of_any (fun _ _ _ => trivial) hexec
  simp only [timedOutSample, Bool.and_eq_true, List.contains_iff_mem] at htest
  obtain ⟨hslots, -, hbackground, htasks, hunique⟩ :=
    sessions_have_one_owner (started_initial threeWorkers) hrun
  obtain ⟨n, task, htask, hworker, hjob, -⟩ := hbackground 0 1 htest.2
  refine ⟨s, t, n, task, htest.1, ?_, htask, hworker, hjob, (htasks n task htask).1, ?_⟩
  · cases hloop : s.loops 0 with
    | started request => exact hslots 0 request (Or.inr hloop)
    | _ =>
        rw [hloop] at htest
        cases htest.1
  · intro model id hslot hheld
    have hplace := (hunique (.slot 0) (.task n) model model id hslot (by
      simpa [htask] using hheld)).1
    cases hplace

end Ownership
end FlorenceServer
