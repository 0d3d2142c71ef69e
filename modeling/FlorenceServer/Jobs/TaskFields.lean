import FlorenceServer.Api.Uploads
import FlorenceServer.Inference.TaskPlan
import FlorenceServer.Jobs.WorkerPool

/-!
# The task fields of a job

The submit handlers parse the task fields of a request and store what they
accept in the job record; `enqueue_record` parses the record again, and the
workers take the parsed task from the queue.

* `accepted_tasks_parse_back`: what `task_spec_from_request` accepts is parsed
  back from the record that stores it, no call for a record of a submit handler
  ends with `InvalidTask`, and every request that a process handles has a prompt
  of its own task type.
* `run_plan_outcome`: what a worker makes of such a request.
-/

namespace FlorenceServer

open Runs

variable {M : Type}

section Records

variable {record : JobRecord M} {task : TaskSpec}

/-- The record holds the names and the text of the task. -/
structure JobRecord.StoresTask (record : JobRecord M) (task : TaskSpec) : Prop where
  taskType : record.taskType = task.taskTypeName
  taskPrompt : record.taskPrompt = task.taskPromptName
  textInput : record.textInput = task.textInput

theorem canonical_of_taskSpecFromRequest
    {taskType taskPrompt textInput taskAlias : Option String}
    (h : taskSpecFromRequest taskType taskPrompt textInput taskAlias = .ok task) :
    task.Canonical := by
  unfold taskSpecFromRequest at h
  split at h
  · rename_i parsed hparse
    cases h
    exact TaskSpec.canonical_of_fromStrings hparse
  · cases h

/-- The record is parsed to the task it stores. -/
theorem jobRequestFromRecord_of_stores
    (hstores : record.StoresTask task)
    (hcanonical : task.Canonical) :
    jobRequestFromRecord record =
      .ok { id := record.id, imagePath := record.imagePath, task := task } := by
  rw [jobRequestFromRecord, hstores.taskType, hstores.taskPrompt, hstores.textInput,
    hcanonical.fromStrings_names]

theorem canonical_of_jobRequestFromRecord
    {request : JobRequest}
    (h : jobRequestFromRecord record = .ok request) :
    request.task.Canonical := by
  unfold jobRequestFromRecord at h
  split at h
  · cases h
  · rename_i parsed hparse
    cases h
    exact TaskSpec.canonical_of_fromStrings hparse

theorem uploadedJobRecord_stores
    {cfg : Config} {env : SubmitEnv} {request : MultipartInferenceRequest}
    (h : uploadedJobRecord cfg env request = .ok record) :
    ∃ task, taskSpecFromRequest request.taskType request.taskPrompt request.textInput none =
        .ok task ∧
      record.StoresTask task := by
  obtain ⟨task, htask, h⟩ := bind_eq_ok.mp h
  obtain ⟨webhookUrl, -, h⟩ := bind_eq_ok.mp h
  refine ⟨task, htask, ?_⟩
  split at h
  · cases h
  · split at h
    · cases h
    · obtain ⟨_, -, h⟩ := bind_eq_ok.mp h
      obtain ⟨imagePath, -, h⟩ := bind_eq_ok.mp h
      cases h
      exact ⟨rfl, rfl, rfl⟩

theorem localPathJobRecord_stores
    {env : SubmitEnv} {request : LocalPathRequest}
    (h : localPathJobRecord env request = .ok record) :
    ∃ task, taskSpecFromRequest request.taskType request.taskPrompt request.textInput
        request.task = .ok task ∧
      record.StoresTask task := by
  obtain ⟨imagePath, -, h⟩ := bind_eq_ok.mp h
  obtain ⟨bytes, -, h⟩ := bind_eq_ok.mp h
  obtain ⟨_, -, h⟩ := bind_eq_ok.mp h
  obtain ⟨task, htask, h⟩ := bind_eq_ok.mp h
  obtain ⟨webhookUrl, -, h⟩ := bind_eq_ok.mp h
  cases h
  exact ⟨task, htask, rfl, rfl, rfl⟩

/-- A submit handler stores a task that it has accepted. -/
theorem BuiltBySubmitHandler.stores
    (hbuilt : BuiltBySubmitHandler record) :
    ∃ taskType taskPrompt textInput taskAlias task,
      taskSpecFromRequest taskType taskPrompt textInput taskAlias = .ok task ∧
        record.StoresTask task := by
  rcases hbuilt with ⟨cfg, env, request, h⟩ | ⟨env, request, h⟩
  · obtain ⟨task, htask, hstores⟩ := uploadedJobRecord_stores h
    exact ⟨_, _, _, _, task, htask, hstores⟩
  · obtain ⟨task, htask, hstores⟩ := localPathJobRecord_stores h
    exact ⟨_, _, _, _, task, htask, hstores⟩

theorem BuiltBySubmitHandler.parses
    (hbuilt : BuiltBySubmitHandler record) :
    ∃ request, jobRequestFromRecord record = .ok request := by
  obtain ⟨_, _, _, _, task, htask, hstores⟩ := hbuilt.stores
  exact ⟨_, jobRequestFromRecord_of_stores hstores (canonical_of_taskSpecFromRequest htask)⟩

/-- The first statement of `enqueue_record` fails as the parser does. -/
theorem Submission.parse_of_ofRecord
    {err : EnqueueError}
    (h : Submission.ofRecord record = .error err) :
    jobRequestFromRecord record = .error err := by
  unfold Submission.ofRecord at h
  split at h
  · cases h
  · rename_i hparse
    cases h
    exact hparse

end Records

section Requests

variable {cfg : Config} {s s' : Server M}

/-- The request that a worker has taken from the queue, until it looks the job up. -/
def WorkerLoop.request : WorkerLoop M → Option JobRequest
  | .received request | .started request | .inferring request
  | .finishing request _ _ _ => some request
  | .initializing | .loaded | .receiving | .appending _ _ | .notifying _ _
  | .cleaning _ _ | .retaining _ | .stopping _ | .leaving | .returned => none

@[simp] theorem WorkerLoop.request_afterRequest (restart : Bool) :
    (WorkerLoop.afterRequest restart : WorkerLoop M).request = none := by
  cases restart <;> rfl

/-- The request is in the queue or with a worker. -/
def Server.Handles (s : Server M) (request : JobRequest) : Prop :=
  request ∈ s.queue ∨ ∃ w, (s.loops w).request = some request

/-- A worker step takes requests from the queue and makes none. -/
structure Server.PassesRequests (s s' : Server M) (w : Nat) (loop : WorkerLoop M) :
    Prop where
  calls : s'.calls = s.calls
  queue : ∀ request ∈ s'.queue, request ∈ s.queue
  loops : s'.loops = Function.update s.loops w loop
  request : ∀ request ∈ loop.request, s.Handles request

/-- A worker that keeps its request or lets go of it. -/
theorem Server.PassesRequests.of_kept
    {w : Nat} {loop : WorkerLoop M}
    (hcalls : s'.calls = s.calls)
    (hqueue : s'.queue = s.queue)
    (hloops : s'.loops = Function.update s.loops w loop)
    (hkept : loop.request = (s.loops w).request ∨ loop.request = none) :
    s.PassesRequests s' w loop where
  calls := hcalls
  queue := by
    intro request hmem
    rwa [hqueue] at hmem
  loops := hloops
  request := by
    intro request hrequest
    rcases hkept with hkept | hkept
    · exact Or.inr ⟨w, hkept ▸ hrequest⟩
    · rw [hkept] at hrequest
      cases hrequest

theorem workerStep_passesRequests
    {w : Nat} {action : WorkerAction M}
    (hcase : Server.WorkerCase cfg s w action s') :
    ∃ loop, s.PassesRequests s' w loop := by
  cases hcase with
  | initWorker outcome hloop =>
      cases outcome <;> exact ⟨_, .of_kept rfl rfl rfl (Or.inr rfl)⟩
  | markReady hloop =>
      exact ⟨_, .of_kept rfl rfl rfl (Or.inr rfl)⟩
  | recv request rest hloop hqueue =>
      have hhead : request ∈ s.queue := hqueue ▸ List.mem_cons_self
      refine ⟨.received request, rfl, fun other hmem => ?_, rfl, fun other hother => ?_⟩
      · rw [hqueue]
        exact List.mem_cons_of_mem request hmem
      · cases hother
        exact Or.inl hhead
  | recvClosed hloop hqueue hsenders =>
      exact ⟨_, .of_kept rfl rfl rfl (Or.inr rfl)⟩
  | recordStarted request hloop =>
      exact ⟨_, .of_kept rfl rfl rfl (Or.inl (by rw [hloop]; rfl))⟩
  | markRunning request now hloop =>
      refine ⟨.inferring request, ?_⟩
      unfold Server.markRunning
      split <;> exact .of_kept rfl rfl rfl (Or.inl (by rw [hloop]; rfl))
  | infer request elapsedMs outcome hloop hpossible =>
      exact ⟨_, .of_kept rfl rfl rfl (Or.inl (by rw [hloop]; rfl))⟩
  | count request update updates result restart hloop =>
      exact ⟨_, .of_kept rfl rfl rfl (Or.inl (by rw [hloop]; rfl))⟩
  | publish request result restart now hloop =>
      unfold Server.publishLoop
      split
      · exact ⟨_, .of_kept rfl rfl rfl (Or.inr rfl)⟩
      · exact ⟨_, .of_kept rfl rfl rfl (Or.inr (WorkerLoop.request_afterRequest restart))⟩
  | append record restart outcome hloop =>
      exact ⟨_, .of_kept rfl rfl rfl (Or.inr rfl)⟩
  | notify record restart env hloop =>
      exact ⟨_, .of_kept rfl rfl rfl (Or.inr rfl)⟩
  | cleanup record restart removal hloop =>
      exact ⟨_, .of_kept rfl rfl rfl (Or.inr rfl)⟩
  | retain restart order hloop =>
      exact ⟨_, .of_kept rfl rfl rfl (Or.inr (WorkerLoop.request_afterRequest restart))⟩
  | markStopped restart hloop =>
      cases restart <;> exact ⟨_, .of_kept rfl rfl rfl (Or.inr rfl)⟩
  | leave hloop =>
      exact ⟨_, .of_kept rfl rfl rfl (Or.inr rfl)⟩

/-- The call ended with `InvalidTask` for the record. -/
def Server.Refused (s : Server M) (id : Uuid) (record : JobRecord M)
    (source : TaskSpecError) : Prop :=
  s.calls id = .ended record (.returned (.error (.invalidTask source)))

/-- A call sends only the request that was parsed from its record. -/
theorem callStep_queue
    {id : Uuid} {action : CallAction}
    (hcase : Server.CallCase cfg s id action s') :
    ∀ request ∈ s'.queue, request ∈ s.queue ∨ ∃ sub : Submission M, sub.request = request := by
  cases hcase with
  | check record hcall =>
      unfold Server.checkCall
      split
      · exact fun request hmem => Or.inl hmem
      · split <;> exact fun request hmem => Or.inl hmem
  | insert sub hcall =>
      exact fun request hmem => Or.inl hmem
  | append sub outcome hcall =>
      unfold Server.appendCall
      split <;> exact fun request hmem => Or.inl hmem
  | send sub hcall =>
      unfold Server.sendCall
      split
      · exact fun request hmem => Or.inl hmem
      · intro request hmem
        rcases List.mem_append.mp hmem with hold | hnew
        · exact Or.inl hold
        · exact Or.inr ⟨sub, (List.mem_singleton.mp hnew).symm⟩
  | rollback sub reason hcall =>
      exact fun request hmem => Or.inl hmem
  | persist sub reason now outcome hcall =>
      exact fun request hmem => Or.inl hmem
  | drop sub pc now written hcall hpc =>
      cases pc <;> exact fun request hmem => Or.inl hmem

/-- A call ends with `InvalidTask` only where it parses the record. -/
theorem callStep_refused
    {id : Uuid} {action : CallAction} {record : JobRecord M} {source : TaskSpecError}
    (hcase : Server.CallCase cfg s id action s')
    (hrefused : s'.Refused id record source) :
    jobRequestFromRecord record = .error (.invalidTask source) := by
  unfold Server.Refused at hrefused
  cases hcase with
  | check checked hcall =>
      unfold Server.checkCall at hrefused
      split at hrefused
      · rename_i hparse
        simp only [Server.endCall, Function.update_self] at hrefused
        cases hrefused
        exact Submission.parse_of_ofRecord hparse
      · split at hrefused <;>
          simp [Server.endCall, Server.setCall] at hrefused
  | insert sub hcall =>
      simp [Server.insertCall, Server.setCall] at hrefused
  | append sub outcome hcall =>
      unfold Server.appendCall at hrefused
      split at hrefused <;> simp [Server.endCall, Server.setCall] at hrefused
  | send sub hcall =>
      unfold Server.sendCall at hrefused
      split at hrefused <;> simp [Server.endCall, Server.setCall] at hrefused
  | rollback sub reason hcall =>
      simp [Server.rollbackCall, Server.setCall] at hrefused
  | persist sub reason now outcome hcall =>
      simp only [Server.persistCall, Server.endCall, Function.update_self] at hrefused
      cases reason <;> split at hrefused <;> simp [TrySendError.toEnqueueError] at hrefused
  | drop sub pc now written hcall hpc =>
      cases pc <;> simp [Server.dropCall, Server.endCall] at hrefused

/-- Where the requests and the refusals of the next state come from. -/
structure Server.StepFields (s s' : Server M) : Prop where
  handles : ∀ request, s'.Handles request →
    s.Handles request ∨ ∃ sub : Submission M, sub.request = request
  refused : ∀ id record source, s'.Refused id record source →
    s.Refused id record source ∨
      jobRequestFromRecord record = .error (.invalidTask source)

theorem Server.StepFields.of_same
    (hcalls : s'.calls = s.calls)
    (hqueue : s'.queue = s.queue)
    (hloops : s'.loops = s.loops) :
    s.StepFields s' where
  handles := by
    intro request hhandles
    unfold Server.Handles at hhandles
    rw [hqueue, hloops] at hhandles
    exact Or.inl hhandles
  refused := by
    intro id record source hrefused
    unfold Server.Refused at hrefused
    rw [hcalls] at hrefused
    exact Or.inl hrefused

theorem Server.PassesRequests.stepFields
    {w : Nat} {loop : WorkerLoop M}
    (hpasses : s.PassesRequests s' w loop) :
    s.StepFields s' where
  handles := by
    intro request hhandles
    rcases hhandles with hmem | ⟨v, hheld⟩
    · exact Or.inl (Or.inl (hpasses.queue request hmem))
    · rw [hpasses.loops] at hheld
      by_cases hv : v = w
      · rw [hv, Function.update_self] at hheld
        exact Or.inl (hpasses.request request hheld)
      · rw [Function.update_of_ne hv] at hheld
        exact Or.inl (Or.inr ⟨v, hheld⟩)
  refused := by
    intro id record source hrefused
    unfold Server.Refused at hrefused
    rw [hpasses.calls] at hrefused
    exact Or.inl hrefused

theorem callStep_stepFields
    {id : Uuid} {action : CallAction}
    (hcase : Server.CallCase cfg s id action s') :
    s.StepFields s' where
  handles := by
    intro request hhandles
    rcases hhandles with hmem | ⟨w, hheld⟩
    · rcases callStep_queue hcase request hmem with hold | hparsed
      · exact Or.inl (Or.inl hold)
      · exact Or.inr hparsed
    · rw [(callStep_sameWorkers hcase).loops] at hheld
      exact Or.inl (Or.inr ⟨w, hheld⟩)
  refused := by
    intro other record source hrefused
    obtain ⟨-, hothers, -⟩ := callStep_calls hcase
    by_cases hid : other = id
    · rw [hid] at hrefused
      exact Or.inr (callStep_refused hcase hrefused)
    · unfold Server.Refused at hrefused
      rw [hothers other hid] at hrefused
      exact Or.inl hrefused

theorem step_fields
    {a : Action M}
    (hstep : s.step cfg a = some s') :
    s.StepFields s' := by
  cases a with
  | submit record =>
      simp only [Server.step, Server.submit] at hstep
      split at hstep <;> cases hstep
      refine ⟨fun request hhandles => Or.inl hhandles, fun id other source hrefused => ?_⟩
      unfold Server.Refused at hrefused
      by_cases hid : id = record.id
      · simp [hid, Server.setCall] at hrefused
      · simp only [Server.setCall, Function.update_of_ne hid] at hrefused
        exact Or.inl hrefused
  | call id action =>
      exact callStep_stepFields (Server.callStep_cases hstep)
  | worker w action =>
      simp only [Server.step] at hstep
      split at hstep
      · obtain ⟨loop, hpasses⟩ := workerStep_passesRequests (Server.workerStep_cases hstep)
        exact hpasses.stepFields
      · cases hstep
  | read id =>
      cases hstep
      exact .of_same rfl rfl rfl
  | shutdown =>
      simp only [Server.step] at hstep
      split at hstep <;> cases hstep
      exact .of_same rfl rfl rfl
  | backgroundDone w id =>
      simp only [Server.step] at hstep
      split at hstep <;> cases hstep
      exact .of_same rfl rfl rfl

end Requests

section Processes

variable {cfg : Config} {s₀ s : Server M}

/-- What a process keeps true of the tasks it handles. -/
structure Server.TasksParsed (s : Server M) : Prop where
  canonical : ∀ request, s.Handles request → request.task.Canonical
  refused : ∀ id record source, s.Refused id record source →
    jobRequestFromRecord record = .error (.invalidTask source)

theorem Server.TasksParsed.step
    {s' : Server M} {a : Action M}
    (hparsed : s.TasksParsed)
    (hstep : s.step cfg a = some s') :
    s'.TasksParsed where
  canonical := by
    intro request hhandles
    rcases (step_fields hstep).handles request hhandles with hold | ⟨sub, rfl⟩
    · exact hparsed.canonical request hold
    · exact canonical_of_jobRequestFromRecord sub.parsed
  refused := by
    intro id record source hrefused
    rcases (step_fields hstep).refused id record source hrefused with hold | hfails
    · exact hparsed.refused id record source hold
    · exact hfails

theorem Started.tasksParsed
    (hstarted : Started cfg s₀) :
    s₀.TasksParsed := by
  obtain ⟨jobs, disk, effects, reads, used, rfl⟩ := hstarted.exists_start
  refine ⟨fun request hhandles => ?_, fun id record source hrefused => ?_⟩
  · rcases hhandles with hmem | ⟨w, hheld⟩
    · cases hmem
    · cases hheld
  · simp only [Server.Refused, Server.start] at hrefused
    split at hrefused <;> cases hrefused

theorem run_tasksParsed
    (hstarted : Started cfg s₀)
    (hrun : Run (Server.step cfg) (fun _ _ => True) s₀ s) :
    s.TasksParsed :=
  Run.invariant (fun _ _ _ _ hstep hparsed => hparsed.step hstep) hrun hstarted.tasksParsed

/-- What a worker does with a request of any run: no task is unsupported there. -/
theorem run_plan_outcome
    {G : Type} (generateOnce : ResolvedTask → Except InferenceFailure G)
    (generationTextForInput : G → String)
    (hstarted : Started cfg s₀)
    (hrun : Run (Server.step cfg) (fun _ _ => True) s₀ s)
    {request : JobRequest}
    (hhandles : s.Handles request) :
    PlanOutcome generateOnce generationTextForInput request.task
      (runTaskPlan generateOnce generationTextForInput request.task) :=
  runTaskPlan_outcome generateOnce generationTextForInput
    ((run_tasksParsed hstarted hrun).canonical request hhandles)

end Processes

/-- **Accepted tasks parse back.** Whatever the request strings are, the task
that they are accepted as is parsed from every record that stores it.  In every
run of a server process a call that ends with `InvalidTask` was not made for a
record of a submit handler, and the requests in the queue and with the workers
have a prompt of their own task type. -/
theorem accepted_tasks_parse_back :
    (∀ (taskType taskPrompt textInput taskAlias : Option String) (task : TaskSpec),
      taskSpecFromRequest taskType taskPrompt textInput taskAlias = .ok task →
      ∀ record : JobRecord M, record.StoresTask task →
        jobRequestFromRecord record =
          .ok { id := record.id, imagePath := record.imagePath, task := task }) ∧
    (∀ record : JobRecord M, BuiltBySubmitHandler record →
      ∃ taskType taskPrompt textInput taskAlias task,
        taskSpecFromRequest taskType taskPrompt textInput taskAlias = .ok task ∧
          record.StoresTask task) ∧
    (∀ (record : JobRecord M) (request : JobRequest),
      jobRequestFromRecord record = .ok request →
        request.task.taskPrompt ∈ request.task.taskType.prompts) ∧
    ∀ (cfg : Config) (s₀ s : Server M),
      Started cfg s₀ →
      Run (Server.step cfg) (fun _ _ => True) s₀ s →
      (∀ id record source,
        s.calls id = .ended record (.returned (.error (.invalidTask source))) →
          ¬ BuiltBySubmitHandler record) ∧
      ∀ request, s.Handles request →
        request.task.taskPrompt ∈ request.task.taskType.prompts := by
  refine ⟨?_, fun record hbuilt => hbuilt.stores, ?_, ?_⟩
  · intro taskType taskPrompt textInput taskAlias task haccepted record hstores
    exact jobRequestFromRecord_of_stores hstores (canonical_of_taskSpecFromRequest haccepted)
  · intro record request hparse
    exact (canonical_of_jobRequestFromRecord hparse).offered
  · intro cfg s₀ s hstarted hrun
    have hparsed := run_tasksParsed hstarted hrun
    refine ⟨fun id record source hended hbuilt => ?_,
      fun request hhandles => (hparsed.canonical request hhandles).offered⟩
    obtain ⟨request, hparse⟩ := hbuilt.parses
    rw [hparsed.refused id record source hended] at hparse
    cases hparse

section SampleTask

/-- An upload with the corrected label, blanks around the names and a blank text. -/
def cascadedRequest : MultipartInferenceRequest :=
  { sampleRequest none with
    taskType := some " Cascaded task "
    taskPrompt := some "Caption + Grounding\n"
    textInput := some "  " }

/-- The record of that upload. -/
def cascadedRecord : JobRecord String :=
  { sampleRecord 1 5 none with
    taskType := "Cascased task"
    taskPrompt := "Caption + Grounding" }

/-- The request that waits in the queue for that record. -/
def cascadedJob : JobRequest where
  id := 1
  imagePath := cascadedRecord.imagePath
  task :=
    { taskType := .cascaded
      taskPrompt := .captionGrounding
      textInput := none }

/-- The misspelled label is stored and read back, and the call is accepted. -/
theorem cascaded_upload_parses_back :
    BuiltBySubmitHandler cascadedRecord ∧
    jobRequestFromRecord cascadedRecord = .ok cascadedJob ∧
    ∃ s : Server String,
      s.Handles cascadedJob ∧
      (∀ source,
        s.calls 1 ≠ .ended cascadedRecord (.returned (.error (.invalidTask source)))) ∧
      cascadedJob.task.taskPrompt ∈ cascadedJob.task.taskType.prompts := by
  obtain ⟨hback, -, -, hruns⟩ := accepted_tasks_parse_back (M := String)
  have hbuilt : BuiltBySubmitHandler cascadedRecord :=
    Or.inl ⟨Config.default, sampleEnv 1 5, cascadedRequest, by decide⟩
  have haccepted :
      taskSpecFromRequest cascadedRequest.taskType cascadedRequest.taskPrompt
        cascadedRequest.textInput none = .ok cascadedJob.task := by
    decide
  obtain ⟨s, hexec, hqueue⟩ : ∃ s,
      runActions (Server.step Config.default) (fun _ _ => true)
        (Server.initial Config.default) (enqueueActions cascadedRecord) = some s ∧
      s.queue = [cascadedJob] :=
    ⟨_, rfl, rfl⟩
  have hhandles : s.Handles cascadedJob := by
    rw [Server.Handles, hqueue]
    exact Or.inl List.mem_cons_self
  obtain ⟨haccepts, hoffered⟩ := hruns Config.default _ s (started_initial _)
    (run_of_runActions (fun _ _ _ => trivial) _ _ s hexec)
  refine ⟨hbuilt, hback _ _ _ _ _ haccepted cascadedRecord ⟨rfl, rfl, rfl⟩, s, hhandles,
    fun source hended => ?_, hoffered cascadedJob hhandles⟩
  exact haccepts 1 cascadedRecord source hended hbuilt

end SampleTask
end FlorenceServer
