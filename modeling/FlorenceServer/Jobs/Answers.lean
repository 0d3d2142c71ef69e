import FlorenceServer.Inference.Infer
import FlorenceServer.Jobs.Durability
import FlorenceServer.Jobs.QueueOrder
import FlorenceServer.Jobs.TaskFields

/-!
# Answers stay with their jobs

A worker runs the inference of one request at a time, while other workers, calls,
retention, abandoned inferences and restarts touch the same map, files and logs.  Its
outcome is published under the id of the request.

* `answers_stay_with_their_jobs`: a record that is shown as succeeded, in the map, in a
  file, to a reader or to a webhook, holds what an inference returned for the request
  that is parsed from this very record, in whichever process it ran.
* `succeeded_jobs_answer_their_task`: with the outcomes of `infer`, the result of a
  succeeded record is an answer to the task that the record names.
-/

namespace FlorenceServer

open JobRecord Runs

variable {M : Type}

section Records

/-- A record that is shown as succeeded holds an answer to the request parsed from it. -/
def JobRecord.Answered (Answers : JobRequest → M → Prop) (record : JobRecord M) : Prop :=
  record.status = .succeeded →
    ∃ request metadata, jobRequestFromRecord record = .ok request ∧
      record.result = some metadata ∧ Answers request metadata

variable {Answers : JobRequest → M → Prop} {record submitted : JobRecord M}

theorem answered_of_ne
    (hstatus : record.status ≠ .succeeded) :
    record.Answered Answers :=
  fun hsucceeded => absurd hsucceeded hstatus

/-- The request depends on the submitted fields only. -/
theorem JobRecord.SameSubmission.jobRequest_eq
    (hsame : record.SameSubmission submitted) :
    jobRequestFromRecord record = jobRequestFromRecord submitted := by
  simp only [jobRequestFromRecord, hsame.id, hsame.imagePath, hsame.taskType, hsame.taskPrompt,
    hsame.textInput]

/-- The record of a published result. -/
theorem answered_finishedWith
    {request : JobRequest} {result : Except String M}
    (hparsed : jobRequestFromRecord record = .ok request)
    (hanswers : ∀ metadata, result = .ok metadata → Answers request metadata)
    (now : OffsetDateTime) :
    (record.finishedWith now result).Answered Answers := by
  cases result with
  | error err =>
      refine answered_of_ne ?_
      rw [finishedWith, failedWith_status]
      decide
  | ok metadata => exact fun _ => ⟨request, metadata, hparsed, rfl, hanswers metadata rfl⟩

/-- A statement about records that only a published result has to be checked for. -/
structure RecordInvariant (P : JobRecord M → Prop) : Prop where
  unstarted : ∀ record : JobRecord M, record.Unstarted → P record
  running : ∀ (record : JobRecord M) now, P (record.markedRunning now)
  failed : ∀ (record : JobRecord M) now err, P (record.failedWith now err)

theorem answered_invariant (Answers : JobRequest → M → Prop) :
    RecordInvariant (JobRecord.Answered Answers) where
  unstarted := by
    intro record hunstarted
    refine answered_of_ne ?_
    rw [hunstarted.queued]
    decide
  running := by
    intro record now
    refine answered_of_ne ?_
    rw [markedRunning_status]
    decide
  failed := by
    intro record now err
    refine answered_of_ne ?_
    rw [failedWith_status]
    decide

theorem RecordInvariant.recovered
    {P : JobRecord M → Prop}
    (hinvariant : RecordInvariant P)
    (now : Uuid → OffsetDateTime)
    (hrecord : P record) :
    P (recoverRecord now record) := by
  unfold recoverRecord
  split
  · exact hinvariant.failed _ _ _
  · exact hrecord

end Records

section Lives

/-- The record that an effect is about. -/
def Effect.subject : Effect M → Option (JobRecord M)
  | .submitted record => some record
  | .accepted _ | .missing _ => none
  | .finished record => some record
  | .appended record _ => some record
  | .webhook record _ => some record
  | .cleanup record _ => some record
  | .recovered record => some record

/-- Every record in the traces of a job has the property. -/
structure Traces.All (P : JobRecord M → Prop) (t : Traces M) : Prop where
  submissions : ∀ record ∈ t.submissions, P record
  results : ∀ record ∈ t.results, P record
  effects : ∀ e ∈ t.effects, ∀ record ∈ e.subject, P record
  reads : ∀ record, .ok record ∈ t.reads → P record

/-- So has the one in the map. -/
structure Life.All (P : JobRecord M → Prop) (L : Life M) : Prop where
  traces : L.traces.All P
  record : ∀ record ∈ L.record, P record

variable {P : JobRecord M → Prop} {cfg : Config} {id : Uuid} {L L' : Life M} {t t' : Traces M}

theorem Traces.All.empty : (Traces.empty : Traces M).All P where
  submissions := by simp [Traces.empty]
  results := by simp [Traces.empty]
  effects := by simp [Traces.empty]
  reads := by simp [Traces.empty]

theorem Traces.All.last
    (hall : t.All P) {record : JobRecord M} (hlast : t.last = some record) :
    P record := by
  rcases Option.or_eq_some_iff.mp hlast with hresult | ⟨-, hsubmission⟩
  · exact hall.results record (List.mem_of_getLast? hresult)
  · exact hall.submissions record (List.mem_of_getLast? hsubmission)

theorem Traces.All.loaded
    (hinvariant : RecordInvariant P)
    (hall : t.All P) {now : Uuid → OffsetDateTime} {record : JobRecord M}
    (hloaded : t.loaded now = some record) :
    P record := by
  obtain ⟨current, hlast, rfl⟩ := Option.map_eq_some_iff.mp hloaded
  exact hinvariant.recovered now (hall.last hlast)

/-- `load_jobs` writes recovered records only. -/
theorem Traces.All.reloaded
    (hinvariant : RecordInvariant P)
    {now : Uuid → OffsetDateTime} {lossy : Prop}
    (hall : t.All P)
    (hreloaded : Reloaded now lossy t t') :
    t'.All P := by
  have heffects : ∀ e ∈ t.effects ++ (t.recovered now).map Effect.recovered,
      ∀ record ∈ e.subject, P record := by
    intro e hmem record hrecord
    rcases List.mem_append.mp hmem with hold | hnew
    · exact hall.effects e hold record hrecord
    · obtain ⟨current, hcurrent, rfl⟩ := List.mem_map.mp hnew
      cases hrecord
      rw [Traces.recovered, Option.mem_toList, Option.map_eq_some_iff] at hcurrent
      obtain ⟨last, hlast, rfl⟩ := hcurrent
      exact hinvariant.recovered now (hall.last (Option.filter_eq_some_iff.mp hlast).1)
  cases hreloaded with
  | written submissions hkept =>
      refine ⟨?_, ?_, heffects, hall.reads⟩
      · rcases hkept with rfl | rfl
        · exact hall.submissions
        · simp [Traces.reloaded]
      · intro record hmem
        exact hall.loaded hinvariant (Option.mem_toList.mp hmem)
  | dropped hlossy =>
      exact ⟨by simp [Traces.reloaded], by simp [Traces.reloaded], heffects, hall.reads⟩

/-- One more effect about a record with the property. -/
theorem Life.All.withEffect
    (hall : L.All P) {e : Effect M} (he : ∀ record ∈ e.subject, P record) (stage : Stage M) :
    ({ L with stage := stage, effects := L.effects ++ [e] } : Life M).All P where
  traces :=
    { submissions := hall.traces.submissions
      results := hall.traces.results
      effects := by
        intro other hmem
        rcases List.mem_append.mp hmem with hold | hnew
        · exact hall.traces.effects other hold
        · rw [List.mem_singleton.mp hnew]
          exact he
      reads := hall.traces.reads }
  record := hall.record

/-- The stage is no record of its own. -/
theorem Life.All.withStage
    (hall : L.All P) (stage : Stage M) :
    ({ L with stage := stage } : Life M).All P :=
  ⟨⟨hall.traces.submissions, hall.traces.results, hall.traces.effects, hall.traces.reads⟩,
    hall.record⟩

theorem Life.All.withRecord
    (hall : L.All P) {record : Option (JobRecord M)} (hrecord : ∀ r ∈ record, P r) :
    ({ L with record := record } : Life M).All P :=
  ⟨⟨hall.traces.submissions, hall.traces.results, hall.traces.effects, hall.traces.reads⟩,
    hrecord⟩

theorem mem_lines {outcome : AppendOutcome} {record r : JobRecord M}
    (hmem : r ∈ outcome.lines record) :
    r = record := by
  unfold AppendOutcome.lines at hmem
  split at hmem <;> simp_all

theorem Life.All.withSubmission
    (hall : L.All P) {record : JobRecord M} (hrecord : P record) (outcome : AppendOutcome) :
    ({ L with submissions := L.submissions ++ outcome.lines record } : Life M).All P where
  traces :=
    { submissions := by
        intro r hmem
        rcases List.mem_append.mp hmem with hold | hnew
        · exact hall.traces.submissions r hold
        · rw [mem_lines hnew]
          exact hrecord
      results := hall.traces.results
      effects := hall.traces.effects
      reads := hall.traces.reads }
  record := hall.record

theorem Life.All.withResult
    (hall : L.All P) {record : JobRecord M} (hrecord : P record) (outcome : AppendOutcome) :
    ({ L with results := L.results ++ outcome.lines record } : Life M).All P where
  traces :=
    { submissions := hall.traces.submissions
      results := by
        intro r hmem
        rcases List.mem_append.mp hmem with hold | hnew
        · exact hall.traces.results r hold
        · rw [mem_lines hnew]
          exact hrecord
      effects := hall.traces.effects
      reads := hall.traces.reads }
  record := hall.record

/-- A record on its way to the file, the webhook or the clean-up was finished before. -/
theorem Life.Ok.finished_mem
    (hok : L.Ok id) {record final : JobRecord M} {w : Nat} {pc : HeldPc M}
    (hstage : L.stage = .held record w pc)
    (hpc : pc = .appending final ∨ pc = .notifying final ∨ pc = .cleaning final) :
    Effect.finished final ∈ L.effects := by
  simp only [Life.Ok, hstage] at hok
  rcases hpc with rfl | rfl | rfl
  · obtain ⟨-, -, -, -, -, heffects⟩ := hok
    simp [heffects]
  · obtain ⟨-, -, -, -, outcome, -, heffects⟩ := hok
    simp [heffects]
  · obtain ⟨-, -, -, -, outcome, delivery, -, heffects⟩ := hok
    simp [heffects]

/-- A submitted record stands among the effects. -/
theorem Life.Ok.submitted_mem
    (hok : L.Ok id) {sub : Submission M} {pc : CallPc}
    (hstage : L.stage = .calling sub pc) :
    Effect.submitted sub.record ∈ L.effects := by
  simp only [Life.Ok, hstage] at hok
  obtain ⟨-, -, -, heffects⟩ := hok
  simp [heffects]

theorem Life.All.withRead
    (hall : L.All P) :
    ({ L with reads := L.reads ++ [response L.record] } : Life M).All P where
  traces :=
    { submissions := hall.traces.submissions
      results := hall.traces.results
      effects := hall.traces.effects
      reads := by
        intro record hmem
        rcases List.mem_append.mp hmem with hold | hnew
        · exact hall.traces.reads record hold
        · have hresponse := List.mem_singleton.mp hnew
          cases hrecord : L.record with
          | none =>
              rw [hrecord, response] at hresponse
              cases hresponse
          | some current =>
              rw [hrecord, response] at hresponse
              cases hresponse
              exact hall.record record hrecord }
  record := hall.record

/-- What a step does to a job adds records with the property, if a publication does. -/
theorem LifeStep.all
    {a : Action M}
    (hinvariant : RecordInvariant P)
    (hstep : LifeStep cfg id a L L')
    (hok : L.Ok id)
    (hhandlers : a.FromHandlers)
    (hpublish : ∀ w now, a = .worker w (.publish now) → ∀ record ∈ L'.record, P record)
    (hall : L.All P) :
    L'.All P := by
  have hsubmitted : ∀ sub pc, L.stage = .calling sub pc → P sub.record :=
    fun sub pc hstage => hall.traces.effects _ (hok.submitted_mem hstage) _ rfl
  have hfinished : ∀ record final w pc, L.stage = .held record w pc →
      (pc = .appending final ∨ pc = .notifying final ∨ pc = .cleaning final) → P final :=
    fun record final w pc hstage hpc =>
      hall.traces.effects _ (hok.finished_mem hstage hpc) _ rfl
  cases hstep with
  | stutter => exact hall
  | submit record hid hstage =>
      have hrecord : P record :=
        hinvariant.unstarted record (BuiltBySubmitHandler.unstarted hhandlers)
      refine hall.withEffect (fun r hr => ?_) _
      cases hr
      exact hrecord
  | reject record err herr hstage => exact hall.withStage _
  | enter record sub hsub hstage => exact hall.withStage _
  | insert sub hstage =>
      refine (hall.withStage _).withRecord fun r hr => ?_
      cases hr
      exact hsubmitted sub _ hstage
  | append sub outcome hsent hstage =>
      exact (hall.withStage _).withSubmission (hsubmitted sub _ hstage) outcome
  | appendFailed sub outcome hfailed hstage =>
      exact (hall.withStage _).withSubmission (hsubmitted sub _ hstage) outcome
  | send sub hstage => exact hall.withEffect (by simp [Effect.subject]) _
  | refuse sub reason hstage => exact hall.withStage _
  | rollback sub reason hstage => exact (hall.withStage _).withRecord (by simp)
  | persist sub reason now outcome err hstage =>
      exact (hall.withStage _).withResult (hinvariant.failed _ _ _) outcome
  | drop sub pc now written hpc hstage => exact hall.withStage _
  | dropAppending sub now written hstage =>
      exact (hall.withStage _).withSubmission (hsubmitted sub _ hstage) _
  | dropPersisting sub reason now written hstage =>
      exact (hall.withStage _).withResult (hinvariant.failed _ _ _) _
  | recv record w hstage => exact hall.withStage _
  | markRunning record w now hstage =>
      refine (hall.withStage _).withRecord fun r hr => ?_
      obtain ⟨current, -, rfl⟩ := Option.map_eq_some_iff.mp hr
      exact hinvariant.running current now
  | publish record current w now result hstage hrecord =>
      have hfinal : P (current.finishedWith now result) := hpublish w now rfl _ rfl
      refine (hall.withEffect (e := .finished (current.finishedWith now result)) ?_ _).withRecord ?_
      · intro r hr
        cases hr
        exact hfinal
      · intro r hr
        cases hr
        exact hfinal
  | miss record w now hstage hrecord => exact hall.withEffect (by simp [Effect.subject]) _
  | appendResult record final w outcome hstage =>
      have hfinal := hfinished record final w _ hstage (Or.inl rfl)
      refine (hall.withResult hfinal outcome).withEffect (fun r hr => ?_) _
      cases hr
      exact hfinal
  | notify record final w env hstage =>
      refine hall.withEffect (fun r hr => ?_) _
      cases hr
      exact hfinished record final w _ hstage (Or.inr (Or.inl rfl))
  | cleanup record final w removal hstage =>
      refine hall.withEffect (fun r hr => ?_) _
      cases hr
      exact hfinished record final w _ hstage (Or.inr (Or.inr rfl))
  | evict w order => exact hall.withRecord (by simp)
  | read => exact hall.withRead

end Lives

section Requests

variable {cfg : Config} {s s' : Server M} {Answers : JobRequest → M → Prop}

/-- A call that has ended stays as it is. -/
theorem step_ended
    {a : Action M}
    (hstep : s.step cfg a = some s')
    {id : Uuid} {record : JobRecord M} {ending : CallEnding}
    (hended : s.calls id = .ended record ending) :
    s'.calls id = .ended record ending := by
  cases a with
  | submit submitted =>
      simp only [Server.step, Server.submit] at hstep
      split at hstep
      case h_1 hserving hcall =>
          cases hstep
          have hid : id ≠ submitted.id := by
            rintro rfl
            rw [hcall] at hended
            cases hended
          exact (Function.update_of_ne hid _ _).trans hended
      case h_2 => cases hstep
  | call other action =>
      obtain ⟨hlive, hothers, -⟩ := callStep_calls (Server.callStep_cases hstep)
      have hid : id ≠ other := by
        rintro rfl
        rw [hended] at hlive
        cases hlive
      rw [hothers id hid, hended]
  | worker w action =>
      simp only [Server.step] at hstep
      split at hstep
      · obtain ⟨loop, hpasses⟩ := workerStep_passesRequests (Server.workerStep_cases hstep)
        rw [hpasses.calls, hended]
      · cases hstep
  | read other =>
      cases hstep
      exact hended
  | shutdown =>
      simp only [Server.step] at hstep
      split at hstep <;> cases hstep
      exact hended
  | backgroundDone w other =>
      simp only [Server.step] at hstep
      split at hstep <;> cases hstep
      exact hended

theorem Server.Sent.step
    {a : Action M} {request : JobRequest}
    (hsent : s.Sent request)
    (hstep : s.step cfg a = some s') :
    s'.Sent request := by
  obtain ⟨record, hparsed, hended⟩ := hsent
  exact ⟨record, hparsed, step_ended hstep hended⟩

/-- A request is new to the queue only if its call has just sent it. -/
theorem callStep_sent
    {lives : Uuid → Life M} {id : Uuid} {action : CallAction}
    (htracks : Tracks s lives)
    (hcase : Server.CallCase cfg s id action s')
    {request : JobRequest} (hmem : request ∈ s'.queue) :
    request ∈ s.queue ∨ s'.Sent request := by
  cases hcase with
  | send sub hcall =>
      have hid : sub.request.id = id := sub.request_id.trans (htracks.sub_id hcall)
      unfold Server.sendCall at hmem ⊢
      split at hmem
      · exact Or.inl hmem
      · rcases List.mem_append.mp hmem with hold | hnew
        · exact Or.inl hold
        · rw [List.mem_singleton.mp hnew]
          refine Or.inr ⟨sub.record, sub.parsed, ?_⟩
          rw [hid]
          exact Function.update_self _ _ _
  | check record hcall =>
      unfold Server.checkCall at hmem
      split at hmem
      · exact Or.inl hmem
      · split at hmem <;> exact Or.inl hmem
  | append sub outcome hcall =>
      unfold Server.appendCall at hmem
      split at hmem <;> exact Or.inl hmem
  | insert sub hcall => exact Or.inl hmem
  | rollback sub reason hcall => exact Or.inl hmem
  | persist sub reason now outcome hcall => exact Or.inl hmem
  | drop sub pc now written hcall hpc => cases pc <;> exact Or.inl hmem

/-- A worker handles no request that was not handled before. -/
theorem Server.PassesRequests.handles
    {w : Nat} {loop : WorkerLoop M}
    (hpasses : s.PassesRequests s' w loop)
    {request : JobRequest} (hhandles : s'.Handles request) :
    s.Handles request := by
  rcases hhandles with hmem | ⟨v, hheld⟩
  · exact Or.inl (hpasses.queue request hmem)
  · rw [hpasses.loops] at hheld
    by_cases hv : v = w
    · rw [hv, Function.update_self] at hheld
      exact hpasses.request request hheld
    · rw [Function.update_of_ne hv] at hheld
      exact Or.inr ⟨v, hheld⟩

theorem step_handles
    {lives : Uuid → Life M} {a : Action M}
    (htracks : Tracks s lives)
    (hstep : s.step cfg a = some s')
    {request : JobRequest} (hhandles : s'.Handles request) :
    s.Handles request ∨ s'.Sent request := by
  cases a with
  | call id action =>
      have hcase := Server.callStep_cases hstep
      rcases hhandles with hmem | ⟨w, hheld⟩
      · rcases callStep_sent htracks hcase hmem with hold | hsent
        · exact Or.inl (Or.inl hold)
        · exact Or.inr hsent
      · rw [(callStep_sameWorkers hcase).loops] at hheld
        exact Or.inl (Or.inr ⟨w, hheld⟩)
  | worker w action =>
      simp only [Server.step] at hstep
      split at hstep
      · obtain ⟨loop, hpasses⟩ := workerStep_passesRequests (Server.workerStep_cases hstep)
        exact Or.inl (hpasses.handles hhandles)
      · cases hstep
  | submit submitted =>
      simp only [Server.step, Server.submit] at hstep
      split at hstep <;> cases hstep
      exact Or.inl hhandles
  | read other =>
      cases hstep
      exact Or.inl hhandles
  | shutdown =>
      simp only [Server.step] at hstep
      split at hstep <;> cases hstep
      exact Or.inl hhandles
  | backgroundDone w other =>
      simp only [Server.step] at hstep
      split at hstep <;> cases hstep
      exact Or.inl hhandles

end Requests

section Outcomes

variable {cfg : Config} {s s' : Server M} {Answers : JobRequest → M → Prop}

/-- The result that a worker is about to publish, with its request. -/
def WorkerLoop.outcome : WorkerLoop M → Option (JobRequest × Except String M)
  | .finishing request _ result _ => some (request, result)
  | .initializing | .loaded | .receiving | .received _ | .started _ | .inferring _
  | .appending _ _ | .notifying _ _ | .cleaning _ _ | .retaining _ | .stopping _
  | .leaving | .returned => none

@[simp] theorem WorkerLoop.outcome_afterRequest (restart : Bool) :
    (WorkerLoop.afterRequest restart : WorkerLoop M).outcome = none := by
  cases restart <;> rfl

/-- The inferences that succeed return an answer to their request. -/
def Server.InfersAnswers (s : Server M) (Answers : JobRequest → M → Prop) (a : Action M) :
    Prop :=
  ∀ w elapsedMs metadata request, a = .worker w (.infer elapsedMs (.succeeded metadata)) →
    s.loops w = .inferring request → Answers request metadata

/-- The results that workers are about to publish are answers. -/
def Server.OutcomesAnswer (s : Server M) (Answers : JobRequest → M → Prop) : Prop :=
  ∀ w request metadata, (s.loops w).outcome = some (request, .ok metadata) →
    Answers request metadata

/-- A worker has metadata to publish only from the inference it has just waited for. -/
theorem workerStep_outcome
    {w : Nat} {action : WorkerAction M}
    (hcase : Server.WorkerCase cfg s w action s') :
    ∃ loop, s'.loops = Function.update s.loops w loop ∧
      ∀ request metadata, loop.outcome = some (request, .ok metadata) →
        (s.loops w).outcome = some (request, .ok metadata) ∨
        s.loops w = .inferring request ∧
          ∃ elapsedMs, action = .infer elapsedMs (.succeeded metadata) := by
  cases hcase with
  | initWorker outcome hloop =>
      cases outcome <;> exact ⟨_, rfl, by simp [WorkerLoop.outcome]⟩
  | markReady hloop => exact ⟨_, rfl, by simp [WorkerLoop.outcome]⟩
  | recv request rest hloop hqueue => exact ⟨_, rfl, by simp [WorkerLoop.outcome]⟩
  | recvClosed hloop hqueue hsenders => exact ⟨_, rfl, by simp [WorkerLoop.outcome]⟩
  | recordStarted request hloop => exact ⟨_, rfl, by simp [WorkerLoop.outcome]⟩
  | markRunning request now hloop =>
      refine ⟨.inferring request, ?_, by simp [WorkerLoop.outcome]⟩
      unfold Server.markRunning
      split <;> rfl
  | infer request elapsedMs outcome hloop hpossible =>
      refine ⟨_, rfl, fun other metadata houtcome => Or.inr ?_⟩
      cases outcome with
      | succeeded returned =>
          simp only [WorkerLoop.outcome, handleInferenceResult, Option.some.injEq, Prod.mk.injEq,
            Except.ok.injEq] at houtcome
          obtain ⟨rfl, rfl⟩ := houtcome
          exact ⟨hloop, elapsedMs, rfl⟩
      | failed err => cases houtcome
      | panicked err => cases houtcome
      | timedOut => cases houtcome
  | count request update updates result restart hloop =>
      refine ⟨_, rfl, fun other metadata houtcome => Or.inl ?_⟩
      rw [hloop]
      exact houtcome
  | publish request result restart now hloop =>
      unfold Server.publishLoop
      split
      · exact ⟨_, rfl, by simp [WorkerLoop.outcome]⟩
      · exact ⟨_, rfl, by simp⟩
  | append record restart outcome hloop => exact ⟨_, rfl, by simp [WorkerLoop.outcome]⟩
  | notify record restart env hloop => exact ⟨_, rfl, by simp [WorkerLoop.outcome]⟩
  | cleanup record restart removal hloop => exact ⟨_, rfl, by simp [WorkerLoop.outcome]⟩
  | retain restart order hloop => exact ⟨_, rfl, by simp⟩
  | markStopped restart hloop =>
      cases restart <;> exact ⟨_, rfl, by simp [WorkerLoop.outcome]⟩
  | leave hloop => exact ⟨_, rfl, by simp [WorkerLoop.outcome]⟩

theorem Server.OutcomesAnswer.step
    {a : Action M}
    (houtcomes : s.OutcomesAnswer Answers)
    (hinfers : s.InfersAnswers Answers a)
    (hstep : s.step cfg a = some s') :
    s'.OutcomesAnswer Answers := by
  cases a with
  | worker w action =>
      simp only [Server.step] at hstep
      split at hstep
      · obtain ⟨loop, hloops, hnew⟩ := workerStep_outcome (Server.workerStep_cases hstep)
        intro v request metadata houtcome
        rw [hloops] at houtcome
        by_cases hv : v = w
        · rw [hv, Function.update_self] at houtcome
          rcases hnew request metadata houtcome with hold | ⟨hloop, elapsedMs, rfl⟩
          · exact houtcomes w request metadata hold
          · exact hinfers w elapsedMs metadata request rfl hloop
        · rw [Function.update_of_ne hv] at houtcome
          exact houtcomes v request metadata houtcome
      · cases hstep
  | call id action =>
      intro v request metadata houtcome
      rw [(callStep_sameWorkers (Server.callStep_cases hstep)).loops] at houtcome
      exact houtcomes v request metadata houtcome
  | submit submitted =>
      simp only [Server.step, Server.submit] at hstep
      split at hstep <;> cases hstep
      exact houtcomes
  | read other =>
      cases hstep
      exact houtcomes
  | shutdown =>
      simp only [Server.step] at hstep
      split at hstep <;> cases hstep
      exact houtcomes
  | backgroundDone w other =>
      simp only [Server.step] at hstep
      split at hstep <;> cases hstep
      exact houtcomes

/-- The record of an accepted call is the one that its life was submitted with. -/
theorem Stage.submitted_of_ended
    {stage : Stage M} {record : JobRecord M} {ending : CallEnding}
    (hended : stage.call = .ended record ending) :
    stage.submitted = some record := by
  cases stage <;> simp [Stage.call] at hended <;> simp [Stage.submitted, hended]

/-- What `finish_job` publishes answers the record that it is published in. -/
theorem publish_answered
    {lives : Uuid → Life M} {w : Nat} {now : OffsetDateTime} {id : Uuid}
    (htracks : Tracks s lives)
    (hsent : ∀ request, s.Handles request → s.Sent request)
    (houtcomes : s.OutcomesAnswer Answers)
    (hstep : s.step cfg (.worker w (.publish now)) = some s')
    (hold : ∀ record ∈ s.jobs.get id, record.Answered Answers) :
    ∀ record ∈ s'.jobs.get id, record.Answered Answers := by
  simp only [Server.step] at hstep
  split at hstep
  case isFalse => cases hstep
  cases Server.workerStep_cases hstep with
  | publish request result restart now hloop =>
      unfold Server.publishLoop
      cases hcurrent : s.jobs.get request.id with
      | none => exact hold
      | some current =>
          intro record hrecord
          rw [HashMap.get_insert] at hrecord
          by_cases hid : id = request.id
          · rw [if_pos hid] at hrecord
            cases hrecord
            obtain ⟨submitted, hparsed, hended⟩ :=
              hsent request (Or.inr ⟨w, by rw [hloop]; rfl⟩)
            have hsubmitted := Stage.submitted_of_ended
              ((htracks request.id).1.call.symm.trans hended)
            have hversion := (htracks request.id).2.version hsubmitted
              ((htracks request.id).1.record.symm.trans hcurrent)
            refine answered_finishedWith
              (hversion.sameSubmission.jobRequest_eq.trans hparsed) ?_ now
            rintro metadata rfl
            exact houtcomes w request metadata (by rw [hloop]; rfl)
          · rw [if_neg hid] at hrecord
            exact hold record hrecord

end Outcomes

section Processes

variable {Answers : JobRequest → M → Prop}

/-- The inferences of a process that succeed return an answer to their request. -/
def World.InfersAnswers (w : World M) (Answers : JobRequest → M → Prop) (a : WorldAction M) :
    Prop :=
  ∀ cfg s action, w = .serving cfg s → a = .act action → s.InfersAnswers Answers action

/-- A process handles what its calls have sent, and publishes answers. -/
def World.Handled (Answers : JobRequest → M → Prop) : World M → Prop
  | .down _ _ _ => True
  | .serving _ s => (∀ request, s.Handles request → s.Sent request) ∧ s.OutcomesAnswer Answers

/-- The steps of a data directory whose inferences return answers. -/
def FromHandlersAnswering (Answers : JobRequest → M → Prop) (w : World M) (a : WorldAction M) :
    Prop :=
  a.FromHandlers ∧ w.InfersAnswers Answers a

theorem run_handled
    {codec : RecordCodec M} (hcodec : codec.Lawful)
    {w : World M}
    (hrun : Run (World.step codec) (FromHandlersAnswering Answers) World.empty w) :
    w.Handled Answers := by
  have htracked := hrun.strengthen (I := World.Holds History (fun _ => Life.Known))
    (fun w hrun => run_world hcodec historyRules (hrun.mono fun _ _ h => h.1))
  refine htracked.invariant (I := World.Handled Answers) ?_ trivial
  rintro w a w' ⟨⟨-, hinfers⟩, hholds⟩ hstep hhandled
  cases World.step_cases hcodec hstep with
  | booted disk effects reads cfg choice crashAfter =>
      cases crashAfter with
      | some k => trivial
      | none =>
          refine ⟨fun request hhandles => ?_, fun i request metadata houtcome => ?_⟩
          · rcases hhandles with hmem | ⟨i, hheld⟩
            · cases hmem
            · cases hheld
          · cases houtcome
  | crashed cfg s => trivial
  | acted cfg s s' a hact =>
      obtain ⟨lives, htracks, -⟩ := hholds
      refine ⟨fun request hhandles => ?_, hhandled.2.step (hinfers cfg s a rfl rfl) hact⟩
      rcases step_handles htracks hact hhandles with hold | hsent
      · exact (hhandled.1 request hold).step hact
      · exact hsent

/-- The records of a job, in its process and at rest. -/
theorem answeredRules (Answers : JobRequest → M → Prop) :
    WorldRules (fun w a => FromHandlersAnswering Answers w a ∧ w.Handled Answers)
      (fun id t => History id t ∧ t.All (JobRecord.Answered Answers))
      (fun _ id L => L.Known id ∧ L.All (JobRecord.Answered Answers)) where
  history := fun _ _ h => h.1
  empty := fun _ => ⟨.unused rfl rfl rfl, .empty⟩
  reload := fun disk effects reads cfg choice crashAfter id t' _ h hreloaded =>
    ⟨(h id).1.reloaded hreloaded, (h id).2.reloaded (answered_invariant Answers) hreloaded⟩
  start := by
    intro disk effects reads cfg choice id L hok h hreloaded hrest hlife hstage hrecord
    refine ⟨historyRules.start disk effects reads cfg choice id L trivial (fun id => (h id).1)
      hreloaded hrest.1 hlife hstage hrecord, hrest.2, fun record hmem => ?_⟩
    rcases hrecord with hnone | hloaded
    · rw [hnone] at hmem
      cases hmem
    · exact (h id).2.loaded (answered_invariant Answers) (hloaded.symm.trans hmem)
  step := by
    intro cfg s a s' lives lives' id hok hstep htracks htracks' hlife h
    obtain ⟨⟨hhandlers, -⟩, hhandled⟩ := hok
    refine ⟨h.1.step hlife hhandlers,
      hlife.all (answered_invariant Answers) (htracks id).2 hhandlers ?_ h.2⟩
    rintro i now rfl
    rw [← (htracks' id).1.record]
    refine publish_answered htracks hhandled.1 hhandled.2 hstep ?_
    rw [(htracks id).1.record]
    exact h.2.record
  crash := fun cfg s lives id _ htracks h => ⟨(htracks id).2.history h.1, h.2.traces⟩

/-- The traces of every job hold records with the property, in a process and at rest. -/
theorem World.Holds.all
    {P : JobRecord M → Prop} {w : World M}
    (h : w.Holds (fun id t => History id t ∧ t.All P) (fun _ id L => L.Known id ∧ L.All P))
    (id : Uuid) :
    (w.traces id).All P ∧ ∀ record ∈ w.jobs.get id, P record := by
  cases w with
  | down disk effects reads => exact ⟨(h id).2, by simp [World.jobs]⟩
  | serving cfg s =>
      obtain ⟨lives, htracks, hlives⟩ := h
      have hall := (hlives id).2
      have htraces : World.traces (.serving cfg s) id = (lives id).traces :=
        (htracks id).1.traces_eq
      have hrecord : World.jobs (.serving cfg s) = s.jobs := rfl
      rw [htraces, hrecord, (htracks id).1.record]
      exact ⟨hall.traces, hall.record⟩

/--
Whatever calls, workers, crashes and restarts do, a succeeded record that is in the
map or in the results file, that was read or sent to a webhook, holds an answer to the
request that is parsed from this record, if every inference returns an answer to the
request it was started with.
-/
theorem answers_stay_with_their_jobs
    {codec : RecordCodec M} (hcodec : codec.Lawful)
    {w : World M}
    (hrun : Run (World.step codec) (FromHandlersAnswering Answers) World.empty w) :
    (∀ id record, w.jobs.get id = some record → record.Answered Answers) ∧
    (∀ line ∈ w.disk.results, line.Answered Answers) ∧
    (∀ id record, (id, .ok record) ∈ w.reads → record.Answered Answers) ∧
    (∀ record delivery, .webhook record delivery ∈ w.effects → record.Answered Answers) := by
  have hholds := run_world hcodec (answeredRules Answers)
    (hrun.strengthen (I := World.Handled Answers) fun w hrun => run_handled hcodec hrun)
  refine ⟨fun id => (hholds.all id).2, ?_, ?_, ?_⟩
  · intro line hline
    exact (hholds.all line.id).1.results line (List.mem_filter.mpr ⟨hline, by simp⟩)
  · intro id record hread
    refine (hholds.all id).1.reads record ?_
    simpa [World.traces, tracesOf] using hread
  · intro record delivery hwebhook
    exact (hholds.all record.id).1.effects (.webhook record delivery)
      (List.mem_filter.mpr ⟨hwebhook, by simp [Effect.jobId]⟩) record rfl

/-- The request of the sample with the id 1 is about a red pixel, the others are not. -/
def pixelAnswer (request : JobRequest) : String :=
  if request.id = 1 then "a red pixel" else "a blue pixel"

/-- The worker and the metadata of an inference that succeeds. -/
def Action.inferred : Action M → Option (Nat × M)
  | .worker w (.infer _ (.succeeded metadata)) => some (w, metadata)
  | _ => none

def Server.infersPixels (s : Server String) (a : Action String) : Bool :=
  a.inferred.all (fun p => (s.loops p.1).request.all (fun r => decide (p.2 = pixelAnswer r)))

def infersSamples : World String → WorldAction String → Bool
  | .serving _ s, .act a => a.fromSamples && s.infersPixels a
  | _, a => a.fromSamples

theorem answering_of_sample
    {w : World String} {a : WorldAction String}
    (h : infersSamples w a = true) :
    FromHandlersAnswering (fun request metadata => metadata = pixelAnswer request) w a := by
  refine ⟨WorldAction.fromHandlers_of_samples ?_, ?_⟩
  · cases w with
    | down disk effects reads => exact h
    | serving cfg s =>
        cases a with
        | act action => exact (Bool.and_eq_true_iff.mp h).1
        | boot cfg choice crashAfter => rfl
        | crash => rfl
  · rintro cfg s action rfl rfl i elapsedMs metadata request rfl hloop
    rw [infersSamples] at h
    have hpixels := (Bool.and_eq_true_iff.mp h).2
    simpa [Server.infersPixels, Action.inferred, hloop, WorkerLoop.request] using hpixels

/-- Another worker takes the next request and saves its result. -/
def overtakeActions (w : Nat) : List (Action String) :=
  [.worker w .recv, .worker w .recordStarted, .worker w (.markRunning 9),
    .worker w (.infer 30 (.succeeded "a blue pixel")), .worker w .count, .worker w .count,
    .worker w (.publish 10), .worker w (.append .ok)]

/-- The second of two workers finishes first, the process dies, and the job is read
in the next process. -/
def overtakingSample : List (WorldAction String) :=
  .boot { Config.default with workers := 2 } (sampleChoice 3) none ::
    (enqueueActions (sampleRecord 1 5 none) ++ enqueueActions (sampleRecord 2 6 none) ++
      readyActions 0 ++ readyActions 1 ++ inferActions 0 8 ++ overtakeActions 1).map .act ++
    [.crash, .boot Config.default (sampleChoice 21) none, .act (.read 2)]

theorem answers_stay_with_their_jobs_sample :
    ∃ (w : World String) (record : JobRecord String),
      (2, .ok record) ∈ w.reads ∧ record.status = .succeeded ∧
        record.result = some "a blue pixel" := by
  have hexec : (runActions World.stepLoaded infersSamples World.empty overtakingSample).any
      (fun w => (w.reads.any (fun read => decide (read.1 = 2)) &&
        w.reads.all (fun read => read.2.toOption.any
          (fun record => decide (record.id = 2 ∧ record.status = .succeeded))))) = true := by
    decide +kernel
  have hcodec := textCodec_lawful sampleTexts_differ
  obtain ⟨w, hrun, htest⟩ := exists_world_of_any hcodec
    (fun _ _ h => answering_of_sample h) hexec
  obtain ⟨hany, hall⟩ := Bool.and_eq_true_iff.mp htest
  obtain ⟨⟨id, response⟩, hread, hid⟩ := List.any_eq_true.mp hany
  obtain rfl : id = 2 := of_decide_eq_true hid
  have hresponse := List.all_eq_true.mp hall _ hread
  cases response with
  | error err => cases hresponse
  | ok record =>
      obtain ⟨hrecord, hstatus⟩ := of_decide_eq_true
        (p := record.id = 2 ∧ record.status = .succeeded) hresponse
      obtain ⟨request, metadata, hparsed, hresult, rfl⟩ :=
        (answers_stay_with_their_jobs hcodec hrun).2.2.1 2 record hread hstatus
      have hrequest : request.id = 2 :=
        (Submission.request_id ⟨record, request, hparsed⟩).trans hrecord
      have hother : request.id ≠ 1 := by
        rw [hrequest]
        decide
      exact ⟨w, record, hread, hstatus, by rw [hresult, pixelAnswer, if_neg hother]⟩

end Processes

section Tasks

variable {F : Type} [LinearOrder F] (ops : FloatOps F) (fromF32 : F → F)

/-- The metadata that some worker's inference has returned for the request. -/
def InferredFor (request : JobRequest) (metadata : InferenceMetadata) : Prop :=
  ∃ (worker : InferenceWorker F) (read : ImageRead) (elapsedMs rounds : Nat),
    worker.infer ops fromF32 request.imagePath read request.task elapsedMs rounds =
      .ok (some metadata)

variable {ops : FloatOps F} {fromF32 : F → F}

/--
With the workers' inferences, a succeeded record that a client reads holds metadata that
answers the task named in the record.
-/
theorem succeeded_jobs_answer_their_task
    {codec : RecordCodec InferenceMetadata} (hcodec : codec.Lawful)
    {w : World InferenceMetadata}
    (hrun : Run (World.step codec) (FromHandlersAnswering (InferredFor ops fromF32))
      World.empty w)
    {id : Uuid} {record : JobRecord InferenceMetadata}
    (hread : (id, .ok record) ∈ w.reads)
    (hsucceeded : record.status = .succeeded) :
    ∃ request metadata, jobRequestFromRecord record = .ok request ∧
      record.result = some metadata ∧
      ∃ (worker : InferenceWorker F) (image : DecodedImage) (imageFeatures : TensorData F),
        worker.AnswersTask image imageFeatures request.task metadata := by
  have hanswered := (answers_stay_with_their_jobs hcodec hrun).2.2.1 id record hread
  obtain ⟨request, metadata, hparsed, hresult, worker, read, elapsedMs, rounds, hinfer⟩ :=
    hanswered hsucceeded
  obtain ⟨image, imageFeatures, -, -, hanswers⟩ := infer_answers_task hinfer
  exact ⟨request, metadata, hparsed, hresult, worker, image, imageFeatures, hanswers⟩

end Tasks
end FlorenceServer
