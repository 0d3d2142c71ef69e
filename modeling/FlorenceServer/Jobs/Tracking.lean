import FlorenceServer.Lib.Runs
import FlorenceServer.Jobs.Lifecycle

/-!
# A server process is a life for every job

`View s id L` says that `L` is what the process `s` knows about `id`.  The main
result, `step_tracks`, says that one step of the process is one `LifeStep` for
every id, and that each id stays in one of the forms of `Life.Ok`.  Statements
about runs of a process follow from statements about lives by `run_tracks`.
-/

namespace FlorenceServer

open JobRecord

variable {M : Type}

section Views

/-- `L` is what the process knows about `id`. -/
structure View (s : Server M) (id : Uuid) (L : Life M) : Prop where
  call : s.calls id = L.stage.call
  requests : s.queue.countP (fun request => decide (request.id = id)) = L.stage.requests
  holder : ∀ w pc, (s.loops w).held = some (id, pc) ↔ L.stage.holder = some (w, pc)
  record : s.jobs.get id = L.record
  submissions : s.disk.submissions.filter (fun r => decide (r.id = id)) = L.submissions
  results : s.disk.results.filter (fun r => decide (r.id = id)) = L.results
  effects : s.effects.filter (fun e => decide (e.jobId = id)) = L.effects
  reads : (s.reads.filter (fun read => decide (read.1 = id))).map Prod.snd = L.reads

/-- Every job is tracked by a life in one of the described forms. -/
def Tracks (s : Server M) (lives : Uuid → Life M) : Prop :=
  ∀ id, View s id (lives id) ∧ (lives id).Ok id

/-- Two states of a process agree on everything about `id`. -/
structure SameAt (s s' : Server M) (id : Uuid) : Prop where
  call : s'.calls id = s.calls id
  requests : s'.queue.countP (fun request => decide (request.id = id)) =
    s.queue.countP (fun request => decide (request.id = id))
  holder : ∀ w pc, (s'.loops w).held = some (id, pc) ↔ (s.loops w).held = some (id, pc)
  record : s'.jobs.get id = s.jobs.get id
  submissions : s'.disk.submissions.filter (fun r => decide (r.id = id)) =
    s.disk.submissions.filter (fun r => decide (r.id = id))
  results : s'.disk.results.filter (fun r => decide (r.id = id)) =
    s.disk.results.filter (fun r => decide (r.id = id))
  effects : s'.effects.filter (fun e => decide (e.jobId = id)) =
    s.effects.filter (fun e => decide (e.jobId = id))
  reads : s'.reads.filter (fun read => decide (read.1 = id)) =
    s.reads.filter (fun read => decide (read.1 = id))

theorem View.of_sameAt
    {s s' : Server M} {id : Uuid} {L : Life M}
    (h : View s id L)
    (hsame : SameAt s s' id) :
    View s' id L where
  call := hsame.call.trans h.call
  requests := hsame.requests.trans h.requests
  holder := fun w pc => (hsame.holder w pc).trans (h.holder w pc)
  record := hsame.record.trans h.record
  submissions := hsame.submissions.trans h.submissions
  results := hsame.results.trans h.results
  effects := hsame.effects.trans h.effects
  reads := (congrArg (List.map Prod.snd) hsame.reads).trans h.reads

end Views

section Bookkeeping

variable {s : Server M} {lives : Uuid → Life M}

theorem filter_lines
    {id : Uuid} {record : JobRecord M} (outcome : AppendOutcome)
    (hid : record.id = id) :
    (outcome.lines record).filter (fun r => decide (r.id = id)) =
      outcome.lines record := by
  cases outcome with
  | ok => simp [AppendOutcome.lines, hid]
  | failed written => cases written <;> simp [AppendOutcome.lines, hid]

theorem filter_lines_of_ne
    {id : Uuid} {record : JobRecord M} (outcome : AppendOutcome)
    (hid : record.id ≠ id) :
    (outcome.lines record).filter (fun r => decide (r.id = id)) = [] := by
  cases outcome with
  | ok => simp [AppendOutcome.lines, hid]
  | failed written => cases written <;> simp [AppendOutcome.lines, hid]

/-- A loop that moves on while it holds the same job, or none. -/
theorem holder_setLoop_of_ne
    {loops : Nat → WorkerLoop M} {w : Nat} {loop : WorkerLoop M} {id : Uuid}
    (hold : ∀ pc, (loops w).held ≠ some (id, pc))
    (hnew : ∀ pc, loop.held ≠ some (id, pc))
    (w' : Nat) (pc : HeldPc M) :
    (Function.update loops w loop w').held = some (id, pc) ↔
      (loops w').held = some (id, pc) := by
  by_cases hw : w' = w
  · subst hw
    rw [Function.update_self]
    exact ⟨fun h => absurd h (hnew pc), fun h => absurd h (hold pc)⟩
  · rw [Function.update_of_ne hw]

/-- The holder of a job moves on, lets go of it, or gets it. -/
theorem holder_setLoop_self
    {loops : Nat → WorkerLoop M} {w : Nat} {loop : WorkerLoop M} {id : Uuid}
    {held held' : Option (Nat × HeldPc M)}
    (hview : ∀ w' pc, (loops w').held = some (id, pc) ↔ held = some (w', pc))
    (hheld : ∀ w' pc, held = some (w', pc) → w' = w)
    (hheld' : ∀ w' pc, held' = some (w', pc) ↔ w' = w ∧ loop.held = some (id, pc))
    (w' : Nat) (pc : HeldPc M) :
    (Function.update loops w loop w').held = some (id, pc) ↔
      held' = some (w', pc) := by
  rw [hheld']
  by_cases hw : w' = w
  · subst hw
    rw [Function.update_self]
    simp
  · rw [Function.update_of_ne hw, hview]
    constructor
    · intro h
      exact absurd (hheld w' pc h) hw
    · intro h
      exact absurd h.1 hw

end Bookkeeping

section Updates

variable {s : Server M} {id : Uuid} {L : Life M}

theorem View.setCall
    (h : View s id L)
    (stage : Stage M)
    (hrequests : L.stage.requests = stage.requests)
    (hholder : L.stage.holder = stage.holder) :
    View (s.setCall id stage.call) id { L with stage := stage } where
  call := Function.update_self _ _ _
  requests := h.requests.trans hrequests
  holder := fun w pc => (h.holder w pc).trans (by rw [hholder])
  record := h.record
  submissions := h.submissions
  results := h.results
  effects := h.effects
  reads := h.reads

theorem View.endCall
    (h : View s id L)
    (record : JobRecord M) (ending : CallEnding)
    (hrequests : L.stage.requests = 0)
    (hholder : L.stage.holder = none) :
    View (s.endCall id record ending) id
      { L with stage := .settled record ending } where
  call := Function.update_self _ _ _
  requests := h.requests.trans hrequests
  holder := fun w pc => (h.holder w pc).trans (by rw [hholder]; rfl)
  record := h.record
  submissions := h.submissions
  results := h.results
  effects := h.effects
  reads := h.reads

theorem View.withJobs
    (h : View s id L)
    {jobs : JobMap M} {record : Option (JobRecord M)}
    (hrecord : jobs.get id = record) :
    View { s with jobs := jobs } id { L with record := record } where
  call := h.call
  requests := h.requests
  holder := h.holder
  record := hrecord
  submissions := h.submissions
  results := h.results
  effects := h.effects
  reads := h.reads

theorem View.withEffect
    (h : View s id L)
    {e : Effect M}
    (he : e.jobId = id) :
    View { s with effects := s.effects ++ [e] } id
      { L with effects := L.effects ++ [e] } where
  call := h.call
  requests := h.requests
  holder := h.holder
  record := h.record
  submissions := h.submissions
  results := h.results
  effects := by simp [h.effects, he]
  reads := h.reads

theorem View.appendSubmission
    (h : View s id L)
    {record : JobRecord M} (outcome : AppendOutcome)
    (hid : record.id = id) :
    View (s.appendSubmission (outcome.lines record)) id
      { L with submissions := L.submissions ++ outcome.lines record } where
  call := h.call
  requests := h.requests
  holder := h.holder
  record := h.record
  submissions := by
    simp [Server.appendSubmission, filter_lines outcome hid, h.submissions]
  results := h.results
  effects := h.effects
  reads := h.reads

theorem View.appendResult
    (h : View s id L)
    {record : JobRecord M} (outcome : AppendOutcome)
    (hid : record.id = id) :
    View (s.appendResult (outcome.lines record)) id
      { L with results := L.results ++ outcome.lines record } where
  call := h.call
  requests := h.requests
  holder := h.holder
  record := h.record
  submissions := h.submissions
  results := by
    simp [Server.appendResult, filter_lines outcome hid, h.results]
  effects := h.effects
  reads := h.reads

/-- The queue gets the request of a job none of whose requests it held. -/
theorem View.enqueue
    (h : View s id L)
    {request : JobRequest}
    (hid : request.id = id)
    (record : JobRecord M)
    (hrecord : record.id = id)
    (hrequests : L.stage.requests = 0)
    (hholder : L.stage.holder = none) :
    View
      { s.endCall id record (Stage.accepted id) with
        queue := s.queue ++ [request] }
      id { L with stage := .queued record } where
  call := by
    show Function.update s.calls id _ id = _
    rw [Function.update_self, Stage.call, hrecord]
  requests := by
    have hcount := h.requests
    rw [hrequests] at hcount
    simp [List.countP_append, hcount, hid, Stage.requests]
  holder := fun w pc => (h.holder w pc).trans (by rw [hholder]; rfl)
  record := h.record
  submissions := h.submissions
  results := h.results
  effects := h.effects
  reads := h.reads

/-- Counters, the background tasks and the listener are no part of a job. -/
theorem View.congr
    {s' : Server M}
    (h : View s id L)
    (hcalls : s'.calls = s.calls) (hqueue : s'.queue = s.queue)
    (hloops : s'.loops = s.loops) (hjobs : s'.jobs = s.jobs)
    (hdisk : s'.disk = s.disk) (heffects : s'.effects = s.effects)
    (hreads : s'.reads = s.reads) :
    View s' id L where
  call := by rw [hcalls, h.call]
  requests := by rw [hqueue, h.requests]
  holder := by rw [hloops]; exact h.holder
  record := by rw [hjobs, h.record]
  submissions := by rw [hdisk, h.submissions]
  results := by rw [hdisk, h.results]
  effects := by rw [heffects, h.effects]
  reads := by rw [hreads, h.reads]

theorem View.withEffect_of_ne
    (h : View s id L)
    {e : Effect M}
    (he : e.jobId ≠ id) :
    View { s with effects := s.effects ++ [e] } id L where
  call := h.call
  requests := h.requests
  holder := h.holder
  record := h.record
  submissions := h.submissions
  results := h.results
  effects := by simp [h.effects, he]
  reads := h.reads

/-- A loop moves on without taking or giving up a job. -/
theorem View.setLoop_of_held_eq
    (h : View s id L)
    (w : Nat) (loop : WorkerLoop M)
    (hheld : loop.held = (s.loops w).held) :
    View (s.setLoop w loop) id L where
  call := h.call
  requests := h.requests
  holder := fun w' pc => by
    refine Iff.trans ?_ (h.holder w' pc)
    show (Function.update s.loops w loop w').held = _ ↔ _
    by_cases hw : w' = w
    · subst hw
      rw [Function.update_self, hheld]
    · rw [Function.update_of_ne hw]
  record := h.record
  submissions := h.submissions
  results := h.results
  effects := h.effects
  reads := h.reads

/-- A loop moves on with another job. -/
theorem View.setLoop_of_ne
    (h : View s id L)
    (w : Nat) (loop : WorkerLoop M)
    (hold : ∀ pc, (s.loops w).held ≠ some (id, pc))
    (hnew : ∀ pc, loop.held ≠ some (id, pc)) :
    View (s.setLoop w loop) id L where
  call := h.call
  requests := h.requests
  holder := fun w' pc =>
    (holder_setLoop_of_ne hold hnew w' pc).trans (h.holder w' pc)
  record := h.record
  submissions := h.submissions
  results := h.results
  effects := h.effects
  reads := h.reads

/-- A loop moves on with the job. -/
theorem View.setLoop_held
    (h : View s id L)
    (loop : WorkerLoop M) (pc' : HeldPc M)
    {w : Nat} {record : JobRecord M} {pc : HeldPc M}
    (hstage : L.stage = .held record w pc)
    (hnew : loop.held = some (id, pc')) :
    View (s.setLoop w loop) id { L with stage := .held record w pc' } where
  call := by
    have hcall := h.call
    rw [hstage] at hcall
    exact hcall
  requests := h.requests.trans (by rw [hstage]; rfl)
  holder := by
    refine holder_setLoop_self h.holder ?_ ?_
    · intro w' q hq
      rw [hstage] at hq
      cases hq
      rfl
    · intro w' q
      simp only [Stage.holder, hnew, Option.some.injEq, Prod.mk.injEq, true_and]
      exact and_congr_left' eq_comm
  record := h.record
  submissions := h.submissions
  results := h.results
  effects := h.effects
  reads := h.reads

/-- A loop is through with the job. -/
theorem View.setLoop_release
    (h : View s id L)
    (loop : WorkerLoop M)
    {w : Nat} {record : JobRecord M} {pc : HeldPc M}
    (hstage : L.stage = .held record w pc)
    (hnew : loop.held = none) :
    View (s.setLoop w loop) id
      { L with stage := .settled record (Stage.accepted record.id) } where
  call := by
    have hcall := h.call
    rw [hstage] at hcall
    exact hcall
  requests := h.requests.trans (by rw [hstage]; rfl)
  holder := by
    refine holder_setLoop_self h.holder ?_ ?_
    · intro w' q hq
      rw [hstage] at hq
      cases hq
      rfl
    · intro w' q
      simp [Stage.holder, hnew]
  record := h.record
  submissions := h.submissions
  results := h.results
  effects := h.effects
  reads := h.reads

/-- A loop takes the only request of the job from the queue. -/
theorem View.take
    (h : View s id L)
    {w : Nat} {loop : WorkerLoop M} {record : JobRecord M}
    {request : JobRequest} {rest : List JobRequest}
    (hqueue : s.queue = request :: rest)
    (hid : request.id = id)
    (hstage : L.stage = .queued record)
    (hnew : loop.held = some (id, .waiting)) :
    View { s.setLoop w loop with queue := rest } id
      { L with stage := .held record w .waiting } where
  call := by
    have hcall := h.call
    rw [hstage] at hcall
    exact hcall
  requests := by
    have hcount := h.requests
    rw [hstage, hqueue, List.countP_cons_of_pos (by simpa using hid)] at hcount
    exact Nat.succ.inj hcount
  holder := by
    refine holder_setLoop_self h.holder ?_ ?_
    · intro w' q hq
      rw [hstage] at hq
      cases hq
    · intro w' q
      simp only [Stage.holder, hnew, Option.some.injEq, Prod.mk.injEq, true_and]
      exact and_congr_left' eq_comm
  record := h.record
  submissions := h.submissions
  results := h.results
  effects := h.effects
  reads := h.reads

/-- A loop takes a request of another job from the queue. -/
theorem View.take_of_ne
    (h : View s id L)
    {w : Nat} {loop : WorkerLoop M}
    {request : JobRequest} {rest : List JobRequest}
    (hqueue : s.queue = request :: rest)
    (hid : request.id ≠ id)
    (hold : (s.loops w).held = none)
    (hnew : ∀ pc, loop.held ≠ some (id, pc)) :
    View { s.setLoop w loop with queue := rest } id L where
  call := h.call
  requests := by
    have hcount := h.requests
    rw [hqueue, List.countP_cons_of_neg (by simpa using hid)] at hcount
    exact hcount
  holder := fun w' pc =>
    (holder_setLoop_of_ne (by simp [hold]) hnew w' pc).trans (h.holder w' pc)
  record := h.record
  submissions := h.submissions
  results := h.results
  effects := h.effects
  reads := h.reads

end Updates

section CallSteps

variable {cfg : Config} {s s' : Server M} {lives : Uuid → Life M}

theorem SameAt.trans
    {s₁ s₂ s₃ : Server M} {id : Uuid}
    (h₁ : SameAt s₁ s₂ id)
    (h₂ : SameAt s₂ s₃ id) :
    SameAt s₁ s₃ id where
  call := h₂.call.trans h₁.call
  requests := h₂.requests.trans h₁.requests
  holder := fun w pc => (h₂.holder w pc).trans (h₁.holder w pc)
  record := h₂.record.trans h₁.record
  submissions := h₂.submissions.trans h₁.submissions
  results := h₂.results.trans h₁.results
  effects := h₂.effects.trans h₁.effects
  reads := h₂.reads.trans h₁.reads

theorem sameAt_setCall
    (s : Server M) {id other : Uuid} (call : EnqueueCall M)
    (hne : other ≠ id) :
    SameAt s (s.setCall id call) other where
  call := Function.update_of_ne hne _ _
  requests := rfl
  holder := fun _ _ => Iff.rfl
  record := rfl
  submissions := rfl
  results := rfl
  effects := rfl
  reads := rfl

theorem sameAt_endCall
    (s : Server M) {id other : Uuid} (record : JobRecord M) (ending : CallEnding)
    (hne : other ≠ id) :
    SameAt s (s.endCall id record ending) other where
  call := Function.update_of_ne hne _ _
  requests := rfl
  holder := fun _ _ => Iff.rfl
  record := rfl
  submissions := rfl
  results := rfl
  effects := rfl
  reads := rfl

theorem sameAt_appendSubmission
    (s : Server M) {other : Uuid} {record : JobRecord M} (outcome : AppendOutcome)
    (hne : record.id ≠ other) :
    SameAt s (s.appendSubmission (outcome.lines record)) other where
  call := rfl
  requests := rfl
  holder := fun _ _ => Iff.rfl
  record := rfl
  submissions := by
    simp [Server.appendSubmission, filter_lines_of_ne outcome hne]
  results := rfl
  effects := rfl
  reads := rfl

theorem sameAt_appendResult
    (s : Server M) {other : Uuid} {record : JobRecord M} (outcome : AppendOutcome)
    (hne : record.id ≠ other) :
    SameAt s (s.appendResult (outcome.lines record)) other where
  call := rfl
  requests := rfl
  holder := fun _ _ => Iff.rfl
  record := rfl
  submissions := rfl
  results := by
    simp [Server.appendResult, filter_lines_of_ne outcome hne]
  effects := rfl
  reads := rfl

/-- The stage of a job whose call is still running. -/
theorem Tracks.stage_of_live
    {id : Uuid} {sub : Submission M} {pc : CallPc}
    (htracks : Tracks s lives)
    (hcall : s.calls id = .live sub pc) :
    (lives id).stage = .calling sub pc :=
  Stage.eq_calling_of_call ((htracks id).1.call.symm.trans hcall)

theorem Tracks.sub_id
    {id : Uuid} {sub : Submission M} {pc : CallPc}
    (htracks : Tracks s lives)
    (hcall : s.calls id = .live sub pc) :
    sub.record.id = id := by
  have hok := (htracks id).2
  simp only [Life.Ok, htracks.stage_of_live hcall] at hok
  exact hok.1

/-- The steps of the call for `id` leave every other job alone. -/
theorem sameAt_callStep
    {id other : Uuid} {action : CallAction}
    (htracks : Tracks s lives)
    (hcase : Server.CallCase cfg s id action s')
    (hne : other ≠ id) :
    SameAt s s' other := by
  cases hcase with
  | check record hcall =>
      unfold Server.checkCall
      split
      · exact sameAt_endCall s record _ hne
      · split
        · exact sameAt_endCall s record _ hne
        · exact sameAt_setCall s _ hne
  | insert sub hcall =>
      refine (sameAt_setCall s (.live sub .appending) hne).trans ?_
      constructor <;> try rfl
      · exact fun _ _ => Iff.rfl
      · exact HashMap.get_insert_of_ne s.jobs sub.record hne
  | append sub outcome hcall =>
      have hid : sub.record.id ≠ other := by
        rw [htracks.sub_id hcall]
        exact hne.symm
      refine (sameAt_appendSubmission s outcome hid).trans ?_
      unfold Server.appendCall
      split
      · exact sameAt_setCall _ _ hne
      · exact sameAt_endCall _ _ _ hne
  | send sub hcall =>
      unfold Server.sendCall
      split
      · exact sameAt_setCall s _ hne
      · refine (sameAt_endCall s sub.record
          (.returned (.ok (queueResponse id))) hne).trans ?_
        constructor <;> try rfl
        · have hid : sub.request.id ≠ other := by
            rw [sub.request_id, htracks.sub_id hcall]
            exact hne.symm
          simp [Server.endCall, hid]
        · exact fun _ _ => Iff.rfl
        · simp [Server.endCall, Effect.jobId, hne.symm]
  | rollback sub reason hcall =>
      refine (sameAt_setCall s (.live sub (.persisting reason)) hne).trans ?_
      constructor <;> try rfl
      · exact fun _ _ => Iff.rfl
      · exact HashMap.get_remove_of_ne s.jobs hne
  | persist sub reason now outcome hcall =>
      have hid : (sub.record.failedWith now reason.rollbackError).id ≠ other := by
        rw [JobRecord.failedWith_id, htracks.sub_id hcall]
        exact hne.symm
      exact (sameAt_appendResult s outcome hid).trans (sameAt_endCall _ _ _ hne)
  | drop sub pc now written hcall hpc =>
      have hid : sub.record.id ≠ other := by
        rw [htracks.sub_id hcall]
        exact hne.symm
      unfold Server.dropCall
      cases pc with
      | inserting => exact sameAt_endCall _ _ _ hne
      | appending =>
          exact (sameAt_appendSubmission s (.failed written) hid).trans
            (sameAt_endCall _ _ _ hne)
      | sending => exact sameAt_endCall _ _ _ hne
      | rollingBack reason => exact sameAt_endCall _ _ _ hne
      | persisting reason =>
          have hid' : (sub.record.failedWith now reason.rollbackError).id ≠ other := hid
          exact (sameAt_appendResult s (.failed written) hid').trans
            (sameAt_endCall _ _ _ hne)

/-- The step of the call for `id`, seen from `id`. -/
theorem callStep_self
    {id : Uuid} {action : CallAction}
    (htracks : Tracks s lives)
    (hcase : Server.CallCase cfg s id action s') :
    ∃ L', View s' id L' ∧ LifeStep cfg id (.call id action) (lives id) L' := by
  have hview := (htracks id).1
  have hok := (htracks id).2
  cases hcase with
  | check record hcall =>
      have hstage := Stage.eq_checking_of_call (hview.call.symm.trans hcall)
      unfold Server.checkCall
      split
      case h_1 err herr =>
          have hpersist : err ≠ .persist := by
            obtain ⟨source, rfl⟩ := Submission.error_of_ofRecord herr
            simp
          exact ⟨_, hview.endCall record _ (by rw [hstage]; rfl) (by rw [hstage]; rfl),
            .reject record err hpersist hstage⟩
      case h_2 sub hsub =>
          have hrecord := Submission.record_of_ofRecord hsub
          split
          · exact ⟨_, hview.endCall record _ (by rw [hstage]; rfl) (by rw [hstage]; rfl),
              .reject record .queueFull (by simp) hstage⟩
          · exact ⟨_, hview.setCall (.calling sub .inserting) (by rw [hstage]; rfl)
              (by rw [hstage]; rfl), .enter record sub hrecord hstage⟩
  | insert sub hcall =>
      have hstage := htracks.stage_of_live hcall
      refine ⟨_, ?_, .insert sub hstage⟩
      exact (hview.setCall (.calling sub .appending) (by rw [hstage]; rfl)
        (by rw [hstage]; rfl)).withJobs (HashMap.get_insert_self s.jobs id sub.record)
  | append sub outcome hcall =>
      have hstage := htracks.stage_of_live hcall
      have hview' := hview.appendSubmission outcome (htracks.sub_id hcall)
      unfold Server.appendCall
      split
      case isTrue hisOk =>
          refine ⟨_, ?_, .append sub outcome hisOk hstage⟩
          exact hview'.setCall (.calling sub .sending) (by rw [hstage]; rfl)
            (by rw [hstage]; rfl)
      case isFalse hfailed =>
          refine ⟨_, ?_, .appendFailed sub outcome (by simpa using hfailed) hstage⟩
          exact hview'.endCall sub.record _ (by rw [hstage]; rfl) (by rw [hstage]; rfl)
  | send sub hcall =>
      have hstage := htracks.stage_of_live hcall
      unfold Server.sendCall
      split
      case h_1 reason hreason =>
          exact ⟨_, hview.setCall (.calling sub (.rollingBack reason))
            (by rw [hstage]; rfl) (by rw [hstage]; rfl), .refuse sub reason hstage⟩
      case h_2 hnone =>
          have hid := htracks.sub_id hcall
          refine ⟨_, ?_, .send sub hstage⟩
          exact (hview.enqueue (sub.request_id.trans hid) sub.record hid
            (by rw [hstage]; rfl) (by rw [hstage]; rfl)).withEffect (e := .accepted id) rfl
  | rollback sub reason hcall =>
      have hstage := htracks.stage_of_live hcall
      refine ⟨_, ?_, .rollback sub reason hstage⟩
      exact (hview.setCall (.calling sub (.persisting reason)) (by rw [hstage]; rfl)
        (by rw [hstage]; rfl)).withJobs (HashMap.get_remove_self s.jobs id)
  | persist sub reason now outcome hcall =>
      have hstage := htracks.stage_of_live hcall
      have hid : (sub.record.failedWith now reason.rollbackError).id = id :=
        htracks.sub_id hcall
      refine ⟨_, ?_, .persist sub reason now outcome
        (if outcome.isOk then reason.toEnqueueError else .persist) hstage⟩
      exact (hview.appendResult outcome hid).endCall sub.record _
        (by rw [hstage]; rfl) (by rw [hstage]; rfl)
  | drop sub pc now written hcall hpc =>
      have hstage := htracks.stage_of_live hcall
      have hid := htracks.sub_id hcall
      have hrequests : (lives id).stage.requests = 0 := by rw [hstage]; rfl
      have hholder : (lives id).stage.holder = none := by rw [hstage]; rfl
      cases pc with
      | inserting =>
          exact ⟨_, hview.endCall sub.record .dropped hrequests hholder,
            .drop sub .inserting now written (Or.inl rfl) hstage⟩
      | appending =>
          exact ⟨_, (hview.appendSubmission (.failed written) hid).endCall
            sub.record .dropped hrequests hholder,
            .dropAppending sub now written hstage⟩
      | sending =>
          cases hpc
      | rollingBack reason =>
          exact ⟨_, hview.endCall sub.record .dropped hrequests hholder,
            .drop sub (.rollingBack reason) now written (Or.inr ⟨reason, rfl⟩) hstage⟩
      | persisting reason =>
          have hid' : (sub.record.failedWith now reason.rollbackError).id = id := hid
          exact ⟨_, (hview.appendResult (.failed written) hid').endCall
            sub.record .dropped hrequests hholder,
            .dropPersisting sub reason now written hstage⟩

end CallSteps

section WorkerSteps

variable {cfg : Config} {s s' : Server M} {lives : Uuid → Life M}

/-- The stage of a job that a worker holds. -/
theorem Tracks.stage_of_held
    {id : Uuid} {w : Nat} {pc : HeldPc M}
    (htracks : Tracks s lives)
    (hheld : (s.loops w).held = some (id, pc)) :
    ∃ record, (lives id).stage = .held record w pc ∧ record.id = id := by
  obtain ⟨record, hstage⟩ :=
    Stage.exists_held_of_holder (((htracks id).1.holder w pc).mp hheld)
  have hok := (htracks id).2
  simp only [Life.Ok, hstage] at hok
  exact ⟨record, hstage, hok.1⟩

/-- The map entry of a job carries the id of the job. -/
theorem Tracks.record_id
    {id : Uuid} {record : JobRecord M}
    (htracks : Tracks s lives)
    (hrecord : s.jobs.get id = some record) :
    record.id = id :=
  (htracks id).2.record_id ((htracks id).1.record.symm.trans hrecord)

/-- The locked section of `mark_running`, seen from each job. -/
theorem markRunning_tracks
    {w : Nat} {request : JobRequest} (now : OffsetDateTime)
    (htracks : Tracks s lives)
    (hloop : s.loops w = .started request)
    (id : Uuid) :
    ∃ L', View (s.markRunning w request now) id L' ∧
      LifeStep cfg id (.worker w (.markRunning now)) (lives id) L' := by
  have hview := (htracks id).1
  have hheld : (s.loops w).held = some (request.id, .waiting) := by
    rw [hloop]
    rfl
  by_cases hid : request.id = id
  · subst hid
    obtain ⟨record, hstage, -⟩ := htracks.stage_of_held hheld
    have hview' := hview.setLoop_held (.inferring request) .executing hstage rfl
    refine ⟨_, ?_, .markRunning record w now hstage⟩
    unfold Server.markRunning
    split
    case h_1 current hcurrent =>
        refine hview'.withJobs ?_
        rw [HashMap.get_insert_self, ← hview.record, hcurrent]
        rfl
    case h_2 hnone =>
        refine hview'.withJobs ?_
        rw [← hview.record, hnone]
        rfl
  · have hview' := hview.setLoop_of_ne w (.inferring request)
      (by simp [hheld, hid]) (by simp [WorkerLoop.held, hid])
    refine ⟨_, ?_, .stutter _ _⟩
    unfold Server.markRunning
    split
    case h_1 current hcurrent =>
        refine hview'.withJobs ?_
        rw [HashMap.get_insert_of_ne _ _ (Ne.symm hid)]
        exact hview.record
    case h_2 hnone =>
        exact hview'

/-- The first locked section of `finish_job`, seen from each job. -/
theorem publishLoop_tracks
    {w : Nat} {request : JobRequest} {result : Except String M} {restart : Bool}
    (now : OffsetDateTime)
    (htracks : Tracks s lives)
    (hloop : s.loops w = .finishing request [] result restart)
    (id : Uuid) :
    ∃ L', View (s.publishLoop w request result restart now) id L' ∧
      LifeStep cfg id (.worker w (.publish now)) (lives id) L' := by
  have hview := (htracks id).1
  have hheld : (s.loops w).held = some (request.id, .executing) := by
    rw [hloop]
    rfl
  unfold Server.publishLoop
  split
  case h_1 current hcurrent =>
      have hcurrentId := htracks.record_id hcurrent
      have hfinalId : (current.finishedWith now result).id = request.id := by
        rw [finishedWith_id, hcurrentId]
      by_cases hid : request.id = id
      · subst hid
        obtain ⟨record, hstage, -⟩ := htracks.stage_of_held hheld
        refine ⟨_, ?_, .publish record current w now result hstage
          (hview.record.symm.trans hcurrent)⟩
        have hview' := hview.setLoop_held
          (.appending (current.finishedWith now result) restart)
          (.appending (current.finishedWith now result)) hstage
          (by simp [WorkerLoop.held, hcurrentId])
        exact (hview'.withJobs (HashMap.get_insert_self s.jobs request.id
          (current.finishedWith now result))).withEffect
            (e := .finished (current.finishedWith now result)) hfinalId
      · refine ⟨_, ?_, .stutter _ _⟩
        have hview' := hview.setLoop_of_ne w
          (.appending (current.finishedWith now result) restart)
          (by simp [hheld, hid]) (by simp [WorkerLoop.held, hcurrentId, hid])
        have hrecord : (s.jobs.insert request.id
            (current.finishedWith now result)).get id = (lives id).record :=
          (HashMap.get_insert_of_ne s.jobs _ (Ne.symm hid)).trans hview.record
        refine (hview'.withJobs hrecord).withEffect_of_ne
          (e := .finished (current.finishedWith now result)) ?_
        show (current.finishedWith now result).id ≠ id
        rw [hfinalId]
        exact hid
  case h_2 hnone =>
      by_cases hid : request.id = id
      · subst hid
        obtain ⟨record, hstage, -⟩ := htracks.stage_of_held hheld
        refine ⟨_, ?_, .miss record w now hstage (hview.record.symm.trans hnone)⟩
        exact (hview.setLoop_release (WorkerLoop.afterRequest restart) hstage
          (WorkerLoop.held_afterRequest restart)).withEffect
            (e := .missing request.id) rfl
      · refine ⟨_, ?_, .stutter _ _⟩
        exact (hview.setLoop_of_ne w (WorkerLoop.afterRequest restart)
          (by simp [hheld, hid]) (by simp)).withEffect_of_ne
            (e := .missing request.id) (by simpa [Effect.jobId] using hid)

/-- The append of `finish_job`, seen from each job. -/
theorem appendLoop_tracks
    {w : Nat} {final : JobRecord M} {restart : Bool} (outcome : AppendOutcome)
    (htracks : Tracks s lives)
    (hloop : s.loops w = .appending final restart)
    (id : Uuid) :
    ∃ L', View (s.appendLoop w final restart outcome) id L' ∧
      LifeStep cfg id (.worker w (.append outcome)) (lives id) L' := by
  have hview := (htracks id).1
  have hheld : (s.loops w).held = some (final.id, .appending final) := by
    rw [hloop]
    rfl
  by_cases hid : final.id = id
  · subst hid
    obtain ⟨record, hstage, -⟩ := htracks.stage_of_held hheld
    refine ⟨_, ?_, .appendResult record final w outcome hstage⟩
    exact ((hview.appendResult outcome rfl).setLoop_held
      (.notifying final restart) (.notifying final) hstage
      rfl).withEffect (e := .appended final outcome) rfl
  · refine ⟨_, ?_, .stutter _ _⟩
    exact ((hview.of_sameAt (sameAt_appendResult s outcome hid)).setLoop_of_ne
      w (.notifying final restart)
      (by simp [Server.appendResult, hheld, hid])
      (by simp [WorkerLoop.held, hid])).withEffect_of_ne
        (e := .appended final outcome) (by simpa [Effect.jobId] using hid)

/-- The webhook call, seen from each job. -/
theorem notifyLoop_tracks
    {w : Nat} {final : JobRecord M} {restart : Bool} (env : DeliveryEnv)
    (htracks : Tracks s lives)
    (hloop : s.loops w = .notifying final restart)
    (id : Uuid) :
    ∃ L', View (s.notifyLoop cfg w final restart env) id L' ∧
      LifeStep cfg id (.worker w (.notify env)) (lives id) L' := by
  have hview := (htracks id).1
  have hheld : (s.loops w).held = some (final.id, .notifying final) := by
    rw [hloop]
    rfl
  by_cases hid : final.id = id
  · subst hid
    obtain ⟨record, hstage, -⟩ := htracks.stage_of_held hheld
    refine ⟨_, ?_, .notify record final w env hstage⟩
    exact ((hview.setLoop_held (.cleaning final restart)
      (.cleaning final) hstage rfl).withEffect
        (e := .webhook final _) rfl).congr rfl rfl rfl rfl rfl rfl rfl
  · refine ⟨_, ?_, .stutter _ _⟩
    exact ((hview.setLoop_of_ne w (.cleaning final restart)
      (by simp [hheld, hid]) (by simp [WorkerLoop.held, hid])).withEffect_of_ne
        (e := .webhook final ((WebhookClient.fromConfig cfg).deliver env final))
        (by simpa [Effect.jobId] using hid)).congr rfl rfl rfl rfl rfl rfl rfl

/-- The cleanup, seen from each job. -/
theorem cleanupLoop_tracks
    {w : Nat} {final : JobRecord M} {restart : Bool} (removal : RemoveFile)
    (htracks : Tracks s lives)
    (hloop : s.loops w = .cleaning final restart)
    (id : Uuid) :
    ∃ L', View (s.cleanupLoop cfg w final restart removal) id L' ∧
      LifeStep cfg id (.worker w (.cleanup removal)) (lives id) L' := by
  have hview := (htracks id).1
  have hheld : (s.loops w).held = some (final.id, .cleaning final) := by
    rw [hloop]
    rfl
  by_cases hid : final.id = id
  · subst hid
    obtain ⟨record, hstage, -⟩ := htracks.stage_of_held hheld
    refine ⟨_, ?_, .cleanup record final w removal hstage⟩
    exact ((hview.setLoop_release (.retaining restart) hstage rfl).withEffect
        (e := .cleanup final _) rfl).congr rfl rfl rfl rfl rfl rfl rfl
  · refine ⟨_, ?_, .stutter _ _⟩
    exact ((hview.setLoop_of_ne w (.retaining restart)
      (by simp [hheld, hid]) (by simp [WorkerLoop.held])).withEffect_of_ne
        (e := .cleanup final (cleanupJobArtifacts cfg removal final))
        (by simpa [Effect.jobId] using hid)).congr rfl rfl rfl rfl rfl rfl rfl

/-- A worker's step, seen from each job. -/
theorem workerStep_tracks
    {w : Nat} {action : WorkerAction M}
    (htracks : Tracks s lives)
    (hcase : Server.WorkerCase cfg s w action s')
    (id : Uuid) :
    ∃ L', View s' id L' ∧ LifeStep cfg id (.worker w action) (lives id) L' := by
  have hview := (htracks id).1
  cases hcase with
  | initWorker outcome hloop =>
      refine ⟨_, ?_, .stutter _ _⟩
      cases outcome with
      | ready elapsedMs =>
          exact (hview.setLoop_of_held_eq w .loaded
            (by rw [hloop]; rfl)).congr rfl rfl rfl rfl rfl rfl rfl
      | failed =>
          exact (hview.setLoop_of_held_eq w .leaving
            (by rw [hloop]; rfl)).congr rfl rfl rfl rfl rfl rfl rfl
      | panicked =>
          exact (hview.setLoop_of_held_eq w .leaving
            (by rw [hloop]; rfl)).congr rfl rfl rfl rfl rfl rfl rfl
  | markReady hloop =>
      exact ⟨_, (hview.setLoop_of_held_eq w .receiving
        (by rw [hloop]; rfl)).congr rfl rfl rfl rfl rfl rfl rfl, .stutter _ _⟩
  | recv request rest hloop hqueue =>
      by_cases hid : request.id = id
      · have hcount : (lives id).stage.requests ≠ 0 := by
          rw [← hview.requests, hqueue, List.countP_cons_of_pos (by simpa using hid)]
          exact Nat.succ_ne_zero _
        obtain ⟨record, hstage⟩ := Stage.exists_queued_of_requests hcount
        refine ⟨_, ?_, .recv record w hstage⟩
        exact hview.take hqueue hid hstage (by simp [WorkerLoop.held, hid])
      · refine ⟨_, ?_, .stutter _ _⟩
        exact hview.take_of_ne hqueue hid (by rw [hloop]; rfl)
          (by simp [WorkerLoop.held, hid])
  | recvClosed hloop hqueue hsenders =>
      exact ⟨_, hview.setLoop_of_held_eq w _ (by rw [hloop]; rfl), .stutter _ _⟩
  | recordStarted request hloop =>
      exact ⟨_, (hview.setLoop_of_held_eq w (.started request)
        (by rw [hloop]; rfl)).congr rfl rfl rfl rfl rfl rfl rfl, .stutter _ _⟩
  | markRunning request now hloop => exact markRunning_tracks now htracks hloop id
  | infer request elapsedMs outcome hloop hpossible =>
      refine ⟨_, ?_, .stutter _ _⟩
      let report := handleInferenceResult cfg elapsedMs outcome
      exact (hview.setLoop_of_held_eq w
        (.finishing request report.updates report.result report.restart)
        (by rw [hloop]; rfl)).congr rfl rfl rfl rfl rfl rfl rfl
  | count request update updates result restart hloop =>
      exact ⟨_, (hview.setLoop_of_held_eq w
        (.finishing request updates result restart)
        (by rw [hloop]; rfl)).congr rfl rfl rfl rfl rfl rfl rfl, .stutter _ _⟩
  | publish request result restart now hloop =>
      exact publishLoop_tracks now htracks hloop id
  | append final restart outcome hloop =>
      exact appendLoop_tracks outcome htracks hloop id
  | notify final restart env hloop => exact notifyLoop_tracks env htracks hloop id
  | cleanup final restart removal hloop =>
      exact cleanupLoop_tracks removal htracks hloop id
  | retain restart order hloop =>
      have hview' := hview.setLoop_of_held_eq w (WorkerLoop.afterRequest restart)
        (by rw [hloop, WorkerLoop.held_afterRequest]; rfl)
      rcases retainRecentJobs_get order s.jobs cfg.jobRetentionLimit id with hkept | hgone
      · refine ⟨_, ?_, .stutter _ _⟩
        exact hview'.withJobs (hkept.trans hview.record)
      · exact ⟨_, hview'.withJobs hgone, .evict w order⟩
  | markStopped restart hloop =>
      refine ⟨_, ?_, .stutter _ _⟩
      exact (hview.setLoop_of_held_eq w
        (if restart then .initializing else .leaving)
        (by rw [hloop]; cases restart <;> rfl)).congr rfl rfl rfl rfl rfl rfl rfl
  | leave hloop =>
      exact ⟨_, hview.setLoop_of_held_eq w _ (by rw [hloop]; rfl), .stutter _ _⟩

end WorkerSteps

section ServerSteps

variable {cfg : Config} {s s' : Server M} {lives : Uuid → Life M}

theorem submit_tracks
    {record : JobRecord M}
    (htracks : Tracks s lives)
    (hstep : s.submit record = some s')
    (id : Uuid) :
    ∃ L', View s' id L' ∧ LifeStep cfg id (.submit record) (lives id) L' := by
  have hview := (htracks id).1
  unfold Server.submit at hstep
  split at hstep
  case h_1 hserving hcall =>
      cases hstep
      by_cases hid : record.id = id
      · subst hid
        have hstage := Stage.eq_fresh_of_call (hview.call.symm.trans hcall)
        refine ⟨_, ?_, .submit record rfl hstage⟩
        exact ((hview.setCall (.checking record) (by rw [hstage]; rfl)
          (by rw [hstage]; rfl)).withEffect (e := .submitted record) rfl).congr
            rfl rfl rfl rfl rfl rfl rfl
      · refine ⟨_, ?_, .stutter _ _⟩
        exact ((hview.of_sameAt (sameAt_setCall s (.checking record)
          (Ne.symm hid))).withEffect_of_ne (e := .submitted record) hid).congr
            rfl rfl rfl rfl rfl rfl rfl
  case h_2 =>
      cases hstep

theorem read_tracks
    (htracks : Tracks s lives)
    (readId id : Uuid) :
    ∃ L', View (s.read readId) id L' ∧ LifeStep cfg id (.read readId) (lives id) L' := by
  have hview := (htracks id).1
  have hresponse : getJob s.jobs id = response (lives id).record := by
    rw [← hview.record]
    rfl
  by_cases hid : readId = id
  · subst hid
    refine ⟨_, ?_, .read⟩
    exact
      { call := hview.call
        requests := hview.requests
        holder := hview.holder
        record := hview.record
        submissions := hview.submissions
        results := hview.results
        effects := hview.effects
        reads := by simp [Server.read, hview.reads, hresponse] }
  · refine ⟨_, ?_, .stutter _ _⟩
    exact
      { call := hview.call
        requests := hview.requests
        holder := hview.holder
        record := hview.record
        submissions := hview.submissions
        results := hview.results
        effects := hview.effects
        reads := by simp [Server.read, hid, hview.reads] }

/-- **Refinement.** One step of a server process is one step in every life. -/
theorem step_lifeStep
    {a : Action M}
    (htracks : Tracks s lives)
    (hstep : s.step cfg a = some s')
    (id : Uuid) :
    ∃ L', View s' id L' ∧ LifeStep cfg id a (lives id) L' := by
  have hview := (htracks id).1
  cases a with
  | submit record =>
      exact submit_tracks htracks hstep id
  | call callId action =>
      have hcase := Server.callStep_cases hstep
      by_cases hid : id = callId
      · subst hid
        exact callStep_self htracks hcase
      · exact ⟨_, hview.of_sameAt (sameAt_callStep htracks hcase hid), .stutter _ _⟩
  | worker w action =>
      simp only [Server.step] at hstep
      split at hstep
      · exact workerStep_tracks htracks (Server.workerStep_cases hstep) id
      · cases hstep
  | read readId =>
      cases hstep
      exact read_tracks htracks readId id
  | shutdown =>
      simp only [Server.step] at hstep
      split at hstep
      · cases hstep
        exact ⟨_, hview.congr rfl rfl rfl rfl rfl rfl rfl, .stutter _ _⟩
      · cases hstep
  | backgroundDone w jobId =>
      simp only [Server.step] at hstep
      split at hstep
      · cases hstep
        exact ⟨_, hview.congr rfl rfl rfl rfl rfl rfl rfl, .stutter _ _⟩
      · cases hstep

/-- One step keeps every job tracked. -/
theorem step_tracks
    {a : Action M}
    (htracks : Tracks s lives)
    (hstep : s.step cfg a = some s') :
    ∃ lives', Tracks s' lives' ∧ ∀ id, LifeStep cfg id a (lives id) (lives' id) := by
  choose lives' hview hlife using fun id => step_lifeStep htracks hstep id
  exact ⟨lives', fun id => ⟨hview id, (hlife id).ok (htracks id).2⟩, hlife⟩

end ServerSteps

section ServerRuns

open Runs

variable {cfg : Config}

/-- The state in which `load_jobs` and `start_workers` leave a process: all ids
that are in the map, in a file or in a log belong to earlier processes, and every
loaded record is terminal and stored under its own id. -/
structure Started (cfg : Config) (s : Server M) : Prop where
  exists_start : ∃ jobs disk effects reads used,
    s = Server.start cfg jobs disk effects reads used
  keyed : HashMap.Keyed JobRecord.id s.jobs
  terminal : ∀ id record, s.jobs.get id = some record → record.Terminal
  unknown : ∀ id, s.calls id = .fresh →
    s.jobs.get id = none ∧
    (∀ r ∈ s.disk.submissions, r.id ≠ id) ∧
    (∀ r ∈ s.disk.results, r.id ≠ id) ∧
    (∀ e ∈ s.effects, e.jobId ≠ id)

theorem Started.tracks
    {s : Server M}
    (hstarted : Started cfg s) :
    ∃ lives, Tracks s lives ∧
      ∀ id, (lives id).stage = .fresh ∨ (lives id).stage = .past := by
  obtain ⟨jobs, disk, effects, reads, used, rfl⟩ := hstarted.exists_start
  refine ⟨fun id =>
    { stage := if used id then .past else .fresh
      record := jobs.get id
      submissions := disk.submissions.filter (fun r => decide (r.id = id))
      results := disk.results.filter (fun r => decide (r.id = id))
      effects := effects.filter (fun e => decide (e.jobId = id))
      reads := (reads.filter (fun read => decide (read.1 = id))).map Prod.snd }, ?_, ?_⟩
  · intro id
    constructor
    · constructor <;> try rfl
      · cases hused : used id <;> simp [Server.start, hused, Stage.call]
      · cases hused : used id <;> simp [Server.start, hused, Stage.requests]
      · cases hused : used id <;>
          simp [Server.start, hused, Stage.holder, WorkerLoop.held]
    · cases hused : used id with
      | true =>
          simp only [Life.Ok, hused, if_true]
          intro record hrecord
          exact ⟨hstarted.keyed id record hrecord, hstarted.terminal id record hrecord⟩
      | false =>
          have hfresh : (Server.start cfg jobs disk effects reads used).calls id = .fresh := by
            simp [Server.start, hused]
          obtain ⟨hrecord, hsub, hres, heff⟩ := hstarted.unknown id hfresh
          simp only [Life.Ok, hused, Bool.false_eq_true, if_false]
          refine ⟨hrecord, ?_, ?_, ?_⟩
          · simpa [Server.start] using hsub
          · simpa [Server.start] using hres
          · simpa [Server.start] using heff
  · intro id
    cases hused : used id
    · exact Or.inl (by simp [hused])
    · exact Or.inr (by simp [hused])

/-- A process over an empty data directory. -/
def Server.initial (cfg : Config) : Server M :=
  Server.start cfg ∅ { submissions := [], results := [] } [] [] (fun _ => false)

theorem started_initial (cfg : Config) :
    Started cfg (Server.initial cfg : Server M) where
  exists_start := ⟨_, _, _, _, _, rfl⟩
  keyed := HashMap.Keyed.empty
  terminal := by
    intro id record hrecord
    simp [Server.initial, Server.start] at hrecord
  unknown := by
    intro id _
    simp [Server.initial, Server.start]

/-- **Run rule.** What every admitted step preserves in each life holds after
every run. -/
theorem run_tracks
    {ok : Server M → Action M → Prop}
    {P : Uuid → Life M → Prop}
    (hpres : ∀ s a s' lives lives' id,
      ok s a → s.step cfg a = some s' → Tracks s lives → Tracks s' lives' →
      LifeStep cfg id a (lives id) (lives' id) → P id (lives id) → P id (lives' id))
    {s s' : Server M} {lives : Uuid → Life M}
    (hrun : Run (Server.step cfg) ok s s')
    (htracks : Tracks s lives)
    (hstart : ∀ id, P id (lives id)) :
    ∃ lives', Tracks s' lives' ∧ ∀ id, P id (lives' id) := by
  refine hrun.invariant (I := fun s => ∃ lives, Tracks s lives ∧ ∀ id, P id (lives id))
    ?_ ⟨lives, htracks, hstart⟩
  rintro s a s' hok hstep ⟨lives, htracks, hP⟩
  obtain ⟨lives', htracks', hlife⟩ := step_tracks htracks hstep
  exact ⟨lives', htracks', fun id =>
    hpres s a s' lives lives' id hok hstep htracks htracks' (hlife id) (hP id)⟩

end ServerRuns

section Loops

open Runs

variable {cfg : Config} {s₀ s s' : Server M}

/-- Loops beyond the configured number of workers do not exist. -/
def Server.IdleBeyond (cfg : Config) (s : Server M) : Prop :=
  ∀ w, cfg.workers ≤ w → (s.loops w).held = none

theorem allReturned_iff :
    s.allReturned cfg = true ↔ ∀ w < cfg.workers, (s.loops w).isReturned = true := by
  simp [Server.allReturned]

/-- A call or a read moves no worker. -/
theorem callStep_loops
    {id : Uuid} {action : CallAction}
    (hcase : Server.CallCase cfg s id action s') :
    s'.loops = s.loops := by
  cases hcase with
  | check record hcall =>
      unfold Server.checkCall
      split
      · rfl
      · split <;> rfl
  | insert sub hcall => rfl
  | append sub outcome hcall =>
      unfold Server.appendCall
      split <;> rfl
  | send sub hcall =>
      unfold Server.sendCall
      split <;> rfl
  | rollback sub reason hcall => rfl
  | persist sub reason now outcome hcall => rfl
  | drop sub pc now written hcall hpc =>
      cases pc <;> rfl

/-- A step of worker `w` puts loop `w` at a new position and moves no other. -/
theorem workerStep_loops
    {w : Nat} {action : WorkerAction M}
    (hcase : Server.WorkerCase cfg s w action s') :
    ∃ loop, s'.loops = Function.update s.loops w loop ∧
      (loop.isReturned = true → action = .leave) := by
  cases hcase with
  | initWorker outcome hloop =>
      cases outcome with
      | ready elapsedMs => exact ⟨.loaded, rfl, nofun⟩
      | failed => exact ⟨.leaving, rfl, nofun⟩
      | panicked => exact ⟨.leaving, rfl, nofun⟩
  | markReady hloop => exact ⟨.receiving, rfl, nofun⟩
  | recv request rest hloop hqueue => exact ⟨.received request, rfl, nofun⟩
  | recvClosed hloop hqueue hsenders => exact ⟨.stopping false, rfl, nofun⟩
  | recordStarted request hloop => exact ⟨.started request, rfl, nofun⟩
  | markRunning request now hloop =>
      refine ⟨.inferring request, ?_, nofun⟩
      unfold Server.markRunning
      split <;> rfl
  | infer request elapsedMs outcome hloop hpossible => exact ⟨_, rfl, nofun⟩
  | count request update updates result restart hloop => exact ⟨_, rfl, nofun⟩
  | publish request result restart now hloop =>
      unfold Server.publishLoop
      split
      · exact ⟨_, rfl, nofun⟩
      · refine ⟨WorkerLoop.afterRequest restart, rfl, ?_⟩
        cases restart <;> nofun
  | append record restart outcome hloop => exact ⟨_, rfl, nofun⟩
  | notify record restart env hloop => exact ⟨_, rfl, nofun⟩
  | cleanup record restart removal hloop => exact ⟨_, rfl, nofun⟩
  | retain restart order hloop =>
      refine ⟨WorkerLoop.afterRequest restart, rfl, ?_⟩
      cases restart <;> nofun
  | markStopped restart hloop =>
      refine ⟨if restart then .initializing else .leaving, rfl, ?_⟩
      cases restart <;> nofun
  | leave hloop => exact ⟨.returned, rfl, fun _ => rfl⟩

/-- A step moves no loop beyond the configured number of workers. -/
theorem step_idleBeyond
    {a : Action M}
    (hstep : s.step cfg a = some s')
    (hidle : s.IdleBeyond cfg) :
    s'.IdleBeyond cfg := by
  have hsame : s'.loops = s.loops → s'.IdleBeyond cfg := by
    intro hloops w hw
    rw [hloops]
    exact hidle w hw
  cases a with
  | worker w action =>
      simp only [Server.step] at hstep
      split at hstep
      case isFalse => cases hstep
      case isTrue hw =>
          obtain ⟨loop, hloops, -⟩ := workerStep_loops (Server.workerStep_cases hstep)
          intro w' hw'
          rw [hloops, Function.update_of_ne (by omega)]
          exact hidle w' hw'
  | submit record =>
      simp only [Server.step, Server.submit] at hstep
      split at hstep <;> cases hstep
      exact hsame rfl
  | call id action =>
      exact hsame (callStep_loops (Server.callStep_cases hstep))
  | read id =>
      cases hstep
      exact hsame rfl
  | shutdown =>
      simp only [Server.step] at hstep
      split at hstep <;> cases hstep
      exact hsame rfl
  | backgroundDone w id =>
      simp only [Server.step] at hstep
      split at hstep <;> cases hstep
      exact hsame rfl

theorem Started.idleBeyond
    (hstarted : Started cfg s) :
    s.IdleBeyond cfg := by
  obtain ⟨jobs, disk, effects, reads, used, rfl⟩ := hstarted.exists_start
  intro w _
  rfl

theorem run_idleBeyond
    {ok : Server M → Action M → Prop}
    (hstarted : Started cfg s₀)
    (hrun : Run (Server.step cfg) ok s₀ s) :
    s.IdleBeyond cfg :=
  hrun.invariant (fun _ _ _ _ hstep hidle => step_idleBeyond hstep hidle) hstarted.idleBeyond

end Loops
end FlorenceServer
