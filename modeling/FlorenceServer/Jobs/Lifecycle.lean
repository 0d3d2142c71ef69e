import FlorenceServer.Jobs.Worker

/-!
# The life of one job

The abstract view of a server process: what it knows about a single id.  A job
is in one stage at a time, so the request of a job is in the queue, in the hands
of one worker, or nowhere.  `LifeStep` lists everything that can happen to a job
and `Life.Ok` what is true of it in each stage; `Jobs.Tracking` shows that a
server process is exactly such a life for every id.
-/

namespace FlorenceServer

open JobRecord

variable {M : Type}

/-- The stage of a job within one server process. -/
inductive Stage (M : Type) where
  | fresh
  /-- submitted to an earlier process -/
  | past
  | checking (record : JobRecord M)
  | calling (sub : Submission M) (pc : CallPc)
  | queued (record : JobRecord M)
  | held (record : JobRecord M) (w : Nat) (pc : HeldPc M)
  /-- neither a call nor a worker will touch the job again -/
  | settled (record : JobRecord M) (ending : CallEnding)

namespace Stage

/-- The ending of a call whose request reached the queue. -/
def accepted (id : Uuid) : CallEnding :=
  .returned (.ok (queueResponse id))

def call : Stage M → EnqueueCall M
  | .fresh => .fresh
  | .past => .past
  | .checking record => .checking record
  | .calling sub pc => .live sub pc
  | .queued record => .ended record (accepted record.id)
  | .held record _ _ => .ended record (accepted record.id)
  | .settled record ending => .ended record ending

/-- Number of requests for the job in the queue. -/
def requests : Stage M → Nat
  | .queued _ => 1
  | .fresh | .past | .checking _ | .calling _ _ | .held _ _ _ | .settled _ _ => 0

def holder : Stage M → Option (Nat × HeldPc M)
  | .held _ w pc => some (w, pc)
  | .fresh | .past | .checking _ | .calling _ _ | .queued _ | .settled _ _ => none

/-- The record that was handed to `enqueue_record`. -/
def submitted : Stage M → Option (JobRecord M)
  | .fresh | .past => none
  | .checking record => some record
  | .calling sub _ => some sub.record
  | .queued record => some record
  | .held record _ _ => some record
  | .settled record _ => some record

theorem eq_fresh_of_call {stage : Stage M}
    (h : stage.call = .fresh) :
    stage = .fresh := by
  cases stage <;> simp [call] at h
  rfl

theorem eq_checking_of_call {stage : Stage M} {record : JobRecord M}
    (h : stage.call = .checking record) :
    stage = .checking record := by
  cases stage <;> simp [call] at h
  rw [h]

theorem eq_calling_of_call {stage : Stage M} {sub : Submission M} {pc : CallPc}
    (h : stage.call = .live sub pc) :
    stage = .calling sub pc := by
  cases stage <;> simp [call] at h
  rw [h.1, h.2]

theorem exists_queued_of_requests {stage : Stage M}
    (h : stage.requests ≠ 0) :
    ∃ record, stage = .queued record := by
  cases stage <;> simp [requests] at h
  exact ⟨_, rfl⟩

theorem exists_held_of_holder {stage : Stage M} {w : Nat} {pc : HeldPc M}
    (h : stage.holder = some (w, pc)) :
    ∃ record, stage = .held record w pc := by
  cases stage <;> simp [holder] at h
  exact ⟨_, by rw [h.1, h.2]⟩

end Stage

/-- What a server process knows about one job. -/
structure Life (M : Type) where
  stage : Stage M
  /-- its entry in the jobs map -/
  record : Option (JobRecord M)
  /-- its lines in the two metadata files -/
  submissions : List (JobRecord M)
  results : List (JobRecord M)
  effects : List (Effect M)
  reads : List (Except ApiError (JobRecord M))

/-- What `get_job` answers for this entry. -/
def response : Option (JobRecord M) → Except ApiError (JobRecord M)
  | some record => .ok record
  | none => .error .notFound

section LifeSteps

/-- What one step of a server process can do to the job `id`. -/
inductive LifeStep (cfg : Config) (id : Uuid) : Action M → Life M → Life M → Prop where
  | stutter (a : Action M) (L : Life M) : LifeStep cfg id a L L
  | submit {L : Life M} (record : JobRecord M)
      (hid : record.id = id)
      (hstage : L.stage = .fresh) :
      LifeStep cfg id (.submit record) L
        { L with
          stage := .checking record
          effects := L.effects ++ [.submitted record] }
  | reject {L : Life M} (record : JobRecord M) (err : EnqueueError)
      (herr : err ≠ .persist)
      (hstage : L.stage = .checking record) :
      LifeStep cfg id (.call id .check) L
        { L with stage := .settled record (.returned (.error err)) }
  | enter {L : Life M} (record : JobRecord M) (sub : Submission M)
      (hsub : sub.record = record)
      (hstage : L.stage = .checking record) :
      LifeStep cfg id (.call id .check) L
        { L with stage := .calling sub .inserting }
  | insert {L : Life M} (sub : Submission M)
      (hstage : L.stage = .calling sub .inserting) :
      LifeStep cfg id (.call id .insert) L
        { L with
          stage := .calling sub .appending
          record := some sub.record }
  | append {L : Life M} (sub : Submission M) (outcome : AppendOutcome)
      (hok : outcome.isOk = true)
      (hstage : L.stage = .calling sub .appending) :
      LifeStep cfg id (.call id (.append outcome)) L
        { L with
          stage := .calling sub .sending
          submissions := L.submissions ++ outcome.lines sub.record }
  | appendFailed {L : Life M} (sub : Submission M) (outcome : AppendOutcome)
      (hfailed : outcome.isOk = false)
      (hstage : L.stage = .calling sub .appending) :
      LifeStep cfg id (.call id (.append outcome)) L
        { L with
          stage := .settled sub.record (.returned (.error .persist))
          submissions := L.submissions ++ outcome.lines sub.record }
  | send {L : Life M} (sub : Submission M)
      (hstage : L.stage = .calling sub .sending) :
      LifeStep cfg id (.call id .send) L
        { L with
          stage := .queued sub.record
          effects := L.effects ++ [.accepted id] }
  | refuse {L : Life M} (sub : Submission M) (reason : TrySendError)
      (hstage : L.stage = .calling sub .sending) :
      LifeStep cfg id (.call id .send) L
        { L with stage := .calling sub (.rollingBack reason) }
  | rollback {L : Life M} (sub : Submission M) (reason : TrySendError)
      (hstage : L.stage = .calling sub (.rollingBack reason)) :
      LifeStep cfg id (.call id .rollback) L
        { L with
          stage := .calling sub (.persisting reason)
          record := none }
  | persist {L : Life M} (sub : Submission M) (reason : TrySendError)
      (now : OffsetDateTime) (outcome : AppendOutcome) (err : EnqueueError)
      (hstage : L.stage = .calling sub (.persisting reason)) :
      LifeStep cfg id (.call id (.persist now outcome)) L
        { L with
          stage := .settled sub.record (.returned (.error err))
          results := L.results ++
            outcome.lines (sub.record.failedWith now reason.rollbackError) }
  | drop {L : Life M} (sub : Submission M) (pc : CallPc)
      (now : OffsetDateTime) (written : Bool)
      (hpc : pc = .inserting ∨ ∃ reason, pc = .rollingBack reason)
      (hstage : L.stage = .calling sub pc) :
      LifeStep cfg id (.call id (.drop now written)) L
        { L with stage := .settled sub.record .dropped }
  | dropAppending {L : Life M} (sub : Submission M)
      (now : OffsetDateTime) (written : Bool)
      (hstage : L.stage = .calling sub .appending) :
      LifeStep cfg id (.call id (.drop now written)) L
        { L with
          stage := .settled sub.record .dropped
          submissions := L.submissions ++
            (AppendOutcome.failed written).lines sub.record }
  | dropPersisting {L : Life M} (sub : Submission M) (reason : TrySendError)
      (now : OffsetDateTime) (written : Bool)
      (hstage : L.stage = .calling sub (.persisting reason)) :
      LifeStep cfg id (.call id (.drop now written)) L
        { L with
          stage := .settled sub.record .dropped
          results := L.results ++ (AppendOutcome.failed written).lines
            (sub.record.failedWith now reason.rollbackError) }
  | recv {L : Life M} (record : JobRecord M) (w : Nat)
      (hstage : L.stage = .queued record) :
      LifeStep cfg id (.worker w .recv) L
        { L with stage := .held record w .waiting }
  | markRunning {L : Life M} (record : JobRecord M) (w : Nat) (now : OffsetDateTime)
      (hstage : L.stage = .held record w .waiting) :
      LifeStep cfg id (.worker w (.markRunning now)) L
        { L with
          stage := .held record w .executing
          record := L.record.map (fun r => r.markedRunning now) }
  | publish {L : Life M} (record current : JobRecord M) (w : Nat)
      (now : OffsetDateTime) (result : Except String M)
      (hstage : L.stage = .held record w .executing)
      (hrecord : L.record = some current) :
      LifeStep cfg id (.worker w (.publish now)) L
        { L with
          stage := .held record w (.appending (current.finishedWith now result))
          record := some (current.finishedWith now result)
          effects := L.effects ++ [.finished (current.finishedWith now result)] }
  | miss {L : Life M} (record : JobRecord M) (w : Nat) (now : OffsetDateTime)
      (hstage : L.stage = .held record w .executing)
      (hrecord : L.record = none) :
      LifeStep cfg id (.worker w (.publish now)) L
        { L with
          stage := .settled record (Stage.accepted record.id)
          effects := L.effects ++ [.missing id] }
  | appendResult {L : Life M} (record final : JobRecord M) (w : Nat)
      (outcome : AppendOutcome)
      (hstage : L.stage = .held record w (.appending final)) :
      LifeStep cfg id (.worker w (.append outcome)) L
        { L with
          stage := .held record w (.notifying final)
          results := L.results ++ outcome.lines final
          effects := L.effects ++ [.appended final outcome] }
  | notify {L : Life M} (record final : JobRecord M) (w : Nat) (env : DeliveryEnv)
      (hstage : L.stage = .held record w (.notifying final)) :
      LifeStep cfg id (.worker w (.notify env)) L
        { L with
          stage := .held record w (.cleaning final)
          effects := L.effects ++
            [.webhook final ((WebhookClient.fromConfig cfg).deliver env final)] }
  | cleanup {L : Life M} (record final : JobRecord M) (w : Nat) (removal : RemoveFile)
      (hstage : L.stage = .held record w (.cleaning final)) :
      LifeStep cfg id (.worker w (.cleanup removal)) L
        { L with
          stage := .settled record (Stage.accepted record.id)
          effects := L.effects ++
            [.cleanup final (cleanupJobArtifacts cfg removal final)] }
  | evict {L : Life M} (w : Nat) (order : IterationOrder (JobRecord M)) :
      LifeStep cfg id (.worker w (.retain order)) L { L with record := none }
  | read {L : Life M} :
      LifeStep cfg id (.read id) L { L with reads := L.reads ++ [response L.record] }

end LifeSteps

section LifeInvariant

namespace Life

/-- The map entry is this record, unless retention has removed it. -/
def Resident (L : Life M) (record : JobRecord M) : Prop :=
  L.record = none ∨ L.record = some record

/-- A call that is still running. -/
def CallingOk (L : Life M) (sub : Submission M) : CallPc → Prop
  | .inserting => L.record = none ∧ L.submissions = []
  | .appending => L.Resident sub.record ∧ L.submissions = []
  | .sending | .rollingBack _ => L.Resident sub.record ∧ L.submissions = [sub.record]
  | .persisting _ => L.record = none ∧ L.submissions = [sub.record]

/-- The effects on a job up to the sending of its request. -/
def sentEffects (record : JobRecord M) : List (Effect M) :=
  [.submitted record, .accepted record.id]

/-- A request in the hands of a worker. -/
def HeldOk (L : Life M) (record : JobRecord M) : HeldPc M → Prop
  | .waiting =>
      L.Resident record ∧ L.results = [] ∧ L.effects = sentEffects record
  | .executing =>
      (L.record = none ∨ ∃ now, L.record = some (record.markedRunning now)) ∧
        L.results = [] ∧ L.effects = sentEffects record
  | .appending final =>
      FinalOf final record ∧ L.Resident final ∧ L.results = [] ∧
        L.effects = sentEffects record ++ [.finished final]
  | .notifying final =>
      FinalOf final record ∧ L.Resident final ∧
        ∃ outcome : AppendOutcome, L.results = outcome.lines final ∧
          L.effects = sentEffects record ++
            [.finished final, .appended final outcome]
  | .cleaning final =>
      FinalOf final record ∧ L.Resident final ∧
        ∃ (outcome : AppendOutcome) (delivery : Delivery M),
          L.results = outcome.lines final ∧
          L.effects = sentEffects record ++
            [.finished final, .appended final outcome, .webhook final delivery]

/-- How a job comes to rest. -/
inductive SettledOk (L : Life M) (record : JobRecord M) : CallEnding → Prop where
  /-- `finish_job` went through -/
  | completed (final : JobRecord M) (outcome : AppendOutcome)
      (delivery : Delivery M) (removal : Option RemoveFile)
      (hfinal : FinalOf final record)
      (hrecord : L.Resident final)
      (hsubmissions : L.submissions = [record])
      (hresults : L.results = outcome.lines final)
      (heffects : L.effects = sentEffects record ++
        [.finished final, .appended final outcome, .webhook final delivery,
          .cleanup final removal]) :
      SettledOk L record (Stage.accepted record.id)
  /-- `finish_job` found no record -/
  | lost
      (hrecord : L.record = none)
      (hsubmissions : L.submissions = [record])
      (hresults : L.results = [])
      (heffects : L.effects = sentEffects record ++ [.missing record.id]) :
      SettledOk L record (Stage.accepted record.id)
  | rejected (err : EnqueueError)
      (herr : err ≠ .persist)
      (hrecord : L.record = none)
      (hsubmissions : L.submissions = [])
      (hresults : L.results = [])
      (heffects : L.effects = [.submitted record]) :
      SettledOk L record (.returned (.error err))
  /-- the append to the submissions file failed -/
  | unsaved (written : Bool)
      (hrecord : L.Resident record)
      (hsubmissions : L.submissions = (AppendOutcome.failed written).lines record)
      (hresults : L.results = [])
      (heffects : L.effects = [.submitted record]) :
      SettledOk L record (.returned (.error .persist))
  | rolledBack (err : EnqueueError) (now : OffsetDateTime) (reason : TrySendError)
      (outcome : AppendOutcome)
      (hrecord : L.record = none)
      (hsubmissions : L.submissions = [record])
      (hresults : L.results =
        outcome.lines (record.failedWith now reason.rollbackError))
      (heffects : L.effects = [.submitted record]) :
      SettledOk L record (.returned (.error err))
  /-- the future was dropped before the rollback took effect -/
  | dropped
      (hrecord : L.Resident record)
      (hsubmissions : L.submissions = [] ∨ L.submissions = [record])
      (hresults : L.results = [])
      (heffects : L.effects = [.submitted record]) :
      SettledOk L record .dropped
  | droppedPersisting (now : OffsetDateTime) (reason : TrySendError) (written : Bool)
      (hrecord : L.record = none)
      (hsubmissions : L.submissions = [record])
      (hresults : L.results = (AppendOutcome.failed written).lines
        (record.failedWith now reason.rollbackError))
      (heffects : L.effects = [.submitted record]) :
      SettledOk L record .dropped

/-- What is true of a job in each of its stages. -/
def Ok (id : Uuid) (L : Life M) : Prop :=
  match L.stage with
  | .fresh =>
      L.record = none ∧ L.submissions = [] ∧ L.results = [] ∧ L.effects = []
  | .past => ∀ record, L.record = some record → record.id = id ∧ record.Terminal
  | .checking record =>
      record.id = id ∧ L.record = none ∧ L.submissions = [] ∧ L.results = [] ∧
        L.effects = [.submitted record]
  | .calling sub pc =>
      sub.record.id = id ∧ L.CallingOk sub pc ∧ L.results = [] ∧
        L.effects = [.submitted sub.record]
  | .queued record =>
      record.id = id ∧ L.Resident record ∧ L.submissions = [record] ∧
        L.results = [] ∧ L.effects = sentEffects record
  | .held record _ pc =>
      record.id = id ∧ L.submissions = [record] ∧ L.HeldOk record pc
  | .settled record ending => record.id = id ∧ L.SettledOk record ending

end Life
end LifeInvariant

section Consequences

variable {id : Uuid} {L : Life M} {record : JobRecord M}

namespace Life

/-- What is still in the map is the record that was put there. -/
theorem Resident.eq_of_some
    (h : L.Resident record)
    {r : JobRecord M} (hrecord : L.record = some r) :
    r = record := by
  rcases h with hnone | hsome
  · rw [hnone] at hrecord
    cases hrecord
  · exact Option.some.inj (hrecord.symm.trans hsome)

theorem Resident.version
    {current : JobRecord M}
    (h : L.Resident current)
    (hversion : current.VersionOf record)
    {r : JobRecord M} (hrecord : L.record = some r) :
    r.VersionOf record := by
  rw [h.eq_of_some hrecord]
  exact hversion

theorem HeldOk.version
    {pc : HeldPc M}
    (h : L.HeldOk record pc)
    {r : JobRecord M} (hrecord : L.record = some r) :
    r.VersionOf record := by
  cases pc with
  | waiting => exact h.1.version (.submitted rfl) hrecord
  | executing =>
      rcases h.1 with hnone | ⟨now, hsome⟩
      · rw [hnone] at hrecord
        cases hrecord
      · rw [hsome] at hrecord
        cases hrecord
        exact .running now rfl
  | appending final => exact h.2.1.version (.final h.1) hrecord
  | notifying final => exact h.2.1.version (.final h.1) hrecord
  | cleaning final => exact h.2.1.version (.final h.1) hrecord

theorem SettledOk.version
    {ending : CallEnding}
    (h : L.SettledOk record ending)
    {r : JobRecord M} (hrecord : L.record = some r) :
    r.VersionOf record := by
  cases h with
  | completed final outcome delivery removal hfinal hrec hsub hres heff =>
      exact hrec.version (.final hfinal) hrecord
  | lost hrec hsub hres heff => simp [hrec] at hrecord
  | rejected err herr hrec hsub hres heff => simp [hrec] at hrecord
  | unsaved written hrec hsub hres heff => exact hrec.version (.submitted rfl) hrecord
  | rolledBack err now reason outcome hrec hsub hres heff => simp [hrec] at hrecord
  | dropped hrec hsub hres heff => exact hrec.version (.submitted rfl) hrecord
  | droppedPersisting now reason written hrec hsub hres heff => simp [hrec] at hrecord

theorem CallingOk.version
    {sub : Submission M} {pc : CallPc}
    (h : L.CallingOk sub pc)
    {r : JobRecord M} (hrecord : L.record = some r) :
    r.VersionOf sub.record := by
  cases pc with
  | inserting => simp [h.1] at hrecord
  | appending => exact h.1.version (.submitted rfl) hrecord
  | sending => exact h.1.version (.submitted rfl) hrecord
  | rollingBack reason => exact h.1.version (.submitted rfl) hrecord
  | persisting reason => simp [h.1] at hrecord

theorem Ok.submitted_id
    (hok : L.Ok id)
    (hsubmitted : L.stage.submitted = some record) :
    record.id = id := by
  unfold Ok at hok
  cases hstage : L.stage <;> simp only [hstage, Stage.submitted] at hok hsubmitted
  all_goals cases hsubmitted
  all_goals exact hok.1

/-- The map entry of a job is a version of the record that was submitted. -/
theorem Ok.version
    (hok : L.Ok id)
    (hsubmitted : L.stage.submitted = some record)
    {r : JobRecord M} (hrecord : L.record = some r) :
    r.VersionOf record := by
  unfold Ok at hok
  cases hstage : L.stage with
  | fresh =>
      rw [hstage] at hsubmitted
      cases hsubmitted
  | past =>
      rw [hstage] at hsubmitted
      cases hsubmitted
  | checking submitted =>
      simp only [hstage] at hok
      simp [hok.2.1] at hrecord
  | calling sub pc =>
      rw [hstage] at hsubmitted
      cases hsubmitted
      simp only [hstage] at hok
      exact hok.2.1.version hrecord
  | queued submitted =>
      rw [hstage] at hsubmitted
      cases hsubmitted
      simp only [hstage] at hok
      exact hok.2.1.version (.submitted rfl) hrecord
  | held submitted w pc =>
      rw [hstage] at hsubmitted
      cases hsubmitted
      simp only [hstage] at hok
      exact hok.2.2.version hrecord
  | settled submitted ending =>
      rw [hstage] at hsubmitted
      cases hsubmitted
      simp only [hstage] at hok
      exact hok.2.version hrecord

/-- A job without a submission in this process is a leftover or unknown. -/
theorem Ok.record_of_unsubmitted
    (hok : L.Ok id)
    (hsubmitted : L.stage.submitted = none)
    {r : JobRecord M} (hrecord : L.record = some r) :
    L.stage = .past ∧ r.id = id ∧ r.Terminal := by
  unfold Ok at hok
  cases hstage : L.stage <;> simp only [hstage, Stage.submitted] at hok hsubmitted
  case fresh =>
      simp [hok.1] at hrecord
  case past =>
      exact ⟨rfl, hok r hrecord⟩
  all_goals cases hsubmitted

theorem Ok.record_id
    (hok : L.Ok id)
    {r : JobRecord M} (hrecord : L.record = some r) :
    r.id = id := by
  cases hsubmitted : L.stage.submitted with
  | none => exact (hok.record_of_unsubmitted hsubmitted hrecord).2.1
  | some record =>
      rw [(hok.version hsubmitted hrecord).sameSubmission.id]
      exact hok.submitted_id hsubmitted

end Life
end Consequences

section Preservation

variable {cfg : Config} {id : Uuid} {a : Action M} {L L' : Life M}

namespace Life

theorem Resident.mono
    {record : JobRecord M}
    (h : L.Resident record)
    (hrecord : L'.record = L.record ∨ L'.record = none) :
    L'.Resident record := by
  rcases hrecord with hsame | hnone
  · rcases h with hres | hres
    · exact Or.inl (hsame.trans hres)
    · exact Or.inr (hsame.trans hres)
  · exact Or.inl hnone

theorem record_eq_none_mono
    (h : L.record = none)
    (hrecord : L'.record = L.record ∨ L'.record = none) :
    L'.record = none := by
  rcases hrecord with hsame | hnone
  · exact hsame.trans h
  · exact hnone

theorem SettledOk.mono
    {record : JobRecord M} {ending : CallEnding}
    (h : L.SettledOk record ending)
    (hrecord : L'.record = L.record ∨ L'.record = none)
    (hsubmissions : L'.submissions = L.submissions)
    (hresults : L'.results = L.results)
    (heffects : L'.effects = L.effects) :
    L'.SettledOk record ending := by
  cases h with
  | completed final outcome delivery removal hfinal hrec hsub hres heff =>
      exact .completed final outcome delivery removal hfinal (hrec.mono hrecord)
        (hsubmissions.trans hsub) (hresults.trans hres) (heffects.trans heff)
  | lost hrec hsub hres heff =>
      exact .lost (record_eq_none_mono hrec hrecord)
        (hsubmissions.trans hsub) (hresults.trans hres) (heffects.trans heff)
  | rejected err herr hrec hsub hres heff =>
      exact .rejected err herr (record_eq_none_mono hrec hrecord)
        (hsubmissions.trans hsub) (hresults.trans hres) (heffects.trans heff)
  | unsaved written hrec hsub hres heff =>
      exact .unsaved written (hrec.mono hrecord)
        (hsubmissions.trans hsub) (hresults.trans hres) (heffects.trans heff)
  | rolledBack err now reason outcome hrec hsub hres heff =>
      exact .rolledBack err now reason outcome (record_eq_none_mono hrec hrecord)
        (hsubmissions.trans hsub) (hresults.trans hres) (heffects.trans heff)
  | dropped hrec hsub hres heff =>
      exact .dropped (hrec.mono hrecord) (hsubmissions ▸ hsub)
        (hresults.trans hres) (heffects.trans heff)
  | droppedPersisting now reason written hrec hsub hres heff =>
      exact .droppedPersisting now reason written (record_eq_none_mono hrec hrecord)
        (hsubmissions.trans hsub) (hresults.trans hres) (heffects.trans heff)

theorem HeldOk.mono
    {record : JobRecord M} {pc : HeldPc M}
    (h : L.HeldOk record pc)
    (hrecord : L'.record = L.record ∨ L'.record = none)
    (hresults : L'.results = L.results)
    (heffects : L'.effects = L.effects) :
    L'.HeldOk record pc := by
  cases pc with
  | waiting =>
      exact ⟨h.1.mono hrecord, hresults.trans h.2.1, heffects.trans h.2.2⟩
  | executing =>
      refine ⟨?_, hresults.trans h.2.1, heffects.trans h.2.2⟩
      rcases h.1 with hnone | ⟨now, hsome⟩
      · exact Or.inl (record_eq_none_mono hnone hrecord)
      · rcases hrecord with hsame | hnone
        · exact Or.inr ⟨now, hsame.trans hsome⟩
        · exact Or.inl hnone
  | appending final =>
      exact ⟨h.1, h.2.1.mono hrecord, hresults.trans h.2.2.1, heffects.trans h.2.2.2⟩
  | notifying final =>
      obtain ⟨hfinal, hrec, outcome, hres, heff⟩ := h
      exact ⟨hfinal, hrec.mono hrecord, outcome, hresults.trans hres, heffects.trans heff⟩
  | cleaning final =>
      obtain ⟨hfinal, hrec, outcome, delivery, hres, heff⟩ := h
      exact ⟨hfinal, hrec.mono hrecord, outcome, delivery, hresults.trans hres,
        heffects.trans heff⟩

theorem CallingOk.mono
    {sub : Submission M} {pc : CallPc}
    (h : L.CallingOk sub pc)
    (hrecord : L'.record = L.record ∨ L'.record = none)
    (hsubmissions : L'.submissions = L.submissions) :
    L'.CallingOk sub pc := by
  cases pc with
  | inserting =>
      exact ⟨record_eq_none_mono h.1 hrecord, hsubmissions.trans h.2⟩
  | appending =>
      exact ⟨h.1.mono hrecord, hsubmissions.trans h.2⟩
  | sending =>
      exact ⟨h.1.mono hrecord, hsubmissions.trans h.2⟩
  | rollingBack reason =>
      exact ⟨h.1.mono hrecord, hsubmissions.trans h.2⟩
  | persisting reason =>
      exact ⟨record_eq_none_mono h.1 hrecord, hsubmissions.trans h.2⟩

/-- Reads leave the invariant alone, and so does the removal of the map entry. -/
theorem Ok.mono
    (hok : L.Ok id)
    (hstage : L'.stage = L.stage)
    (hrecord : L'.record = L.record ∨ L'.record = none)
    (hsubmissions : L'.submissions = L.submissions)
    (hresults : L'.results = L.results)
    (heffects : L'.effects = L.effects) :
    L'.Ok id := by
  unfold Ok at hok ⊢
  rw [hstage]
  cases h : L.stage with
  | fresh =>
      simp only [h] at hok ⊢
      exact ⟨record_eq_none_mono hok.1 hrecord, hsubmissions.trans hok.2.1,
        hresults.trans hok.2.2.1, heffects.trans hok.2.2.2⟩
  | past =>
      simp only [h] at hok ⊢
      intro record hrec
      rcases hrecord with hsame | hnone
      · exact hok record (hsame.symm.trans hrec)
      · rw [hnone] at hrec
        cases hrec
  | checking record =>
      simp only [h] at hok ⊢
      exact ⟨hok.1, record_eq_none_mono hok.2.1 hrecord, hsubmissions.trans hok.2.2.1,
        hresults.trans hok.2.2.2.1, heffects.trans hok.2.2.2.2⟩
  | calling sub pc =>
      simp only [h] at hok ⊢
      exact ⟨hok.1, hok.2.1.mono hrecord hsubmissions, hresults.trans hok.2.2.1,
        heffects.trans hok.2.2.2⟩
  | queued record =>
      simp only [h] at hok ⊢
      exact ⟨hok.1, hok.2.1.mono hrecord, hsubmissions.trans hok.2.2.1,
        hresults.trans hok.2.2.2.1, heffects.trans hok.2.2.2.2⟩
  | held record w pc =>
      simp only [h] at hok ⊢
      exact ⟨hok.1, hsubmissions.trans hok.2.1, hok.2.2.mono hrecord hresults heffects⟩
  | settled record ending =>
      simp only [h] at hok ⊢
      exact ⟨hok.1, hok.2.mono hrecord hsubmissions hresults heffects⟩

end Life

/-- Every step keeps a job in one of the described forms. -/
theorem LifeStep.ok
    (hstep : LifeStep cfg id a L L')
    (hok : L.Ok id) :
    L'.Ok id := by
  cases hstep with
  | stutter =>
      exact hok
  | submit record hid hstage =>
      simp only [Life.Ok, hstage] at hok
      obtain ⟨hrec, hsub, hres, heff⟩ := hok
      exact ⟨hid, hrec, hsub, hres, by simp [heff]⟩
  | reject record err herr hstage =>
      simp only [Life.Ok, hstage] at hok
      obtain ⟨hid, hrec, hsub, hres, heff⟩ := hok
      exact ⟨hid, .rejected err herr hrec hsub hres heff⟩
  | enter record sub hrecord hstage =>
      simp only [Life.Ok, hstage] at hok
      obtain ⟨hid, hrec, hsub, hres, heff⟩ := hok
      subst hrecord
      exact ⟨hid, ⟨hrec, hsub⟩, hres, heff⟩
  | insert sub hstage =>
      simp only [Life.Ok, hstage] at hok
      obtain ⟨hid, ⟨hrec, hsub⟩, hres, heff⟩ := hok
      exact ⟨hid, ⟨Or.inr rfl, hsub⟩, hres, heff⟩
  | append sub outcome hisOk hstage =>
      simp only [Life.Ok, hstage] at hok
      obtain ⟨hid, ⟨hrec, hsub⟩, hres, heff⟩ := hok
      cases outcome with
      | ok => exact ⟨hid, ⟨hrec, by simp [hsub, AppendOutcome.lines]⟩, hres, heff⟩
      | failed written => simp [AppendOutcome.isOk] at hisOk
  | appendFailed sub outcome hfailed hstage =>
      simp only [Life.Ok, hstage] at hok
      obtain ⟨hid, ⟨hrec, hsub⟩, hres, heff⟩ := hok
      cases outcome with
      | ok => simp [AppendOutcome.isOk] at hfailed
      | failed written =>
          exact ⟨hid, .unsaved written hrec (by simp [hsub]) hres heff⟩
  | send sub hstage =>
      simp only [Life.Ok, hstage] at hok
      obtain ⟨hid, ⟨hrec, hsub⟩, hres, heff⟩ := hok
      exact ⟨hid, hrec, hsub, hres, by simp [heff, Life.sentEffects, hid]⟩
  | refuse sub reason hstage =>
      simp only [Life.Ok, hstage] at hok
      exact hok
  | rollback sub reason hstage =>
      simp only [Life.Ok, hstage] at hok
      obtain ⟨hid, ⟨hrec, hsub⟩, hres, heff⟩ := hok
      exact ⟨hid, ⟨rfl, hsub⟩, hres, heff⟩
  | persist sub reason now outcome err hstage =>
      simp only [Life.Ok, hstage] at hok
      obtain ⟨hid, ⟨hrec, hsub⟩, hres, heff⟩ := hok
      exact ⟨hid, .rolledBack err now reason outcome hrec hsub (by simp [hres]) heff⟩
  | drop sub pc now written hpc hstage =>
      simp only [Life.Ok, hstage] at hok
      obtain ⟨hid, hcalling, hres, heff⟩ := hok
      rcases hpc with rfl | ⟨reason, rfl⟩
      · exact ⟨hid, .dropped (Or.inl hcalling.1) (Or.inl hcalling.2) hres heff⟩
      · exact ⟨hid, .dropped hcalling.1 (Or.inr hcalling.2) hres heff⟩
  | dropAppending sub now written hstage =>
      simp only [Life.Ok, hstage] at hok
      obtain ⟨hid, ⟨hrec, hsub⟩, hres, heff⟩ := hok
      refine ⟨hid, .dropped hrec ?_ hres heff⟩
      cases written <;> simp [hsub, AppendOutcome.lines]
  | dropPersisting sub reason now written hstage =>
      simp only [Life.Ok, hstage] at hok
      obtain ⟨hid, ⟨hrec, hsub⟩, hres, heff⟩ := hok
      exact ⟨hid, .droppedPersisting now reason written hrec hsub (by simp [hres]) heff⟩
  | recv record w hstage =>
      simp only [Life.Ok, hstage] at hok
      obtain ⟨hid, hrec, hsub, hres, heff⟩ := hok
      exact ⟨hid, hsub, hrec, hres, heff⟩
  | markRunning record w now hstage =>
      simp only [Life.Ok, hstage] at hok
      obtain ⟨hid, hsub, hrec, hres, heff⟩ := hok
      refine ⟨hid, hsub, ?_, hres, heff⟩
      rcases hrec with hrec | hrec
      · exact Or.inl (by simp [hrec])
      · exact Or.inr ⟨now, by simp [hrec]⟩
  | publish record current w now result hstage hrecord =>
      simp only [Life.Ok, hstage] at hok
      obtain ⟨hid, hsub, hrec, hres, heff⟩ := hok
      rcases hrec with hrec | ⟨started, hrec⟩
      · rw [hrec] at hrecord
        cases hrecord
      · rw [hrec] at hrecord
        cases hrecord
        exact ⟨hid, hsub, FinalOf.of_markedRunning started now result, Or.inr rfl, hres,
          by simp [heff]⟩
  | miss record w now hstage hrecord =>
      simp only [Life.Ok, hstage] at hok
      obtain ⟨hid, hsub, hrec, hres, heff⟩ := hok
      exact ⟨hid, .lost hrecord hsub hres (by simp [heff, hid])⟩
  | appendResult record final w outcome hstage =>
      simp only [Life.Ok, hstage] at hok
      obtain ⟨hid, hsub, hfinal, hrec, hres, heff⟩ := hok
      exact ⟨hid, hsub, hfinal, hrec, outcome, by simp [hres], by simp [heff]⟩
  | notify record final w env hstage =>
      simp only [Life.Ok, hstage] at hok
      obtain ⟨hid, hsub, hfinal, hrec, outcome, hres, heff⟩ := hok
      exact ⟨hid, hsub, hfinal, hrec, outcome, _, hres, by simp [heff]; rfl⟩
  | cleanup record final w removal hstage =>
      simp only [Life.Ok, hstage] at hok
      obtain ⟨hid, hsub, hfinal, hrec, outcome, delivery, hres, heff⟩ := hok
      exact ⟨hid, .completed final outcome delivery _ hfinal hrec hsub hres
        (by simp [heff]; rfl)⟩
  | evict w order =>
      exact hok.mono rfl (Or.inr rfl) rfl rfl rfl
  | read =>
      exact hok.mono rfl (Or.inl rfl) rfl rfl rfl

/-- A job of an earlier process is only read and evicted. -/
theorem LifeStep.stage_past
    (hstep : LifeStep cfg id a L L')
    (hpast : L.stage = .past) :
    L'.stage = .past := by
  cases hstep with
  | stutter => exact hpast
  | evict w order => exact hpast
  | read => exact hpast
  | _ => simp_all

end Preservation
end FlorenceServer
