import FlorenceServer.Jobs.Tracking

/-!
# The order of the statuses that clients see

`mark_running` and `finish_job` overwrite the status of a record without looking
at the old one.  That reads never go backwards is a property of the whole
process: a job has one request, one worker takes it, and a removed record is
never put back.  It is carried by `Life.phase`, which no step lowers.
-/

namespace FlorenceServer

open JobRecord Runs

variable {M : Type}

/-- `Queued < Running < {Succeeded, Failed}`. -/
def JobStatus.rank : JobStatus → Nat
  | .queued => 0
  | .running => 1
  | .succeeded => 2
  | .failed => 2

theorem JobStatus.rank_le (status : JobStatus) : status.rank ≤ 2 := by
  cases status <;> simp [rank]

section Phases

/-- The map entry of the job has been made. -/
def Stage.inserted : Stage M → Bool
  | .fresh | .checking _ | .calling _ .inserting => false
  | .past | .calling _ _ | .queued _ | .held _ _ _ | .settled _ _ => true

namespace Life

/-- Not there yet, queued, running, terminal, gone. -/
def phase (L : Life M) : Nat :=
  match L.record with
  | some record => record.status.rank + 1
  | none => if L.stage.inserted then 4 else 0

/-- What a later state of a life may look like. -/
structure Precedes (L L' : Life M) : Prop where
  phase_le : L.phase ≤ L'.phase
  terminal_stays : ∀ record, L.record = some record → record.Terminal →
    L'.record = some record ∨ L'.record = none

theorem phase_of_some
    {L : Life M} {record : JobRecord M}
    (h : L.record = some record) :
    L.phase = record.status.rank + 1 := by
  unfold phase
  rw [h]

theorem phase_of_none
    {L : Life M}
    (h : L.record = none) :
    L.phase = if L.stage.inserted then 4 else 0 := by
  unfold phase
  rw [h]

theorem phase_le_four (L : Life M) : L.phase ≤ 4 := by
  unfold phase
  cases L.record with
  | some record =>
      have hrank := record.status.rank_le
      simp only
      omega
  | none =>
      simp only
      split <;> omega

theorem phase_of_terminal
    {L : Life M} {record : JobRecord M}
    (h : L.record = some record)
    (hterminal : record.Terminal) :
    L.phase = 3 := by
  rw [phase_of_some h]
  rcases hterminal with hstatus | hstatus <;> rw [hstatus] <;> rfl

theorem record_eq_none_of_phase
    {L : Life M}
    (h : L.phase = 4) :
    L.record = none := by
  cases hrecord : L.record with
  | none => rfl
  | some record =>
      rw [phase_of_some hrecord] at h
      have hrank := record.status.rank_le
      omega

/-- A record that is gone after it has been there stays away. -/
theorem phase_of_gone
    {L : Life M}
    (hphase : 0 < L.phase)
    (h : L.record = none) :
    L.phase = 4 := by
  rw [phase_of_none h] at hphase ⊢
  split at hphase
  · rw [if_pos ‹_›]
  · omega

theorem Precedes.refl (L : Life M) : L.Precedes L where
  phase_le := Nat.le_refl _
  terminal_stays := fun _ h _ => Or.inl h

theorem Precedes.trans
    {L₁ L₂ L₃ : Life M}
    (h₁ : L₁.Precedes L₂)
    (h₂ : L₂.Precedes L₃) :
    L₁.Precedes L₃ where
  phase_le := Nat.le_trans h₁.phase_le h₂.phase_le
  terminal_stays := by
    intro record hrecord hterminal
    rcases h₁.terminal_stays record hrecord hterminal with hsome | hnone
    · exact h₂.terminal_stays record hsome hterminal
    · have hthree := phase_of_terminal hrecord hterminal
      have hfour : L₂.phase = 4 := by
        have hle := h₁.phase_le
        exact phase_of_gone (by omega) hnone
      have hle := h₂.phase_le
      have hmax := phase_le_four L₃
      exact Or.inr (record_eq_none_of_phase (by omega))

/-- The entry is unchanged and the stage moves forward. -/
theorem Precedes.of_record_eq
    {L L' : Life M}
    (hrecord : L'.record = L.record)
    (hinserted : L.stage.inserted = true → L'.stage.inserted = true) :
    L.Precedes L' where
  phase_le := by
    unfold phase
    rw [hrecord]
    cases L.record with
    | some record => exact Nat.le_refl _
    | none =>
        cases h : L.stage.inserted with
        | true => simp [hinserted h]
        | false => simp
  terminal_stays := fun record h _ => Or.inl (hrecord.trans h)

/-- The entry is removed. -/
theorem Precedes.of_removed
    {L L' : Life M}
    (hrecord : L'.record = none)
    (hinserted : L'.stage.inserted = true) :
    L.Precedes L' where
  phase_le := by
    rw [phase_of_none hrecord, if_pos hinserted]
    exact phase_le_four L
  terminal_stays := fun _ _ _ => Or.inr hrecord

/-- A record is in the map only after it has been inserted. -/
theorem Ok.inserted
    {id : Uuid} {L : Life M} {record : JobRecord M}
    (hok : L.Ok id)
    (hrecord : L.record = some record) :
    L.stage.inserted = true := by
  unfold Ok at hok
  cases hstage : L.stage with
  | fresh =>
      simp only [hstage] at hok
      simp [hok.1] at hrecord
  | checking submitted =>
      simp only [hstage] at hok
      simp [hok.2.1] at hrecord
  | calling sub pc =>
      cases pc <;> try rfl
      simp only [hstage] at hok
      simp [hok.2.1.1] at hrecord
  | past => rfl
  | queued submitted => rfl
  | held submitted w pc => rfl
  | settled submitted ending => rfl

/-- The record of the job was queued when it was submitted. -/
def SubmittedUnstarted (L : Life M) : Prop :=
  ∀ record, L.stage.submitted = some record → record.Unstarted

end Life

theorem LifeStep.submittedUnstarted
    {cfg : Config} {id : Uuid} {a : Action M} {L L' : Life M}
    (hstep : LifeStep cfg id a L L')
    (hbuilt : a.FromHandlers)
    (h : L.SubmittedUnstarted) :
    L'.SubmittedUnstarted := by
  cases hstep with
  | submit record hid hstage =>
      intro r hr
      cases hr
      exact hbuilt.unstarted
  | enter record sub hsub hstage =>
      intro r hr
      cases hr
      exact h _ (by rw [hstage, hsub]; rfl)
  | stutter => exact h
  | evict w order => exact h
  | read => exact h
  | _ =>
      intro r hr
      cases hr
      refine h _ ?_
      simp only [*]
      rfl

/-- No step of a process takes a job back. -/
theorem LifeStep.precedes
    {cfg : Config} {id : Uuid} {a : Action M} {L L' : Life M}
    (hstep : LifeStep cfg id a L L')
    (hok : L.Ok id)
    (hunstarted : L.SubmittedUnstarted) :
    L.Precedes L' := by
  cases hstep with
  | stutter => exact Life.Precedes.refl L
  | submit record hid hstage =>
      exact .of_record_eq rfl (by rw [hstage]; simp [Stage.inserted])
  | reject record err herr hstage =>
      exact .of_record_eq rfl (fun _ => rfl)
  | enter record sub hsub hstage =>
      exact .of_record_eq rfl (by rw [hstage]; simp [Stage.inserted])
  | insert sub hstage =>
      have hnone : L.record = none := by
        simp only [Life.Ok, hstage] at hok
        exact hok.2.1.1
      refine ⟨?_, ?_⟩
      · rw [Life.phase_of_none hnone, hstage]
        exact Nat.zero_le _
      · intro record hrecord
        rw [hnone] at hrecord
        cases hrecord
  | append sub outcome hisOk hstage => exact .of_record_eq rfl (fun _ => rfl)
  | appendFailed sub outcome hfailed hstage => exact .of_record_eq rfl (fun _ => rfl)
  | send sub hstage => exact .of_record_eq rfl (fun _ => rfl)
  | refuse sub reason hstage => exact .of_record_eq rfl (fun _ => rfl)
  | rollback sub reason hstage => exact .of_removed rfl rfl
  | persist sub reason now outcome err hstage => exact .of_record_eq rfl (fun _ => rfl)
  | drop sub pc now written hpc hstage => exact .of_record_eq rfl (fun _ => rfl)
  | dropAppending sub now written hstage => exact .of_record_eq rfl (fun _ => rfl)
  | dropPersisting sub reason now written hstage => exact .of_record_eq rfl (fun _ => rfl)
  | recv record w hstage => exact .of_record_eq rfl (fun _ => rfl)
  | markRunning record w now hstage =>
      have hqueued := (hunstarted record (by rw [hstage]; rfl)).queued
      have hresident : L.Resident record := by
        simp only [Life.Ok, hstage] at hok
        exact hok.2.2.1
      rcases hresident with hnone | hsome
      · refine .of_record_eq ?_ (fun _ => rfl)
        simp [hnone]
      · refine ⟨?_, ?_⟩
        · have hrunning : L.record.map (fun r => r.markedRunning now) =
              some (record.markedRunning now) := by
            rw [hsome, Option.map_some]
          rw [Life.phase_of_some hsome, Life.phase_of_some hrunning, hqueued]
          exact Nat.le_succ 1
        · intro r hr hterminal
          rw [hsome] at hr
          cases hr
          rcases hterminal with hstatus | hstatus <;> simp [hqueued] at hstatus
  | publish record current w now result hstage hrecord =>
      have hrunning : current.status = .running := by
        simp only [Life.Ok, hstage] at hok
        rcases hok.2.2.1 with hnone | ⟨started, hsome⟩
        · simp [hnone] at hrecord
        · rw [hsome] at hrecord
          cases hrecord
          rfl
      refine ⟨?_, ?_⟩
      · rw [Life.phase_of_some hrecord, hrunning,
          Life.phase_of_terminal rfl (finishedWith_terminal current now result)]
        exact Nat.le_succ 2
      · intro r hr hterminal
        rw [hrecord] at hr
        cases hr
        rcases hterminal with hstatus | hstatus <;> simp [hrunning] at hstatus
  | miss record w now hstage hrecord => exact .of_record_eq rfl (fun _ => rfl)
  | appendResult record final w outcome hstage => exact .of_record_eq rfl (fun _ => rfl)
  | notify record final w env hstage => exact .of_record_eq rfl (fun _ => rfl)
  | cleanup record final w removal hstage => exact .of_record_eq rfl (fun _ => rfl)
  | evict w order =>
      cases hrecord : L.record with
      | none => exact .of_record_eq hrecord.symm (fun h => h)
      | some record => exact .of_removed rfl (hok.inserted hrecord)
  | read => exact .of_record_eq rfl (fun h => h)

end Phases

section Reads

variable {cfg : Config}

/-- What a later read may return after an earlier one. -/
def Follows (earlier later : Except ApiError (JobRecord M)) : Prop :=
  ∀ record, earlier = .ok record →
    (∀ record', later = .ok record' → record.status.rank ≤ record'.status.rank) ∧
    (record.Terminal → later = .ok record ∨ later = .error .notFound)

theorem Life.Precedes.follows
    {L L' : Life M}
    (h : L.Precedes L') :
    Follows (response L.record) (response L'.record) := by
  intro record hread
  cases hrecord : L.record with
  | none =>
      rw [hrecord] at hread
      cases hread
  | some r =>
      rw [hrecord] at hread
      cases hread
      constructor
      · intro record' hread'
        cases hrecord' : L'.record with
        | none =>
            rw [hrecord'] at hread'
            cases hread'
        | some r' =>
            rw [hrecord'] at hread'
            cases hread'
            have hphase := h.phase_le
            rw [Life.phase_of_some hrecord, Life.phase_of_some hrecord'] at hphase
            omega
      · intro hterminal
        rcases h.terminal_stays record hrecord hterminal with hsome | hnone
        · exact Or.inl (by rw [hsome]; rfl)
        · exact Or.inr (by rw [hnone]; rfl)

/-- The responses to the reads of a job so far, and what they say about now. -/
structure Life.ReadsOk (L : Life M) : Prop where
  pairwise : L.reads.Pairwise Follows
  current : ∀ read ∈ L.reads, ∃ L₀ : Life M, read = response L₀.record ∧ L₀.Precedes L

theorem LifeStep.readsOk
    {id : Uuid} {a : Action M} {L L' : Life M}
    (hstep : LifeStep cfg id a L L')
    (hprecedes : L.Precedes L')
    (h : L.ReadsOk) :
    L'.ReadsOk := by
  have hcurrent : ∀ read ∈ L.reads,
      ∃ L₀ : Life M, read = response L₀.record ∧ L₀.Precedes L' := by
    intro read hread
    obtain ⟨L₀, hresponse, hbefore⟩ := h.current read hread
    exact ⟨L₀, hresponse, hbefore.trans hprecedes⟩
  cases hstep with
  | read =>
      refine ⟨?_, ?_⟩
      · rw [List.pairwise_append]
        refine ⟨h.pairwise, List.pairwise_singleton _ _, ?_⟩
        intro read hread later hlater
        rw [List.mem_singleton] at hlater
        obtain ⟨L₀, hresponse, hbefore⟩ := h.current read hread
        rw [hlater, hresponse]
        exact hbefore.follows
      · intro read hread
        rcases List.mem_append.mp hread with hold | hnew
        · exact hcurrent read hold
        · rw [List.mem_singleton] at hnew
          exact ⟨L, hnew, hprecedes⟩
  | _ => exact ⟨h.pairwise, hcurrent⟩

/-- The jobs of a process that submits only what the handlers build. -/
theorem run_submittedUnstarted
    {s₀ s : Server M}
    (hstarted : Started cfg s₀)
    (hrun : Run (Server.step cfg) (fun _ a => a.FromHandlers) s₀ s) :
    ∃ lives, Tracks s lives ∧ ∀ id, (lives id).SubmittedUnstarted := by
  obtain ⟨lives₀, htracks₀, hstage₀⟩ := hstarted.tracks
  refine run_tracks (P := fun _ L => L.SubmittedUnstarted) ?_ hrun htracks₀ ?_
  · intro s a s' lives lives' id hbuilt _ _ _ hlife h
    exact hlife.submittedUnstarted hbuilt h
  · intro id record hrecord
    rcases hstage₀ id with hstage | hstage <;> rw [hstage] at hrecord <;> cases hrecord

/-- Along a run every life only moves forward. -/
theorem run_precedes
    {s s' : Server M} {lives : Uuid → Life M}
    (htracks : Tracks s lives)
    (hunstarted : ∀ id, (lives id).SubmittedUnstarted)
    (hrun : Run (Server.step cfg) (fun _ a => a.FromHandlers) s s') :
    ∃ lives', Tracks s' lives' ∧ ∀ id,
      (lives' id).SubmittedUnstarted ∧ (lives id).Precedes (lives' id) := by
  refine run_tracks
    (P := fun id L => L.SubmittedUnstarted ∧ (lives id).Precedes L) ?_ hrun htracks
    (fun id => ⟨hunstarted id, Life.Precedes.refl _⟩)
  rintro s a s' l l' id hbuilt _ htracks _ hlife ⟨hsub, hbefore⟩
  exact ⟨hlife.submittedUnstarted hbuilt hsub,
    hbefore.trans (hlife.precedes (htracks id).2 hsub)⟩

theorem run_readsOk
    {s₀ s : Server M}
    (hstarted : Started cfg s₀)
    (hreads : s₀.reads = [])
    (hrun : Run (Server.step cfg) (fun _ a => a.FromHandlers) s₀ s) :
    ∃ lives, Tracks s lives ∧ ∀ id, (lives id).ReadsOk := by
  obtain ⟨lives₀, htracks₀, hstage₀⟩ := hstarted.tracks
  have hfinal := run_tracks
    (P := fun _ (L : Life M) => L.SubmittedUnstarted ∧ L.ReadsOk) ?_ hrun htracks₀ ?_
  · obtain ⟨lives, htracks, hP⟩ := hfinal
    exact ⟨lives, htracks, fun id => (hP id).2⟩
  · rintro s a s' lives lives' id hbuilt _ htracks _ hlife ⟨hsub, hreadsOk⟩
    exact ⟨hlife.submittedUnstarted hbuilt hsub,
      hlife.readsOk (hlife.precedes (htracks id).2 hsub) hreadsOk⟩
  · intro id
    constructor
    · intro record hrecord
      rcases hstage₀ id with hstage | hstage <;> rw [hstage] at hrecord <;> cases hrecord
    · have hnone : (lives₀ id).reads = [] := by
        rw [← (htracks₀ id).1.reads, hreads]
        rfl
      constructor <;> simp [hnone]

theorem getJob_eq_response
    {s : Server M} {lives : Uuid → Life M}
    (htracks : Tracks s lives) (id : Uuid) :
    getJob s.jobs id = response (lives id).record := by
  rw [← (htracks id).1.record]
  rfl

/--
Successive reads of one id, in the log of the process and at any two moments of
its run, follow each other; a record that has been there and is gone stays away.
-/
theorem reads_follow_each_other
    {s₀ s₁ s₂ : Server M}
    (hstarted : Started cfg s₀)
    (hreads : s₀.reads = [])
    (hrun₁ : Run (Server.step cfg) (fun _ a => a.FromHandlers) s₀ s₁)
    (hrun₂ : Run (Server.step cfg) (fun _ a => a.FromHandlers) s₁ s₂)
    (id : Uuid) :
    (s₂.readsOf id).Pairwise Follows ∧
    Follows (getJob s₁.jobs id) (getJob s₂.jobs id) ∧
    (∀ record, getJob s₁.jobs id = .ok record → record.status = .failed →
      ∀ record', getJob s₂.jobs id = .ok record' → record'.status ≠ .succeeded) ∧
    (∀ record, getJob s₁.jobs id = .ok record →
      getJob s₂.jobs id = .error .notFound →
      ∀ s₃, Run (Server.step cfg) (fun _ a => a.FromHandlers) s₂ s₃ →
        getJob s₃.jobs id = .error .notFound) := by
  obtain ⟨lives₁, htracks₁, hsub₁⟩ := run_submittedUnstarted hstarted hrun₁
  obtain ⟨lives₂, htracks₂, hlives₂⟩ := run_precedes htracks₁ hsub₁ hrun₂
  have hfollows : Follows (getJob s₁.jobs id) (getJob s₂.jobs id) := by
    rw [getJob_eq_response htracks₁, getJob_eq_response htracks₂]
    exact (hlives₂ id).2.follows
  refine ⟨?_, hfollows, ?_, ?_⟩
  · obtain ⟨lives, htracks, hreadsOk⟩ := run_readsOk hstarted hreads (hrun₁.trans hrun₂)
    have hlog := (hreadsOk id).pairwise
    rw [← (htracks id).1.reads] at hlog
    exact hlog
  · intro record hread hfailed record' hread' hsucceeded
    rcases (hfollows record hread).2 (Or.inr hfailed) with hsame | hgone
    · rw [hsame] at hread'
      cases hread'
      rw [hfailed] at hsucceeded
      cases hsucceeded
    · rw [hgone] at hread'
      cases hread'
  · intro record hread hgone s₃ hrun₃
    obtain ⟨lives₃, htracks₃, hlives₃⟩ :=
      run_precedes htracks₂ (fun id => (hlives₂ id).1) hrun₃
    rw [getJob_eq_response htracks₁] at hread
    rw [getJob_eq_response htracks₂] at hgone
    have hpresent : (lives₁ id).record = some record := by
      cases hrecord : (lives₁ id).record with
      | none => simp [hrecord, response] at hread
      | some r =>
          rw [hrecord] at hread
          cases hread
          rfl
    have habsent : (lives₂ id).record = none := by
      cases hrecord : (lives₂ id).record with
      | none => rfl
      | some r => simp [hrecord, response] at hgone
    have hle₂ := (hlives₂ id).2.phase_le
    have hle₃ := (hlives₃ id).2.phase_le
    have hmax := Life.phase_le_four (lives₃ id)
    rw [Life.phase_of_some hpresent] at hle₂
    have hfour := Life.phase_of_gone (by omega) habsent
    have hnone : (lives₃ id).record = none :=
      Life.record_eq_none_of_phase (by omega)
    rw [getJob_eq_response htracks₃, hnone]
    rfl

/-- A run of the server on sample records. -/
def runSample (s : Server String) (actions : List (Action String)) : Option (Server String) :=
  runActions (Server.step Config.default) (fun _ a => a.fromSamples) s actions

/-- The second answer says that the upload has succeeded. -/
def answersSucceeded (s : Server String) : Bool :=
  decide ((s.readsOf 1).length = 2) &&
    decide ((s.jobs.get 1).map JobRecord.status = some .succeeded)

/-- The upload is queued, and a later answer says that it has succeeded. -/
def answersQueued (s : Server String) : Bool :=
  decide (getJob s.jobs 1 = .ok (sampleRecord 1 5 none)) &&
    (runSample s (readyActions 0 ++ inferActions 0 8 ++ finishActions 0 9 ++ [.read 1])).any
      answersSucceeded

/-- A client sees its upload queued, and later succeeded. -/
theorem reads_follow_each_other_sample :
    ∃ s₁ s₂ : Server String,
      getJob s₁.jobs 1 = .ok (sampleRecord 1 5 none) ∧
      (s₂.jobs.get 1).map JobRecord.status = some .succeeded ∧
      (s₂.readsOf 1).length = 2 ∧ (s₂.readsOf 1).Pairwise Follows ∧
      Follows (getJob s₁.jobs 1) (getJob s₂.jobs 1) := by
  have hexec : (runSample (Server.initial Config.default)
      (enqueueActions (sampleRecord 1 5 none) ++ [.read 1])).any answersQueued = true := by
    decide +kernel
  have hguard : ∀ (_ : Server String) (a : Action String), a.fromSamples = true →
      a.FromHandlers :=
    fun _ _ h => Action.fromHandlers_of_samples h
  obtain ⟨s₁, hrun₁, htest₁⟩ := exists_run_of_any hguard hexec
  obtain ⟨hqueued, hrest⟩ := Bool.and_eq_true_iff.mp htest₁
  obtain ⟨s₂, hrun₂, htest₂⟩ := exists_run_of_any hguard hrest
  obtain ⟨hlength, hsucceeded⟩ := Bool.and_eq_true_iff.mp htest₂
  have hresult := reads_follow_each_other (started_initial Config.default) rfl
    hrun₁ hrun₂ 1
  exact ⟨s₁, s₂, of_decide_eq_true hqueued, of_decide_eq_true hsucceeded,
    of_decide_eq_true hlength, hresult.1, hresult.2.1⟩

end Reads
end FlorenceServer
