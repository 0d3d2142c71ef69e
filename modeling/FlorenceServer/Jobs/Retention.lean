import FlorenceServer.Jobs.Tracking

/-!
# Retention and unfinished jobs

Retention runs at the end of every `finish_job` and keeps the records with the
newest `updated_at`, whatever their status.  An accepted job that loses its
record is dropped silently: `finish_job` finds nothing to finish, so there is no
result, no webhook and no cleanup.  As long as retention spares the unfinished
jobs, each accepted job is finished exactly once.
-/

namespace FlorenceServer

open JobRecord Runs

variable {M : Type}

section Spared

/-- The job may still need its map entry. -/
def Stage.unfinished : Stage M → Bool
  | .calling _ .appending | .calling _ .sending => true
  | .queued _ => true
  | .held _ _ .waiting | .held _ _ .executing => true
  | .fresh | .past | .checking _ | .calling _ _ | .held _ _ _ | .settled _ _ => false

/-- The job may still need its map entry, read off the process. -/
def Server.Unfinished (s : Server M) (id : Uuid) : Prop :=
  (∃ sub, s.calls id = .live sub .appending ∨ s.calls id = .live sub .sending) ∨
    s.Queued id ∨
    ∃ w, (s.loops w).held = some (id, .waiting) ∨ (s.loops w).held = some (id, .executing)

/-- At most `job_retention_limit` records are not older than an unfinished one. -/
def Server.SparesUnfinished (cfg : Config) (s : Server M) : Prop :=
  ∀ id record, s.Unfinished id → s.jobs.get id = some record →
    newerRecords s.jobs record ≤ cfg.jobRetentionLimit

/-- Retention runs only where it spares the unfinished jobs. -/
def RetentionSpares (cfg : Config) (s : Server M) (a : Action M) : Prop :=
  ∀ w order, a = .worker w (.retain order) → s.SparesUnfinished cfg

theorem unfinished_of_stage
    {s : Server M} {id : Uuid} {L : Life M}
    (hview : View s id L)
    (hstage : L.stage.unfinished = true) :
    s.Unfinished id := by
  cases h : L.stage with
  | calling sub pc =>
      have hcall := hview.call
      rw [h] at hcall hstage
      cases pc with
      | appending => exact Or.inl ⟨sub, Or.inl hcall⟩
      | sending => exact Or.inl ⟨sub, Or.inr hcall⟩
      | inserting => cases hstage
      | rollingBack reason => cases hstage
      | persisting reason => cases hstage
  | queued record =>
      have hcount := hview.requests
      rw [h] at hcount
      have hpos : 0 < s.queue.countP (fun request => decide (request.id = id)) := by
        rw [hcount]
        exact Nat.one_pos
      obtain ⟨request, hmem, hid⟩ := List.countP_pos_iff.mp hpos
      exact Or.inr (Or.inl ⟨request, hmem, of_decide_eq_true hid⟩)
  | held record w pc =>
      have hheld : (s.loops w).held = some (id, pc) :=
        (hview.holder w pc).mpr (by rw [h]; rfl)
      rw [h] at hstage
      cases pc with
      | waiting => exact Or.inr (Or.inr ⟨w, Or.inl hheld⟩)
      | executing => exact Or.inr (Or.inr ⟨w, Or.inr hheld⟩)
      | appending final => cases hstage
      | notifying final => cases hstage
      | cleaning final => cases hstage
  | fresh => rw [h] at hstage; cases hstage
  | past => rw [h] at hstage; cases hstage
  | checking record => rw [h] at hstage; cases hstage
  | settled record ending => rw [h] at hstage; cases hstage

theorem Tracks.keyed
    {s : Server M} {lives : Uuid → Life M}
    (htracks : Tracks s lives) :
    HashMap.Keyed JobRecord.id s.jobs :=
  fun _ _ hrecord => htracks.record_id hrecord

/-- What retention leaves to a job it spares. -/
structure Life.Spared (L : Life M) : Prop where
  unfinished : L.stage.unfinished = true → L.record ≠ none
  noMissing : ∀ id, Effect.missing id ∉ L.effects
  appended : ∀ record outcome, Effect.appended record outcome ∈ L.effects → outcome = .ok

theorem LifeStep.spared
    {cfg : Config} {id : Uuid} {a : Action M} {L L' : Life M}
    (hstep : LifeStep cfg id a L L')
    (happends : a.AppendsSucceed)
    (hevict : L.stage.unfinished = true → L.record ≠ none →
      (∃ w order, a = .worker w (.retain order)) → L'.record ≠ none)
    (h : L.Spared) :
    L'.Spared := by
  have hnew : ∀ {e : Effect M},
      (∀ id, e ≠ .missing id) →
      (∀ record outcome, e = .appended record outcome → outcome = .ok) →
      (∀ id, Effect.missing id ∉ L.effects ++ [e]) ∧
        ∀ record outcome, Effect.appended record outcome ∈ L.effects ++ [e] →
          outcome = .ok := by
    intro e hmissing happended
    constructor
    · intro id hmem
      rcases List.mem_append.mp hmem with hold | hlast
      · exact h.noMissing id hold
      · exact hmissing id (List.mem_singleton.mp hlast).symm
    · intro record outcome hmem
      rcases List.mem_append.mp hmem with hold | hlast
      · exact h.appended record outcome hold
      · exact happended record outcome (List.mem_singleton.mp hlast).symm
  cases hstep with
  | stutter => exact h
  | submit record hid hstage =>
      obtain ⟨hmissing, happended⟩ := hnew (e := .submitted record) (by simp) (by simp)
      exact ⟨nofun, hmissing, happended⟩
  | insert sub hstage =>
      exact ⟨fun _ => by simp, h.noMissing, h.appended⟩
  | append sub outcome hisOk hstage =>
      exact ⟨fun _ => h.unfinished (by rw [hstage]; rfl), h.noMissing, h.appended⟩
  | send sub hstage =>
      obtain ⟨hmissing, happended⟩ := hnew (e := .accepted id) (by simp) (by simp)
      exact ⟨fun _ => h.unfinished (by rw [hstage]; rfl), hmissing, happended⟩
  | recv record w hstage =>
      exact ⟨fun _ => h.unfinished (by rw [hstage]; rfl), h.noMissing, h.appended⟩
  | markRunning record w now hstage =>
      refine ⟨fun _ => ?_, h.noMissing, h.appended⟩
      simpa using h.unfinished (by rw [hstage]; rfl)
  | publish record current w now result hstage hrecord =>
      obtain ⟨hmissing, happended⟩ :=
        hnew (e := .finished (current.finishedWith now result)) (by simp) (by simp)
      exact ⟨nofun, hmissing, happended⟩
  | miss record w now hstage hrecord =>
      exact absurd hrecord (h.unfinished (by rw [hstage]; rfl))
  | appendResult record final w outcome hstage =>
      have hisOk : outcome = .ok := happends outcome rfl
      obtain ⟨hmissing, happended⟩ := hnew (e := .appended final outcome) (by simp)
        (by rintro record' outcome' heq; cases heq; exact hisOk)
      exact ⟨nofun, hmissing, happended⟩
  | notify record final w env hstage =>
      obtain ⟨hmissing, happended⟩ := hnew
        (e := .webhook final ((WebhookClient.fromConfig cfg).deliver env final))
        (by simp) (by simp)
      exact ⟨nofun, hmissing, happended⟩
  | cleanup record final w removal hstage =>
      obtain ⟨hmissing, happended⟩ := hnew
        (e := .cleanup final (cleanupJobArtifacts cfg removal final)) (by simp) (by simp)
      exact ⟨nofun, hmissing, happended⟩
  | evict w order =>
      refine ⟨fun hunfinished => ?_, h.noMissing, h.appended⟩
      exact hevict hunfinished (h.unfinished hunfinished) ⟨w, order, rfl⟩
  | read => exact ⟨h.unfinished, h.noMissing, h.appended⟩
  | _ => exact ⟨nofun, h.noMissing, h.appended⟩

/-- A step of retention that spares the unfinished jobs keeps their entries. -/
theorem step_spares
    {cfg : Config} {s s' : Server M} {lives lives' : Uuid → Life M} {a : Action M}
    {id : Uuid}
    (hspares : RetentionSpares cfg s a)
    (hstep : s.step cfg a = some s')
    (htracks : Tracks s lives)
    (htracks' : Tracks s' lives')
    (hstage : (lives id).stage.unfinished = true)
    (hrecord : (lives id).record ≠ none)
    (hretain : ∃ w order, a = .worker w (.retain order)) :
    (lives' id).record ≠ none := by
  obtain ⟨w, order, rfl⟩ := hretain
  obtain ⟨record, hsome⟩ := Option.ne_none_iff_exists'.mp hrecord
  have hget : s.jobs.get id = some record := (htracks id).1.record.trans hsome
  have hcount := hspares w order rfl id record
    (unfinished_of_stage (htracks id).1 hstage) hget
  simp only [Server.step] at hstep
  split at hstep
  · cases Server.workerStep_cases hstep with
    | retain restart _ hloop =>
        have hkept := retainRecentJobs_keeps order htracks.keyed hget hcount
        rw [← (htracks' id).1.record]
        simp [Server.retainLoop, Server.setLoop, hkept]
  · cases hstep

theorem run_spared
    {cfg : Config} {s₀ s : Server M}
    (hstarted : Started cfg s₀)
    (hrun : Run (Server.step cfg)
      (fun s a => a.AppendsSucceed ∧ RetentionSpares cfg s a) s₀ s) :
    ∃ lives, Tracks s lives ∧
      ∀ id, (lives id).stage = .past ∨ (lives id).Spared := by
  obtain ⟨lives₀, htracks₀, hstage₀⟩ := hstarted.tracks
  refine run_tracks (P := fun _ (L : Life M) => L.stage = .past ∨ L.Spared) ?_
    hrun htracks₀ ?_
  · rintro s a s' lives lives' id ⟨happends, hspares⟩ hstep htracks htracks' hlife h
    rcases h with hpast | h
    · exact Or.inl (hlife.stage_past hpast)
    · right
      exact hlife.spared happends
        (step_spares hspares hstep htracks htracks') h
  · intro id
    rcases hstage₀ id with hfresh | hpast
    · right
      have hok := (htracks₀ id).2
      simp only [Life.Ok, hfresh] at hok
      refine ⟨?_, ?_, ?_⟩
      · rw [hfresh]
        intro hunfinished
        cases hunfinished
      · simp [hok.2.2.2]
      · simp [hok.2.2.2]
    · exact Or.inl hpast

end Spared

section Completion

variable {cfg : Config} {s : Server M} {id : Uuid}

/-- The forms of a job whose call returned `Ok`. -/
inductive Life.AcceptedOk (L : Life M) : Prop where
  | queued (record : JobRecord M)
      (hstage : L.stage = .queued record)
  | held (record : JobRecord M) (w : Nat) (pc : HeldPc M)
      (hstage : L.stage = .held record w pc)
  | completed (record final : JobRecord M) (outcome : AppendOutcome)
      (delivery : Delivery M) (removal : Option RemoveFile)
      (hstage : L.stage = .settled record (Stage.accepted record.id))
      (hresults : L.results = outcome.lines final)
      (heffects : L.effects = sentEffects record ++
        [.finished final, .appended final outcome, .webhook final delivery,
          .cleanup final removal])
  | lost (record : JobRecord M)
      (hstage : L.stage = .settled record (Stage.accepted record.id))
      (heffects : L.effects = sentEffects record ++ [.missing record.id])

theorem Life.Ok.accepted
    {L : Life M}
    (hok : L.Ok id)
    (haccepted : L.stage.call.isAccepted = true) :
    L.AcceptedOk := by
  cases hstage : L.stage with
  | queued record => exact .queued record hstage
  | held record w pc => exact .held record w pc hstage
  | settled record ending =>
      simp only [Life.Ok, hstage] at hok
      rw [hstage] at haccepted
      cases hok.2 with
      | completed final outcome delivery removal hfinal hrec hsub hres heff =>
          exact .completed record final outcome delivery removal hstage hres heff
      | lost hrec hsub hres heff => exact .lost record hstage heff
      | rejected => cases haccepted
      | unsaved => cases haccepted
      | rolledBack => cases haccepted
      | dropped => cases haccepted
      | droppedPersisting => cases haccepted
  | fresh => rw [hstage] at haccepted; cases haccepted
  | past => rw [hstage] at haccepted; cases haccepted
  | checking record => rw [hstage] at haccepted; cases haccepted
  | calling sub pc => rw [hstage] at haccepted; cases haccepted

/-- A worker that holds the job has entered `finish_job`, or the job is unfinished. -/
theorem Life.HeldOk.unfinished_or_entered
    {L : Life M} {record : JobRecord M} {w : Nat} {pc : HeldPc M}
    (h : L.HeldOk record pc) :
    (Stage.held record w pc).unfinished = true ∨ L.effects.any Effect.entersFinish = true := by
  cases pc with
  | waiting => exact Or.inl rfl
  | executing => exact Or.inl rfl
  | appending final =>
      obtain ⟨-, -, -, heff⟩ := h
      exact Or.inr (by rw [heff]; simp [Effect.entersFinish])
  | notifying final =>
      obtain ⟨-, -, outcome, -, heff⟩ := h
      exact Or.inr (by rw [heff]; simp [Effect.entersFinish])
  | cleaning final =>
      obtain ⟨-, -, outcome, delivery, -, heff⟩ := h
      exact Or.inr (by rw [heff]; simp [Effect.entersFinish])

/--
Where retention spares the unfinished jobs, an accepted job keeps its record
until `finish_job` enters its first locked section, never takes the branch for a
missing record, and ends with one result, one webhook call and one cleanup.
-/
theorem accepted_jobs_finish_once
    {s₀ : Server M}
    (hstarted : Started cfg s₀)
    (hrun : Run (Server.step cfg)
      (fun s a => a.AppendsSucceed ∧ RetentionSpares cfg s a) s₀ s)
    (haccepted : (s.calls id).isAccepted = true) :
    ((s.effectsOf id).any Effect.entersFinish = false →
      ∃ record, s.jobs.get id = some record) ∧
    Effect.missing id ∉ s.effects ∧
    (¬ s.Queued id → ¬ s.Held id →
      (s.resultsOf id).length = 1 ∧
      (s.effectsOf id).countP Effect.isWebhook = 1 ∧
      (s.effectsOf id).countP Effect.isCleanup = 1) := by
  obtain ⟨lives, htracks, hspared⟩ := run_spared hstarted hrun
  obtain ⟨hview, hok⟩ := htracks id
  have heffects : s.effectsOf id = (lives id).effects := hview.effects
  have hresults : s.resultsOf id = (lives id).results := hview.results
  rw [hview.call] at haccepted
  have hspared' : (lives id).Spared := by
    rcases hspared id with hpast | h
    · rw [hpast] at haccepted
      cases haccepted
    · exact h
  have hmissing : Effect.missing id ∉ s.effects := by
    intro hmem
    refine hspared'.noMissing id ?_
    rw [← heffects]
    exact List.mem_filter.mpr ⟨hmem, by simp [Effect.jobId]⟩
  have hpresent : (lives id).stage.unfinished = true →
      ∃ record, s.jobs.get id = some record := by
    intro hunfinished
    rw [hview.record]
    exact Option.ne_none_iff_exists'.mp (hspared'.unfinished hunfinished)
  rw [heffects, hresults]
  cases hok.accepted haccepted with
  | queued record hstage =>
      refine ⟨fun _ => hpresent (by rw [hstage]; rfl), hmissing, fun hqueued => ?_⟩
      have hunfinished := unfinished_of_stage hview (by rw [hstage]; rfl)
      have hcount := hview.requests
      rw [hstage] at hcount
      have hpos : 0 < s.queue.countP (fun request => decide (request.id = id)) := by
        rw [hcount]
        exact Nat.one_pos
      obtain ⟨request, hmem, hid⟩ := List.countP_pos_iff.mp hpos
      exact absurd ⟨request, hmem, of_decide_eq_true hid⟩ hqueued
  | held record w pc hstage =>
      refine ⟨fun hentered => ?_, hmissing, fun _ hheld => ?_⟩
      · simp only [Life.Ok, hstage] at hok
        rcases hok.2.2.unfinished_or_entered (w := w) with hunfinished | h
        · exact hpresent (by rw [hstage]; exact hunfinished)
        · rw [h] at hentered
          cases hentered
      · exact absurd ⟨w, pc, (hview.holder w pc).mpr (by rw [hstage]; rfl)⟩ hheld
  | completed record final outcome delivery removal hstage hres heff =>
      have houtcome : outcome = .ok :=
        hspared'.appended final outcome (by rw [heff]; simp)
      refine ⟨fun hentered => ?_, hmissing, fun _ _ => ⟨?_, ?_, ?_⟩⟩
      · rw [heff] at hentered
        simp [Effect.entersFinish] at hentered
      · rw [hres, houtcome]
        rfl
      · rw [heff]
        rfl
      · rw [heff]
        rfl
  | lost record hstage heff =>
      exact absurd (by rw [heff]; simp) (hspared'.noMissing record.id)

/-- A map that does not exceed the limit loses nothing. -/
theorem sparesUnfinished_of_len_le
    (h : s.jobs.len ≤ cfg.jobRetentionLimit) :
    s.SparesUnfinished cfg := by
  intro id record _ _
  have hle := List.countP_le_length
    (p := fun w : JobRecord M => decide (record.updatedAt ≤ w.updatedAt))
    (l := s.jobs.values)
  rw [HashMap.values_length] at hle
  exact Nat.le_trans hle h

/-- The only worker has finished the first job, and the second one is still queued. -/
def queuesSecond (s : Server String) : Bool :=
  decide (s.queue.map JobRequest.id = [2]) && ((s.loops 0).held.isNone &&
    ((s.calls 1).isAccepted && ((s.calls 2).isAccepted &&
      !(s.effectsOf 2).any Effect.entersFinish)))

/-- Retention runs behind the first job while the second one is queued, with room for both. -/
theorem accepted_jobs_finish_once_sample :
    ∃ s : Server String,
      (s.resultsOf 1).length = 1 ∧
      (s.effectsOf 1).countP Effect.isWebhook = 1 ∧
      (s.effectsOf 1).countP Effect.isCleanup = 1 ∧
      s.Queued 2 ∧ Effect.missing 2 ∉ s.effects ∧
      ∃ record, s.jobs.get 2 = some record := by
  let cfg : Config := { Config.default with jobRetentionLimit := 2 }
  have hguard : ∀ (s : Server String) (a : Action String), a.withinLimit cfg s = true →
      a.AppendsSucceed ∧ RetentionSpares cfg s a := by
    intro s a h
    obtain ⟨-, happends, hlen⟩ := Action.of_withinLimit h
    exact ⟨happends, fun _ _ _ => sparesUnfinished_of_len_le hlen⟩
  have hexec : (runActions (Server.step cfg) (fun s a => a.withinLimit cfg s)
      (Server.initial cfg)
      (enqueueActions (sampleRecord 1 5 none) ++ enqueueActions (sampleRecord 2 6 none) ++
        readyActions 0 ++ inferActions 0 8 ++ finishActions 0 9)).any queuesSecond = true := by
    decide +kernel
  obtain ⟨s, hrun, htest⟩ := exists_run_of_any hguard hexec
  simp only [queuesSecond, Bool.and_eq_true, decide_eq_true_eq, Option.isNone_iff_eq_none,
    Bool.not_eq_true'] at htest
  obtain ⟨hqueue, hidle, hfirst, hsecond, hentered⟩ := htest
  have hids : ∀ id, s.Queued id ↔ id = 2 := by
    intro id
    have hmem : s.Queued id ↔ id ∈ s.queue.map JobRequest.id := List.mem_map.symm
    rw [hmem, hqueue, List.mem_singleton]
  obtain ⟨-, -, hfinished⟩ := accepted_jobs_finish_once (started_initial cfg) hrun hfirst
  obtain ⟨hpresent, hmissing, -⟩ := accepted_jobs_finish_once (started_initial cfg) hrun hsecond
  obtain ⟨hresults, hwebhook, hcleanup⟩ := hfinished
    (fun hqueued => absurd ((hids 1).mp hqueued) (by decide))
    (by
      rintro ⟨w, pc, hheld⟩
      cases w with
      | zero => rw [hidle] at hheld; cases hheld
      | succ w =>
          rw [run_idleBeyond (started_initial cfg) hrun (w + 1) (Nat.le_add_left 1 w)] at hheld
          cases hheld)
  exact ⟨s, hresults, hwebhook, hcleanup, (hids 2).mpr rfl, hmissing, hpresent hentered⟩

/-- The second job was accepted and is gone without being finished. -/
def losesSample (s : Server String) : Bool :=
  (s.calls 2).isAccepted &&
    (!(s.effectsOf 2).any Effect.entersFinish && (s.jobs.get 2).isNone)

/--
With a limit of one, the job that finishes first evicts the one that is still
queued.
-/
theorem accepted_job_loses_its_record :
    ¬ ∀ (cfg : Config) (s₀ s : Server String) (id : Uuid),
      Started cfg s₀ →
      Run (Server.step cfg) (fun _ a => a.FromHandlers ∧ a.AppendsSucceed ∧ a.NoDrop) s₀ s →
      (s.calls id).isAccepted = true →
      (s.effectsOf id).any Effect.entersFinish = false →
      ∃ record, s.jobs.get id = some record := by
  intro hclaim
  let cfg : Config := { Config.default with jobRetentionLimit := 1 }
  have hexec : (runActions (Server.step cfg) (fun _ a => a.undisturbed) (Server.initial cfg)
      (enqueueActions (sampleRecord 1 5 none) ++ enqueueActions (sampleRecord 2 6 none) ++
        readyActions 0 ++ inferActions 0 8 ++ finishActions 0 9)).any losesSample = true := by
    decide +kernel
  obtain ⟨s, hrun, htest⟩ := exists_run_of_any (fun _ _ h => Action.of_undisturbed h) hexec
  obtain ⟨haccepted, hrest⟩ := Bool.and_eq_true_iff.mp htest
  obtain ⟨hentered, hnone⟩ := Bool.and_eq_true_iff.mp hrest
  obtain ⟨record, hrecord⟩ := hclaim cfg _ s 2 (started_initial cfg) hrun haccepted
    (by simpa using hentered)
  rw [hrecord] at hnone
  cases hnone

end Completion
end FlorenceServer
