import FlorenceServer.Jobs.Durability

/-!
# What a finished job is owed

A terminal record owes its job a line in the results file, a call of its webhook
and the removal of its uploaded image.  `finish_job` performs all three, the
recovery at startup only the first.  The two agree exactly as long as no process
dies while an accepted job is still owed a webhook call or a removal.
-/

namespace FlorenceServer

open JobRecord Runs

variable {M : Type}

section Duties

/-- An upload whose image lies below `dir`. -/
def ownsImage (dir : PathBuf) (record : JobRecord M) : Bool :=
  record.inputKind == "upload" && pathIsInside record.imagePath dir

theorem shouldDeleteImage_eq (cfg : Config) (record : JobRecord M) :
    shouldDeleteImage cfg record = ownsImage cfg.imagesDir record := rfl

theorem JobRecord.SameSubmission.ownsImage_eq
    {record submitted : JobRecord M}
    (h : record.SameSubmission submitted) (dir : PathBuf) :
    ownsImage dir record = ownsImage dir submitted := by
  unfold ownsImage
  rw [h.inputKind, h.imagePath]

/-- Everything that is owed for the terminal record has been done. -/
structure Discharged (dir : PathBuf) (effects : List (Effect M))
    (final : JobRecord M) : Prop where
  appended : (∃ outcome, .appended final outcome ∈ effects ∧
      outcome.lines final = [final]) ∨ .recovered final ∈ effects
  webhook : final.webhookUrl = none ∨
    ∃ delivery, .webhook final delivery ∈ effects ∧ delivery.Completes final
  image : ownsImage dir final = false ∨
    ∃ removal, .cleanup final (some removal) ∈ effects

theorem Discharged.mono
    {dir : PathBuf} {effects effects' : List (Effect M)} {final : JobRecord M}
    (h : Discharged dir effects final)
    (hsubset : effects ⊆ effects') :
    Discharged dir effects' final where
  appended := h.appended.imp
    (fun ⟨outcome, hmem, hline⟩ => ⟨outcome, hsubset hmem, hline⟩) (fun hmem => hsubset hmem)
  webhook := h.webhook.imp id (fun ⟨delivery, hmem, hdone⟩ => ⟨delivery, hsubset hmem, hdone⟩)
  image := h.image.imp id (fun ⟨removal, hmem⟩ => ⟨removal, hsubset hmem⟩)

/-- A step of `finish_job` that did what it is there for. -/
def Effect.Done (dir : PathBuf) : Effect M → Prop
  | .appended _ outcome => outcome ≠ .failed false
  | .webhook final delivery => final.webhookUrl = none ∨ delivery.Completes final
  | .cleanup final removal => ownsImage dir final = false ∨ removal.isSome = true
  | .submitted _ | .accepted _ | .finished _ | .missing _ | .recovered _ => True

/-- A record that went through the steps of `finish_job` it needs. -/
theorem discharged_of_steps
    {dir : PathBuf} {effects : List (Effect M)} {final : JobRecord M}
    (hdone : ∀ e ∈ effects, e.Done dir)
    (happended : ∃ outcome, .appended final outcome ∈ effects)
    (hwebhook : final.webhookUrl = none ∨ ∃ delivery, .webhook final delivery ∈ effects)
    (himage : ownsImage dir final = false ∨ ∃ removal, .cleanup final removal ∈ effects) :
    Discharged dir effects final where
  appended := by
    obtain ⟨outcome, hmem⟩ := happended
    have hwritten : outcome ≠ .failed false := hdone _ hmem
    exact Or.inl ⟨outcome, hmem, AppendOutcome.lines_eq hwritten final⟩
  webhook := by
    rcases hwebhook with hnone | ⟨delivery, hmem⟩
    · exact Or.inl hnone
    · have hcalled : final.webhookUrl = none ∨ delivery.Completes final := hdone _ hmem
      exact hcalled.imp id (fun hcompletes => ⟨delivery, hmem, hcompletes⟩)
  image := by
    rcases himage with hnone | ⟨removal, hmem⟩
    · exact Or.inl hnone
    · have hcleaned : ownsImage dir final = false ∨ removal.isSome = true := hdone _ hmem
      rcases hcleaned with hnone | hsome
      · exact Or.inl hnone
      · obtain ⟨result, rfl⟩ := Option.isSome_iff_exists.mp hsome
        exact Or.inr ⟨result, hmem⟩

/-- The record became terminal in `finish_job` or in the recovery at startup. -/
def MadeTerminal (effects : List (Effect M)) (final : JobRecord M) : Prop :=
  .finished final ∈ effects ∨ .recovered final ∈ effects

/-- No accepted job is in the middle of its duties. -/
structure NothingOwed (dir : PathBuf) (effects : List (Effect M)) : Prop where
  appended : ∀ final, .finished final ∈ effects → ∃ outcome, .appended final outcome ∈ effects
  webhook : ∀ record, .submitted record ∈ effects → .accepted record.id ∈ effects →
    record.webhookUrl = none ∨
      ∃ final delivery, .webhook final delivery ∈ effects ∧ final.id = record.id
  image : ∀ record, .submitted record ∈ effects → .accepted record.id ∈ effects →
    ownsImage dir record = false ∨
      ∃ final removal, .cleanup final removal ∈ effects ∧ final.id = record.id

/-- Processes only die when nothing is owed, result lines and the dead letters that
are needed get written, and the image directory stays the same. -/
def KeepsDuties (dir : PathBuf) : World M → WorldAction M → Prop
  | _, .boot cfg _ _ => cfg.imagesDir = dir
  | .down _ _ _, .crash => True
  | .down _ _ _, .act _ => True
  | .serving _ s, .crash => NothingOwed dir s.effects
  | .serving _ _, .act (.worker _ (.append outcome)) => outcome ≠ .failed false
  | .serving cfg s, .act (.worker i (.notify env)) =>
      ∀ final restart, s.loops i = .notifying final restart → final.webhookUrl = none ∨
        (∃ number, 1 ≤ number ∧ number ≤ (WebhookClient.fromConfig cfg).maxAttempts ∧
          env.attempt number = .ok ()) ∨
        env.deadLetter ≠ .failed false
  | .serving _ _, .act a => a.FromHandlers

theorem KeepsDuties.fromHandlers
    {dir : PathBuf} {cfg : Config} {s : Server M} {a : Action M}
    (h : KeepsDuties dir (.serving cfg s) (.act a)) :
    a.FromHandlers := by
  cases a with
  | submit record => exact h
  | _ => trivial

end Duties

section DutiesAtRest

variable {dir : PathBuf} {id : Uuid} {t t' : Traces M}
variable {now : Uuid → OffsetDateTime} {lossy : Prop}

/-- The duties towards an accepted job while no process runs. -/
structure Traces.DutyDone (dir : PathBuf) (t : Traces M) : Prop where
  discharged : ∀ final, MadeTerminal t.effects final → Discharged dir t.effects final
  pending : ∀ record, t.last = some record → record.status.isUnfinished = true →
    record.webhookUrl = none ∧ ownsImage dir record = false
  accounted : ∀ final ∈ t.results, MadeTerminal t.effects final

def Traces.Duty (dir : PathBuf) (id : Uuid) (t : Traces M) : Prop :=
  .accepted id ∈ t.effects → t.DutyDone dir

/-- The loaded record was made terminal by a process or by its recovery. -/
theorem Traces.DutyDone.loaded_madeTerminal
    (h : t.DutyDone dir)
    (hhistory : History id t)
    (hreloaded : Reloaded now lossy t t')
    {final : JobRecord M} (hloaded : t.loaded now = some final) :
    MadeTerminal t'.effects final := by
  rw [hreloaded.effects]
  rcases hhistory.last_cases with ⟨hlast, -, -⟩ | ⟨record, hlast, -, hunstarted, -, -, -⟩ |
    ⟨record, current, hlast, -, -, hfinal, hresults, -⟩
  · simp [Traces.loaded, hlast] at hloaded
  · refine Or.inr (List.mem_append_right _ (List.mem_map_of_mem ?_))
    have hunfinished : record.status.isUnfinished = true := by
      rw [hunstarted.queued]
      rfl
    rw [Traces.loaded, hlast, Option.map_some, Option.some.injEq] at hloaded
    simp [Traces.recovered, hlast, Option.filter, hunfinished, hloaded]
  · rw [Traces.loaded, hlast, Option.map_some, Option.some.injEq,
      recoverRecord_of_terminal hfinal.terminal] at hloaded
    have hmade := h.accounted current (by rw [hresults]; exact List.mem_singleton_self _)
    rw [← hloaded]
    exact hmade.imp (List.mem_append_left _) (List.mem_append_left _)

/-- After `load_jobs` no job is unfinished. -/
theorem Reloaded.last_terminal
    (hreloaded : Reloaded now lossy t t')
    {record : JobRecord M} (hlast : t'.last = some record) :
    record.Terminal := by
  cases hreloaded with
  | written submissions hkept =>
      cases hloaded : t.loaded now with
      | some final =>
          have hsame : final = record := by
            simpa [Traces.last, Traces.reloaded, hloaded] using hlast
          obtain ⟨current, -, hcurrent⟩ := Option.map_eq_some_iff.mp hloaded
          rw [← hsame, ← hcurrent]
          exact recoverRecord_terminal now current
      | none =>
          have hnone : t.last = none := Option.map_eq_none_iff.mp hloaded
          have hempty : t.submissions = [] := by
            rw [Traces.last, Option.or_eq_none_iff] at hnone
            exact List.getLast?_eq_none_iff.mp hnone.2
          rw [hempty, or_self] at hkept
          simp [Traces.last, Traces.reloaded, hloaded, hkept] at hlast
  | dropped hlossy => cases hlast

theorem Traces.Duty.reloaded
    (h : t.Duty dir id)
    (hhistory : History id t)
    (hreloaded : Reloaded now lossy t t') :
    t'.Duty dir id := by
  intro haccepted
  have heffects := hreloaded.effects
  have hbefore : .accepted id ∈ t.effects := by
    rw [heffects] at haccepted
    simpa using haccepted
  have hduty := h hbefore
  have hsubset : t.effects ⊆ t'.effects := by
    rw [heffects]
    exact List.subset_append_left _ _
  refine ⟨?_, ?_, ?_⟩
  · intro final hfinal
    by_cases hold : MadeTerminal t.effects final
    · exact (hduty.discharged final hold).mono hsubset
    · have hnew : .recovered final ∈ (t.recovered now).map Effect.recovered := by
        rcases hfinal with hfinished | hrecovered
        · rw [heffects] at hfinished
          exact absurd (Or.inl (by simpa using hfinished)) hold
        · rw [heffects] at hrecovered
          rcases List.mem_append.mp hrecovered with hmem | hmem
          · exact absurd (Or.inr hmem) hold
          · exact hmem
      have hmem : .recovered final ∈ t'.effects := by
        rw [heffects]
        exact List.mem_append_right _ hnew
      obtain ⟨record, hrecord, hsame⟩ := List.mem_map.mp hnew
      cases hsame
      rw [Traces.recovered, Option.mem_toList, Option.map_eq_some_iff] at hrecord
      obtain ⟨current, hcurrent, rfl⟩ := hrecord
      obtain ⟨hlast, hunfinished⟩ := Option.filter_eq_some_iff.mp hcurrent
      obtain ⟨hwebhook, himage⟩ := hduty.pending current hlast hunfinished
      have hfailed : recoverRecord now current =
          current.failedWith (now current.id) restartError := if_pos hunfinished
      rw [hfailed] at hmem ⊢
      exact ⟨Or.inr hmem, Or.inl hwebhook, Or.inl himage⟩
  · intro record hlast hunfinished
    have hterminal := hreloaded.last_terminal hlast
    rw [← isUnfinished_eq_false_iff, hunfinished] at hterminal
    cases hterminal
  · intro final hfinal
    exact hduty.loaded_madeTerminal hhistory hreloaded (hreloaded.result_loaded hfinal)

end DutiesAtRest

section DutiesInProcess

variable {dir : PathBuf} {id : Uuid} {L L' : Life M} {cfg : Config}

/-- In a process, every step done was done right, and the jobs of earlier processes
have had what they are owed. -/
structure Life.Dutiful (dir : PathBuf) (id : Uuid) (L : Life M) : Prop where
  known : L.Known id
  done : ∀ e ∈ L.effects, e.Done dir
  past : L.stage = .past → L.traces.Duty dir id
  pastRecord : L.stage = .past → .accepted id ∈ L.effects →
    ∀ final, L.record = some final → MadeTerminal L.effects final

/-- What the log says about a job whose request was accepted in this process. -/
inductive Life.Progress (L : Life M) (record : JobRecord M) : Prop where
  /-- `finish_job` has not changed the record -/
  | unfinished
      (hnone : ∀ final, ¬ MadeTerminal L.effects final)
      (hsteps : ∀ e ∈ L.effects, e.isWebhook = false ∧ e.isCleanup = false)
      (hresults : L.results = [])
      (hsubmissions : L.submissions = [record])
  /-- `finish_job` has made it this record -/
  | finished (final : JobRecord M)
      (hfinal : FinalOf final record)
      (hfinished : .finished final ∈ L.effects)
      (honly : ∀ other, MadeTerminal L.effects other → other = final)
      (hwebhook : ∀ other delivery, .webhook other delivery ∈ L.effects → other = final)
      (hcleanup : ∀ other removal, .cleanup other removal ∈ L.effects → other = final)
      (hresults : ∀ outcome, .appended final outcome ∈ L.effects →
        L.results = outcome.lines final)

theorem Life.HeldOk.progress
    {record : JobRecord M} {pc : HeldPc M}
    (h : L.HeldOk record pc)
    (hsubmissions : L.submissions = [record]) :
    L.Progress record := by
  cases pc with
  | waiting =>
      obtain ⟨-, hresults, heffects⟩ := h
      exact .unfinished (by simp [MadeTerminal, heffects, sentEffects])
        (by simp [heffects, sentEffects, Effect.isWebhook, Effect.isCleanup])
        hresults hsubmissions
  | executing =>
      obtain ⟨-, hresults, heffects⟩ := h
      exact .unfinished (by simp [MadeTerminal, heffects, sentEffects])
        (by simp [heffects, sentEffects, Effect.isWebhook, Effect.isCleanup])
        hresults hsubmissions
  | appending final =>
      obtain ⟨hfinal, -, hresults, heffects⟩ := h
      exact .finished final hfinal (by simp [heffects])
        (by simp [MadeTerminal, heffects, sentEffects]) (by simp [heffects, sentEffects])
        (by simp [heffects, sentEffects]) (by simp [heffects, sentEffects])
  | notifying final =>
      obtain ⟨hfinal, -, outcome, hresults, heffects⟩ := h
      exact .finished final hfinal (by simp [heffects])
        (by simp [MadeTerminal, heffects, sentEffects]) (by simp [heffects, sentEffects])
        (by simp [heffects, sentEffects])
        (by simp +contextual [heffects, hresults, sentEffects])
  | cleaning final =>
      obtain ⟨hfinal, -, outcome, delivery, hresults, heffects⟩ := h
      exact .finished final hfinal (by simp [heffects])
        (by simp [MadeTerminal, heffects, sentEffects])
        (by simp +contextual [heffects, sentEffects]) (by simp [heffects, sentEffects])
        (by simp +contextual [heffects, hresults, sentEffects])

/-- An accepted job of this process is queued, held, or has come to its end. -/
theorem Life.Ok.progress
    (hok : L.Ok id)
    (haccepted : .accepted id ∈ L.effects)
    (hpast : L.stage ≠ .past) :
    ∃ record, L.stage.submitted = some record ∧ L.Progress record := by
  unfold Ok at hok
  cases hstage : L.stage with
  | past => exact absurd hstage hpast
  | fresh => simp_all
  | checking record => simp_all
  | calling sub pc => simp_all
  | queued record =>
      simp only [hstage] at hok
      obtain ⟨-, -, hsub, hres, heff⟩ := hok
      exact ⟨record, rfl, .unfinished (by simp [MadeTerminal, heff, sentEffects])
        (by simp [heff, sentEffects, Effect.isWebhook, Effect.isCleanup]) hres hsub⟩
  | held record w pc =>
      simp only [hstage] at hok
      exact ⟨record, rfl, hok.2.2.progress hok.2.1⟩
  | settled record ending =>
      simp only [hstage] at hok
      refine ⟨record, rfl, ?_⟩
      cases hok.2 with
      | completed final outcome delivery removal hfinal hrec hsub hres heff =>
          exact .finished final hfinal (by simp [heff])
            (by simp [MadeTerminal, heff, sentEffects])
            (by simp +contextual [heff, sentEffects]) (by simp +contextual [heff, sentEffects])
            (by simp +contextual [heff, hres, sentEffects])
      | lost hrec hsub hres heff =>
          exact .unfinished (by simp [MadeTerminal, heff, sentEffects])
            (by simp [heff, sentEffects, Effect.isWebhook, Effect.isCleanup]) hres hsub
      | rejected err herr hrec hsub hres heff => simp [heff] at haccepted
      | unsaved written hrec hsub hres heff => simp [heff] at haccepted
      | rolledBack err now reason outcome hrec hsub hres heff => simp [heff] at haccepted
      | dropped hrec hsub hres heff => simp [heff] at haccepted
      | droppedPersisting now reason written hrec hsub hres heff => simp [heff] at haccepted

/-- A job that no worker holds has been through all steps of `finish_job`, or none. -/
theorem Life.Ok.steps_of_settled
    (hok : L.Ok id)
    (hpast : L.stage ≠ .past)
    (hholder : L.stage.holder = none)
    {final : JobRecord M} (hfinal : MadeTerminal L.effects final) :
    (∃ outcome, .appended final outcome ∈ L.effects) ∧
      (∃ delivery, .webhook final delivery ∈ L.effects) ∧
      ∃ removal, .cleanup final removal ∈ L.effects := by
  unfold Ok at hok
  cases hstage : L.stage with
  | past => exact absurd hstage hpast
  | fresh => simp_all [MadeTerminal]
  | checking record => simp_all [MadeTerminal]
  | calling sub pc => simp_all [MadeTerminal]
  | queued record => simp_all [MadeTerminal, sentEffects]
  | held record w pc => simp [hstage, Stage.holder] at hholder
  | settled record ending =>
      simp only [hstage] at hok
      cases hok.2 with
      | completed current outcome delivery removal hcurrent hrec hsub hres heff =>
          have hsame : final = current := by
            simpa [MadeTerminal, heff, sentEffects] using hfinal
          subst hsame
          exact ⟨⟨outcome, by simp [heff]⟩, ⟨delivery, by simp [heff]⟩,
            ⟨removal, by simp [heff]⟩⟩
      | lost hrec hsub hres heff => simp [MadeTerminal, heff, sentEffects] at hfinal
      | rejected err herr hrec hsub hres heff => simp [MadeTerminal, heff] at hfinal
      | unsaved written hrec hsub hres heff => simp [MadeTerminal, heff] at hfinal
      | rolledBack err now reason outcome hrec hsub hres heff =>
          simp [MadeTerminal, heff] at hfinal
      | dropped hrec hsub hres heff => simp [MadeTerminal, heff] at hfinal
      | droppedPersisting now reason written hrec hsub hres heff =>
          simp [MadeTerminal, heff] at hfinal

/-- A crash while nothing is owed leaves the duties towards a job done. -/
theorem Life.Ok.duty_of_crash
    (hok : L.Ok id)
    (hdutiful : L.Dutiful dir id)
    (happended : ∀ final, .finished final ∈ L.effects →
      ∃ outcome, .appended final outcome ∈ L.effects)
    (hwebhook : ∀ record, L.stage.submitted = some record → .accepted id ∈ L.effects →
      record.webhookUrl = none ∨ ∃ final delivery, .webhook final delivery ∈ L.effects)
    (himage : ∀ record, L.stage.submitted = some record → .accepted id ∈ L.effects →
      ownsImage dir record = false ∨ ∃ final removal, .cleanup final removal ∈ L.effects) :
    L.traces.Duty dir id := by
  by_cases hpast : L.stage = .past
  · exact hdutiful.past hpast
  intro haccepted
  obtain ⟨record, hsubmitted, hprogress⟩ := hok.progress haccepted hpast
  have hwebhook' := hwebhook record hsubmitted haccepted
  have himage' := himage record hsubmitted haccepted
  cases hprogress with
  | unfinished hnone hsteps hresults hsubmissions =>
      refine ⟨fun final hfinal => absurd hfinal (hnone final), ?_, ?_⟩
      · intro current hlast _
        have hsame : record = current := by
          simpa [Traces.last, Life.traces, hresults, hsubmissions] using hlast
        subst hsame
        constructor
        · rcases hwebhook' with hurl | ⟨final, delivery, hmem⟩
          · exact hurl
          · cases (hsteps _ hmem).1
        · rcases himage' with howned | ⟨final, removal, hmem⟩
          · exact howned
          · cases (hsteps _ hmem).2
      · intro final hfinal
        have hmem : final ∈ L.results := hfinal
        rw [hresults] at hmem
        cases hmem
  | finished final hfinal hfinished honly hwebhooks hcleanups hresults =>
      obtain ⟨outcome, hmem⟩ := happended final hfinished
      have hline : L.results = [final] := by
        have hwritten : outcome ≠ .failed false := hdutiful.done _ hmem
        rw [hresults outcome hmem, AppendOutcome.lines_eq hwritten]
      have hsame := hfinal.sameSubmission
      refine ⟨?_, ?_, ?_⟩
      · intro other hother
        rw [honly other hother]
        refine discharged_of_steps hdutiful.done ⟨outcome, hmem⟩ ?_ ?_
        · rcases hwebhook' with hurl | ⟨called, delivery, hcalled⟩
          · exact Or.inl (hsame.webhookUrl.trans hurl)
          · exact Or.inr ⟨delivery, hwebhooks called delivery hcalled ▸ hcalled⟩
        · rcases himage' with howned | ⟨cleaned, removal, hcleaned⟩
          · exact Or.inl ((hsame.ownsImage_eq dir).trans howned)
          · exact Or.inr ⟨removal, hcleanups cleaned removal hcleaned ▸ hcleaned⟩
      · intro current hlast hunfinished
        have hlast' : final = current := by
          simpa [Traces.last, Life.traces, hline] using hlast
        have hterminal := hfinal.terminal
        rw [hlast', ← isUnfinished_eq_false_iff, hunfinished] at hterminal
        cases hterminal
      · intro other hother
        have hmem' : other ∈ L.results := hother
        rw [hline, List.mem_singleton] at hmem'
        exact Or.inl (hmem' ▸ hfinished)

/-- Every step of `finish_job` under these conditions is done right. -/
theorem LifeStep.done
    {a : Action M}
    (hstep : LifeStep cfg id a L L')
    (hdir : cfg.imagesDir = dir)
    (happend : ∀ w outcome, a = .worker w (.append outcome) → outcome ≠ .failed false)
    (hnotify : ∀ w env record final, a = .worker w (.notify env) →
      L.stage = .held record w (.notifying final) → final.webhookUrl = none ∨
        (∃ number, 1 ≤ number ∧ number ≤ (WebhookClient.fromConfig cfg).maxAttempts ∧
          env.attempt number = .ok ()) ∨
        env.deadLetter ≠ .failed false)
    (hdone : ∀ e ∈ L.effects, e.Done dir) :
    ∀ e ∈ L'.effects, e.Done dir := by
  -- every step adds at most one effect
  have hadd : ∀ new : Effect M, new.Done dir →
      ∀ e ∈ L.effects ++ [new], e.Done dir := by
    intro new hnew e he
    rcases List.mem_append.mp he with hold | hlast
    · exact hdone e hold
    · rw [List.mem_singleton.mp hlast]
      exact hnew
  cases hstep with
  | appendResult record final w outcome hstage => exact hadd _ (happend w outcome rfl)
  | notify record final w env hstage =>
      refine hadd _ ?_
      by_cases hurl : final.webhookUrl = none
      · exact Or.inl hurl
      · have hsent := (hnotify w env record final rfl hstage).resolve_left hurl
        exact Or.inr (deliver_completes _ env final hurl (by
          unfold WebhookClient.fromConfig WebhookClient.new
          exact Nat.le_max_right _ _) hsent)
  | cleanup record final w removal hstage =>
      refine hadd _ ?_
      unfold cleanupJobArtifacts
      rw [shouldDeleteImage_eq, hdir]
      cases howned : ownsImage dir final with
      | true => exact Or.inr rfl
      | false => exact Or.inl howned
  | submit record hid hstage => exact hadd _ trivial
  | send sub hstage => exact hadd _ trivial
  | publish record current w now result hstage hrecord => exact hadd _ trivial
  | miss record w now hstage hrecord => exact hadd _ trivial
  | _ => exact hdone

end DutiesInProcess

section DutiesOverRuns

variable {dir : PathBuf} {id : Uuid}

/-- In a process that owes nothing, no job is owed anything. -/
theorem NothingOwed.duty
    {s : Server M} {lives : Uuid → Life M}
    (h : NothingOwed dir s.effects)
    (htracks : Tracks s lives)
    (hdutiful : (lives id).Dutiful dir id) :
    (lives id).traces.Duty dir id := by
  have hok := (htracks id).2
  have hmem := htracks.mem_effects_iff id
  have hsubmitted : ∀ record, (lives id).stage.submitted = some record →
      record.id = id ∧ .submitted record ∈ s.effects := by
    intro record hrecord
    have honly := (hok.submitted hrecord).only
    exact ⟨hok.submitted_id hrecord, ((hmem _).mp ((honly record).mpr rfl)).1⟩
  refine hok.duty_of_crash hdutiful ?_ ?_ ?_
  · intro final hfinished
    obtain ⟨hfinal, hid⟩ := (hmem _).mp hfinished
    obtain ⟨outcome, happended⟩ := h.appended final hfinal
    exact ⟨outcome, (hmem _).mpr ⟨happended, hid⟩⟩
  · intro record hrecord haccepted
    obtain ⟨hid, hlogged⟩ := hsubmitted record hrecord
    rcases h.webhook record hlogged (hid ▸ ((hmem _).mp haccepted).1) with
      hnone | ⟨final, delivery, hcalled, hsame⟩
    · exact Or.inl hnone
    · exact Or.inr ⟨final, delivery, (hmem _).mpr ⟨hcalled, hsame.trans hid⟩⟩
  · intro record hrecord haccepted
    obtain ⟨hid, hlogged⟩ := hsubmitted record hrecord
    rcases h.image record hlogged (hid ▸ ((hmem _).mp haccepted).1) with
      hnone | ⟨final, removal, hcleaned, hsame⟩
    · exact Or.inl hnone
    · exact Or.inr ⟨final, removal, (hmem _).mpr ⟨hcleaned, hsame.trans hid⟩⟩

/-- Duties are kept over processes and crashes. -/
theorem dutyRules (dir : PathBuf) :
    WorldRules (M := M) (KeepsDuties dir)
      (fun id t => History id t ∧ (∀ e ∈ t.effects, e.Done dir) ∧ t.Duty dir id)
      (fun cfg id L => cfg.imagesDir = dir ∧ L.Dutiful dir id) where
  history := fun _ _ h => h.1
  empty := by
    intro id
    exact ⟨.unused rfl rfl rfl, by simp [Traces.empty], by simp [Traces.Duty, Traces.empty]⟩
  reload := by
    intro disk effects reads cfg choice crashAfter id t' _ h hreloaded
    obtain ⟨hhistory, hdone, hduty⟩ := h id
    refine ⟨hhistory.reloaded hreloaded, ?_, hduty.reloaded hhistory hreloaded⟩
    intro e he
    rw [hreloaded.effects] at he
    rcases List.mem_append.mp he with hold | hnew
    · exact hdone e hold
    · obtain ⟨record, -, rfl⟩ := List.mem_map.mp hnew
      exact trivial
  start := by
    intro disk effects reads cfg choice id L hok h hreloaded hrest hlife hstage hrecord
    obtain ⟨hhistory, hdone, hduty⟩ := h id
    refine ⟨hok, historyRules.start disk effects reads cfg choice id L trivial
      (fun id => (h id).1) hreloaded hrest.1 hlife hstage hrecord, hrest.2.1,
      fun _ => hrest.2.2, ?_⟩
    intro _ haccepted final hfinal
    have hbefore : .accepted id ∈ (tracesOf disk effects reads id).effects := by
      have hmem : .accepted id ∈ L.traces.effects := haccepted
      rw [hreloaded.effects] at hmem
      simpa using hmem
    rcases hrecord with hnone | hloaded
    · rw [hnone] at hfinal
      cases hfinal
    · exact (hduty hbefore).loaded_madeTerminal hhistory hreloaded
        (hloaded.symm.trans hfinal)
  step := by
    intro cfg s a s' lives lives' id hok _ htracks _ hlife h
    obtain ⟨hdir, hdutiful⟩ := h
    refine ⟨hdir, hdutiful.known.step hlife hok.fromHandlers, ?_, ?_, ?_⟩
    · refine hlife.done hdir ?_ ?_ hdutiful.done
      · rintro w outcome rfl
        exact hok
      · rintro w env record final rfl hstage
        have hheld := ((htracks id).1.holder w (.notifying final)).mpr (by rw [hstage]; rfl)
        obtain ⟨-, restart, hloop⟩ := WorkerLoop.eq_notifying_of_held hheld
        exact hok final restart hloop
    · intro hpast
      obtain ⟨hbefore, hsub, hres, heff, -⟩ := hlife.past hpast
      have hduty := hdutiful.past hbefore
      intro haccepted
      have hdone := hduty (by simpa only [Life.traces, heff] using haccepted)
      constructor
      · simpa only [Life.traces, heff] using hdone.discharged
      · simpa only [Traces.last, Life.traces, hsub, hres] using hdone.pending
      · simpa only [Life.traces, hres, heff] using hdone.accounted
    · intro hpast haccepted final hfinal
      obtain ⟨hbefore, -, -, heff, hrecord⟩ := hlife.past hpast
      rw [heff] at haccepted ⊢
      rcases hrecord with hsame | hnone
      · exact hdutiful.pastRecord hbefore haccepted final (hsame.symm.trans hfinal)
      · rw [hnone] at hfinal
        cases hfinal
  crash := by
    intro cfg s lives id hok htracks h
    exact ⟨(htracks id).2.history h.2.known, h.2.done, NothingOwed.duty hok htracks h.2⟩

/-- A worker of the running process is busy with the job. -/
def World.Held (w : World M) (id : Uuid) : Prop :=
  match w with
  | .down _ _ _ => False
  | .serving _ s => s.Held id

/-- A terminal map entry of an accepted job that no worker holds was made terminal. -/
theorem Life.Ok.record_madeTerminal
    {L : Life M}
    (hok : L.Ok id)
    (hdutiful : L.Dutiful dir id)
    (hholder : L.stage.holder = none)
    (haccepted : .accepted id ∈ L.effects)
    {final : JobRecord M} (hrecord : L.record = some final) (hterminal : final.Terminal) :
    MadeTerminal L.effects final := by
  by_cases hpast : L.stage = .past
  · exact hdutiful.pastRecord hpast haccepted final hrecord
  unfold Ok at hok
  cases hstage : L.stage with
  | past => exact absurd hstage hpast
  | fresh => simp_all
  | checking record => simp_all
  | calling sub pc => simp_all
  | queued record =>
      simp only [hstage] at hok
      rw [Resident.eq_of_some hok.2.1 hrecord] at hterminal
      have hqueued := (hdutiful.known.unstarted _ (by rw [hstage]; rfl)).queued
      exact absurd hterminal ((not_terminal_iff _).mpr (Or.inl hqueued))
  | held record w pc => simp [hstage, Stage.holder] at hholder
  | settled record ending =>
      simp only [hstage] at hok
      cases hok.2 with
      | completed current outcome delivery removal hcurrent hrec hsub hres heff =>
          cases Resident.eq_of_some hrec hrecord
          exact Or.inl (by simp [heff])
      | lost hrec hsub hres heff => simp [hrec] at hrecord
      | rejected err herr hrec hsub hres heff => simp [hrec] at hrecord
      | unsaved written hrec hsub hres heff => simp [heff] at haccepted
      | rolledBack err now reason outcome hrec hsub hres heff => simp [hrec] at hrecord
      | dropped hrec hsub hres heff => simp [heff] at haccepted
      | droppedPersisting now reason written hrec hsub hres heff => simp [hrec] at hrecord

/--
Every accepted job that has become terminal, by `finish_job` or by the recovery
at startup, has had all that it is owed as soon as no worker holds it, if no
process dies while a job is owed something.
-/
theorem terminal_jobs_are_discharged
    {codec : RecordCodec M} (hcodec : codec.Lawful)
    {w : World M}
    (hrun : Run (World.step codec) (KeepsDuties dir) World.empty w)
    {final : JobRecord M}
    (haccepted : .accepted final.id ∈ w.effects)
    (hidle : ¬ w.Held final.id) :
    (MadeTerminal w.effects final → Discharged dir w.effects final) ∧
    (w.jobs.get final.id = some final → final.Terminal → Discharged dir w.effects final) := by
  have hholds := run_world hcodec (dutyRules dir) hrun
  have hlocal : .accepted final.id ∈ (w.traces final.id).effects :=
    List.mem_filter.mpr ⟨haccepted, by simp [Effect.jobId]⟩
  have hsubset : (w.traces final.id).effects ⊆ w.effects :=
    List.filter_sublist.subset
  have hmade : MadeTerminal w.effects final → MadeTerminal (w.traces final.id).effects final :=
    fun h => h.imp (fun hmem => List.mem_filter.mpr ⟨hmem, by simp [Effect.jobId]⟩)
      (fun hmem => List.mem_filter.mpr ⟨hmem, by simp [Effect.jobId]⟩)
  cases w with
  | down disk effects reads =>
      have hduty := (hholds final.id).2.2 hlocal
      exact ⟨fun h => (hduty.discharged final (hmade h)).mono hsubset,
        fun hrecord => by simp [World.jobs] at hrecord⟩
  | serving cfg s =>
      obtain ⟨lives, htracks, hlives⟩ := hholds
      obtain ⟨hview, hok⟩ := htracks final.id
      obtain ⟨-, hdutiful⟩ := hlives final.id
      have htraces : (World.serving cfg s).traces final.id = (lives final.id).traces :=
        hview.traces_eq
      have hholder : (lives final.id).stage.holder = none := by
        cases hstage : (lives final.id).stage.holder with
        | none => rfl
        | some holder =>
            exact absurd ⟨holder.1, holder.2, (hview.holder _ _).mpr hstage⟩ hidle
      rw [htraces] at hlocal hsubset hmade
      have hlocally : MadeTerminal (lives final.id).effects final →
          Discharged dir (World.serving cfg s).effects final := by
        intro hfinal
        refine Discharged.mono ?_ hsubset
        by_cases hpast : (lives final.id).stage = .past
        · exact (hdutiful.past hpast hlocal).discharged final hfinal
        · obtain ⟨happended, ⟨delivery, hcalled⟩, ⟨removal, hcleaned⟩⟩ :=
            hok.steps_of_settled hpast hholder hfinal
          exact discharged_of_steps hdutiful.done happended (Or.inr ⟨delivery, hcalled⟩)
            (Or.inr ⟨removal, hcleaned⟩)
      exact ⟨fun h => hlocally (hmade h), fun hrecord hterminal =>
        hlocally (hok.record_madeTerminal hdutiful hholder hlocal
          (hview.record.symm.trans hrecord) hterminal)⟩

end DutiesOverRuns

section DutySamples

/-- The image directory of the default configuration. -/
def sampleDir : PathBuf := Config.default.imagesDir

def sampleUrl : Option String := some "https://example.com/hook"

/-- An upload with a webhook, once its inference has succeeded. -/
def notifiedSample : JobRecord String :=
  ((sampleRecord 1 5 sampleUrl).markedRunning 8).succeededWith 9 "a red pixel"

/-- The same upload, recovered after a crash. -/
def recoveredSample : JobRecord String :=
  (sampleRecord 1 5 sampleUrl).failedWith 21 restartError

theorem notifiedTexts_differ :
    textsDiffer [sampleRecord 1 5 sampleUrl, notifiedSample, recoveredSample] = true := by
  decide +kernel

def Effect.finishedRecord : Effect M → Option (JobRecord M)
  | .finished record => some record
  | _ => none

def Effect.recoveredRecord : Effect M → Option (JobRecord M)
  | .recovered record => some record
  | _ => none

def Effect.appendedRecord : Effect M → Option (JobRecord M)
  | .appended record _ => some record
  | _ => none

def Effect.calledId : Effect M → Option Uuid
  | .webhook record _ => some record.id
  | _ => none

def Effect.cleanedId : Effect M → Option Uuid
  | .cleanup record _ => some record.id
  | _ => none

/-- Every submission has had its webhook call and its cleanup. -/
def owesNothing (effects : List (Effect String)) : Bool :=
  (effects.filterMap Effect.finishedRecord).all
    (effects.filterMap Effect.appendedRecord).contains &&
  (effects.filterMap Effect.submittedId).all (fun id =>
    (effects.filterMap Effect.calledId).contains id &&
      (effects.filterMap Effect.cleanedId).contains id)

theorem nothingOwed_of_owesNothing
    {effects : List (Effect String)}
    (h : owesNothing effects = true) (dir : PathBuf) :
    NothingOwed dir effects := by
  simp only [owesNothing, Bool.and_eq_true, List.all_eq_true, List.contains_iff_mem,
    List.mem_filterMap] at h
  obtain ⟨hfinished, hsubmitted⟩ := h
  refine ⟨?_, ?_, ?_⟩
  · intro final hmem
    obtain ⟨e, he, hsame⟩ := hfinished final ⟨_, hmem, rfl⟩
    cases e <;> simp only [Effect.appendedRecord, reduceCtorEq, Option.some.injEq] at hsame
    exact ⟨_, hsame ▸ he⟩
  · intro record hmem _
    obtain ⟨e, he, hsame⟩ := (hsubmitted record.id ⟨_, hmem, rfl⟩).1
    cases e <;> simp only [Effect.calledId, reduceCtorEq, Option.some.injEq] at hsame
    exact Or.inr ⟨_, _, he, hsame⟩
  · intro record hmem _
    obtain ⟨e, he, hsame⟩ := (hsubmitted record.id ⟨_, hmem, rfl⟩).2
    cases e <;> simp only [Effect.cleanedId, reduceCtorEq, Option.some.injEq] at hsame
    exact Or.inr ⟨_, _, he, hsame⟩

def keepsSampleDuties (w : World String) : WorldAction String → Bool
  | .boot cfg _ _ => decide (cfg.imagesDir = sampleDir)
  | .crash => owesNothing w.effects
  | .act a => a.fromSamples && decide a.AppendsSucceed

theorem keepsDuties_of_sample
    {w : World String} {a : WorldAction String}
    (h : keepsSampleDuties w a = true) :
    KeepsDuties sampleDir w a := by
  cases a with
  | boot cfg choice crashAfter => exact of_decide_eq_true (p := cfg.imagesDir = sampleDir) h
  | crash =>
      cases w with
      | down disk effects reads => trivial
      | serving cfg s => exact nothingOwed_of_owesNothing h sampleDir
  | act a =>
      obtain ⟨hsample, happends⟩ := Bool.and_eq_true_iff.mp h
      have hok : a.AppendsSucceed := of_decide_eq_true happends
      cases w with
      | down disk effects reads => trivial
      | serving cfg s =>
          cases a with
          | worker i action =>
              cases action with
              | append outcome =>
                  have hsame := hok outcome rfl
                  rw [hsame]
                  exact nofun
              | notify env =>
                  intro final restart _
                  have hsame := hok env.deadLetter rfl
                  exact Or.inr (Or.inr (by rw [hsame]; exact nofun))
              | _ => trivial
          | submit record => exact Action.fromHandlers_of_samples hsample
          | _ => trivial

/-- The process is down, and the upload was accepted and has finished. -/
def stopsFinished : World String → Bool
  | .serving _ _ => false
  | .down _ effects _ =>
      (acceptedIds effects).contains 1 &&
        (effects.filterMap Effect.finishedRecord).contains notifiedSample

/-- An upload is finished, its client notified and its image removed before the crash. -/
theorem terminal_jobs_are_discharged_sample :
    ∃ w : World String,
      .finished notifiedSample ∈ w.effects ∧ notifiedSample.webhookUrl ≠ none ∧
      ownsImage sampleDir notifiedSample = true ∧
      Discharged sampleDir w.effects notifiedSample := by
  have hexec : (runActions World.stepLoaded keepsSampleDuties World.empty
      (busyProcess sampleUrl ++ (finishActions 0 9).map .act ++ [.crash])).any stopsFinished =
        true := by
    decide +kernel
  have hcodec := textCodec_lawful notifiedTexts_differ
  obtain ⟨w, hrun, htest⟩ := exists_world_of_any hcodec
    (fun _ _ h => keepsDuties_of_sample h) hexec
  cases w with
  | serving _ _ => cases htest
  | down disk effects reads =>
      simp only [stopsFinished, Bool.and_eq_true, List.contains_iff_mem] at htest
      have hfinished : .finished notifiedSample ∈ effects := by
        obtain ⟨e, he, hsame⟩ := List.mem_filterMap.mp htest.2
        cases e <;> simp only [Effect.finishedRecord, reduceCtorEq, Option.some.injEq] at hsame
        exact hsame ▸ he
      have haccepted : .accepted notifiedSample.id ∈ effects := mem_acceptedIds.mp htest.1
      exact ⟨.down disk effects reads, hfinished, nofun, by decide,
        (terminal_jobs_are_discharged hcodec hrun haccepted nofun).1 (Or.inl hfinished)⟩

def WorldAction.bootsIn (dir : PathBuf) : WorldAction String → Bool
  | .boot cfg _ _ => decide (cfg.imagesDir = dir)
  | .act _ | .crash => true

/-- Processes that use one image directory and in which no append fails. -/
def sameDirSample (_ : World String) (a : WorldAction String) : Bool :=
  a.fromSamples && (decide a.AppendsSucceed && a.bootsIn sampleDir)

/-- The process is down, and the upload was recovered without a webhook call. -/
def recoversSilently : World String → Bool
  | .serving _ _ => false
  | .down _ effects _ =>
      (acceptedIds effects).contains 1 &&
        ((effects.filterMap Effect.recoveredRecord).contains recoveredSample &&
          (effects.filterMap Effect.calledId).isEmpty)

/-- A job that was accepted before a crash is failed by the recovery; its client is
never told and its image stays. -/
theorem recovered_job_is_owed :
    ¬ ∀ (codec : RecordCodec String) (dir : PathBuf) (w : World String)
      (final : JobRecord String),
      codec.Lawful →
      Run (World.step codec) (fun _ a => a.FromHandlers ∧
        (∀ action, a = .act action → action.AppendsSucceed) ∧
        (∀ cfg choice crashAfter, a = .boot cfg choice crashAfter → cfg.imagesDir = dir))
        World.empty w →
      .accepted final.id ∈ w.effects → ¬ w.Held final.id → MadeTerminal w.effects final →
      Discharged dir w.effects final := by
  intro hclaim
  have hexec : (runActions World.stepLoaded sameDirSample World.empty
      (busyProcess sampleUrl ++
        [.crash, .boot Config.default (sampleChoice 21) none, .crash])).any
      recoversSilently = true := by
    decide +kernel
  have hguard : ∀ w a, sameDirSample w a = true → a.FromHandlers ∧
      (∀ action, a = .act action → action.AppendsSucceed) ∧
      (∀ cfg choice crashAfter, a = .boot cfg choice crashAfter →
        cfg.imagesDir = sampleDir) := by
    intro w a h
    obtain ⟨hsample, hrest⟩ := Bool.and_eq_true_iff.mp h
    obtain ⟨happends, hdir⟩ := Bool.and_eq_true_iff.mp hrest
    refine ⟨WorldAction.fromHandlers_of_samples hsample, ?_, ?_⟩
    · rintro action rfl
      exact of_decide_eq_true (p := action.AppendsSucceed) happends
    · rintro cfg choice crashAfter rfl
      exact of_decide_eq_true (p := cfg.imagesDir = sampleDir) hdir
  have hcodec := textCodec_lawful notifiedTexts_differ
  obtain ⟨w, hrun, htest⟩ := exists_world_of_any hcodec hguard hexec
  cases w with
  | serving _ _ => cases htest
  | down disk effects reads =>
      simp only [recoversSilently, Bool.and_eq_true, List.contains_iff_mem,
        List.isEmpty_iff] at htest
      obtain ⟨haccepted, hrecovered, hcalls⟩ := htest
      have hmade : MadeTerminal effects recoveredSample := by
        obtain ⟨e, he, hsame⟩ := List.mem_filterMap.mp hrecovered
        cases e <;>
          simp only [Effect.recoveredRecord, reduceCtorEq, Option.some.injEq] at hsame
        exact Or.inr (hsame ▸ he)
      have hdischarged := hclaim _ sampleDir _ recoveredSample hcodec hrun
        (mem_acceptedIds.mp haccepted) nofun hmade
      rcases hdischarged.webhook with hnone | ⟨delivery, hmem, -⟩
      · cases hnone
      · have hcalled : recoveredSample.id ∈ effects.filterMap Effect.calledId :=
          List.mem_filterMap.mpr ⟨_, hmem, rfl⟩
        rw [hcalls] at hcalled
        cases hcalled

end DutySamples
end FlorenceServer
