import FlorenceServer.Jobs.Ordering
import FlorenceServer.Jobs.RecordText
import FlorenceServer.Jobs.World

/-!
# What survives any number of restarts

A statement about a data directory has two halves: `rest` speaks about the
traces of a job while no process runs, `live` about its life within a process.
`WorldRules` lists what has to be shown of the two halves, and `run_world` turns
that into a statement about every run.  The first instance is `History`: at rest
a job has at most one submission and one result line, both versions of the
record that was submitted under its id.
-/

namespace FlorenceServer

open JobRecord Runs

variable {M : Type}

section WorldRuns

/-- Submissions come from the submit handlers. -/
def WorldAction.FromHandlers : WorldAction M → Prop
  | .act a => a.FromHandlers
  | .boot _ _ _ | .crash => True

/-- The two halves of a statement about a data directory. -/
def World.Holds (rest : Uuid → Traces M → Prop) (live : Config → Uuid → Life M → Prop) :
    World M → Prop
  | .down disk effects reads => ∀ id, rest id (tracesOf disk effects reads id)
  | .serving cfg s => ∃ lives, Tracks s lives ∧ ∀ id, live cfg id (lives id)

theorem World.Holds.mono
    {rest rest' : Uuid → Traces M → Prop} {live live' : Config → Uuid → Life M → Prop}
    {w : World M}
    (h : w.Holds rest live)
    (hrest : ∀ id t, rest id t → rest' id t)
    (hlive : ∀ cfg id L, live cfg id L → live' cfg id L) :
    w.Holds rest' live' := by
  cases w with
  | down disk effects reads => exact fun id => hrest id _ (h id)
  | serving cfg s =>
      obtain ⟨lives, htracks, hlives⟩ := h
      exact ⟨lives, htracks, fun id => hlive cfg id _ (hlives id)⟩

/-- What carries a statement from step to step. -/
structure WorldRules (ok : World M → WorldAction M → Prop)
    (rest : Uuid → Traces M → Prop) (live : Config → Uuid → Life M → Prop) : Prop where
  history : ∀ id t, rest id t → History id t
  empty : ∀ id, rest id Traces.empty
  /-- `load_jobs` deals with a job -/
  reload : ∀ disk effects reads cfg choice crashAfter id t',
    ok (.down disk effects reads) (.boot cfg choice crashAfter) →
    (∀ id, rest id (tracesOf disk effects reads id)) →
    Reloaded choice.now (¬ KeepsAll cfg disk.jobs) (tracesOf disk effects reads id) t' →
    rest id t'
  /-- a process starts to serve -/
  start : ∀ disk effects reads cfg choice id L,
    ok (.down disk effects reads) (.boot cfg choice none) →
    (∀ id, rest id (tracesOf disk effects reads id)) →
    Reloaded choice.now (¬ KeepsAll cfg disk.jobs) (tracesOf disk effects reads id) L.traces →
    rest id L.traces →
    L.Ok id → (L.stage = .fresh ∨ L.stage = .past) →
    (L.record = none ∨ L.record = (tracesOf disk effects reads id).loaded choice.now) →
    live cfg id L
  step : ∀ cfg s a s' lives lives' id,
    ok (.serving cfg s) (.act a) → s.step cfg a = some s' →
    Tracks s lives → Tracks s' lives' →
    LifeStep cfg id a (lives id) (lives' id) → live cfg id (lives id) → live cfg id (lives' id)
  crash : ∀ cfg s lives id,
    ok (.serving cfg s) .crash → Tracks s lives → live cfg id (lives id) →
    rest id (lives id).traces

/-- A loaded job is the record of the two files, or is evicted. -/
theorem restoreJobs_get
    (cfg : Config) (choice : LoadChoice M) (disk : Disk M) (effects : List (Effect M))
    (reads : List (Uuid × Except ApiError (JobRecord M))) (id : Uuid) :
    (restoreJobs cfg choice disk.jobs).jobs.get id =
        (tracesOf disk effects reads id).loaded choice.now ∨
      (restoreJobs cfg choice disk.jobs).jobs.get id = none := by
  have hloaded : (disk.jobs.mapValues (recoverRecord choice.now)).get id =
      (tracesOf disk effects reads id).loaded choice.now := by
    rw [HashMap.get_mapValues, disk.jobs_get effects reads id]
    rfl
  rw [← hloaded]
  exact retainRecentJobs_get choice.order _ cfg.jobRetentionLimit id

/-- No job of the earlier processes is new to the next one. -/
theorem started_boot
    {disk : Disk M} {effects : List (Effect M)}
    {reads : List (Uuid × Except ApiError (JobRecord M))}
    (hhistory : ∀ id, History id (tracesOf disk effects reads id))
    (cfg : Config) (choice : LoadChoice M) :
    let plan := restoreJobs cfg choice disk.jobs
    Started cfg (Server.start cfg plan.jobs (applyOps disk plan.ops)
      (effects ++ recoveredEffects plan.ops) reads (usedIds effects)) := by
  intro plan
  have hfinal : ∀ id record, plan.jobs.get id = some record →
      record.id = id ∧ record.Terminal := by
    intro id record hrecord
    rcases restoreJobs_get cfg choice disk effects reads id with hloaded | hnone
    · obtain ⟨submitted, hid, -, hfinal, -⟩ :=
        (hhistory id).loaded_final (hloaded.symm.trans hrecord)
      exact ⟨hfinal.id.trans hid, hfinal.terminal⟩
    · rw [hnone] at hrecord
      cases hrecord
  refine ⟨⟨_, _, _, _, _, rfl⟩, fun id record h => (hfinal id record h).1,
    fun id record h => (hfinal id record h).2, ?_⟩
  intro id hfresh
  have hunused : (tracesOf disk effects reads id).effects = [] := by
    cases hused : usedIds effects id with
    | true => simp [Server.start, hused] at hfresh
    | false => simpa [usedIds, tracesOf] using hused
  have hlast : (tracesOf disk effects reads id).last = none := by
    cases hhistory id with
    | unused hsubmissions hresults heffects => simp [Traces.last, hsubmissions, hresults]
    | used record hid hunstarted hsubmitted hsubmissions hresults =>
        have hmem := (hsubmitted record).mpr rfl
        rw [hunused] at hmem
        cases hmem
  have hsubmissions : (tracesOf disk effects reads id).submissions = [] := by
    rw [Traces.last, Option.or_eq_none_iff] at hlast
    exact List.getLast?_eq_none_iff.mp hlast.2
  have htraces := load_traces cfg choice id (hhistory id)
  have hempty : ∀ t' : Traces M,
      Reloaded choice.now (¬ KeepsAll cfg disk.jobs) (tracesOf disk effects reads id) t' →
      t'.submissions = [] ∧ t'.results = [] ∧ t'.effects = [] := by
    intro t' hreloaded
    cases hreloaded with
    | written submissions hkept =>
        rw [hsubmissions, or_self] at hkept
        simp [Traces.reloaded, Traces.loaded, Traces.recovered, hlast, hunused, hkept]
    | dropped hlossy => simp [Traces.reloaded, Traces.recovered, hlast, hunused]
  obtain ⟨hsub, hres, heff⟩ := hempty _ htraces
  refine ⟨?_, ?_, ?_, ?_⟩
  · rcases restoreJobs_get cfg choice disk effects reads id with hloaded | hnone
    · exact hloaded.trans (by simp [Traces.loaded, hlast])
    · exact hnone
  · intro r hr
    simpa using List.filter_eq_nil_iff.mp hsub r hr
  · intro r hr
    simpa using List.filter_eq_nil_iff.mp hres r hr
  · intro e he
    simpa using List.filter_eq_nil_iff.mp heff e he

/-- **Run rule for data directories.** -/
theorem run_world
    {codec : RecordCodec M} (hcodec : codec.Lawful)
    {ok : World M → WorldAction M → Prop}
    {rest : Uuid → Traces M → Prop} {live : Config → Uuid → Life M → Prop}
    (rules : WorldRules ok rest live)
    {w : World M}
    (hrun : Run (World.step codec) ok World.empty w) :
    w.Holds rest live := by
  refine hrun.invariant (I := World.Holds rest live) ?_ rules.empty
  intro w a w' hok hstep hholds
  cases World.step_cases hcodec hstep with
  | booted disk effects reads cfg choice crashAfter =>
      have hhistory := fun id => rules.history id _ (hholds id)
      cases crashAfter with
      | some k =>
          intro id
          rcases interrupted_load_traces cfg choice id (hhistory id) k with hsame | hreloaded
          · exact hsame ▸ hholds id
          · exact rules.reload disk effects reads cfg choice (some k) id _ hok hholds hreloaded
      | none =>
          obtain ⟨lives, htracks, hstage⟩ := (started_boot hhistory cfg choice).tracks
          refine ⟨lives, htracks, fun id => ?_⟩
          have hreloaded := load_traces cfg choice id (hhistory id)
          have hview := (htracks id).1
          have htraces : tracesOf (applyOps disk (restoreJobs cfg choice disk.jobs).ops)
              (effects ++ recoveredEffects (restoreJobs cfg choice disk.jobs).ops) reads id =
                (lives id).traces := hview.traces_eq
          have hrecord : (restoreJobs cfg choice disk.jobs).jobs.get id = (lives id).record :=
            hview.record
          simp only [htraces] at hreloaded
          refine rules.start disk effects reads cfg choice id (lives id) hok hholds hreloaded
            (rules.reload disk effects reads cfg choice none id _ hok hholds hreloaded)
            (htracks id).2 (hstage id) ?_
          rw [← hrecord]
          exact (restoreJobs_get cfg choice disk effects reads id).symm
  | crashed cfg s =>
      obtain ⟨lives, htracks, hlive⟩ := hholds
      intro id
      rw [(htracks id).1.traces_eq]
      exact rules.crash cfg s lives id hok htracks (hlive id)
  | acted cfg s s' a hact =>
      obtain ⟨lives, htracks, hlive⟩ := hholds
      obtain ⟨lives', htracks', hlife⟩ := step_tracks htracks hact
      exact ⟨lives', htracks', fun id =>
        rules.step cfg s a s' lives lives' id hok hact htracks htracks' (hlife id) (hlive id)⟩

end WorldRuns

section Histories

variable {id : Uuid} {t : Traces M} {L L' : Life M}

/-- The only record that was submitted under its id. -/
def OnlySubmission (effects : List (Effect M)) (record : JobRecord M) : Prop :=
  ∀ r, .submitted r ∈ effects ↔ r = record

/-- A job of an earlier process: its map entry is a final version of its submission. -/
structure Life.PastOk (id : Uuid) (L : Life M) : Prop where
  history : History id L.traces
  final : ∀ final, L.record = some final →
    ∃ record, record.id = id ∧ record.Unstarted ∧ FinalOf final record ∧
      OnlySubmission L.effects record

/-- What a process knows about a job, whether or not the job is its own. -/
structure Life.Known (id : Uuid) (L : Life M) : Prop where
  unstarted : L.SubmittedUnstarted
  past : L.stage = .past → L.PastOk id

/-- Nothing but reads and retention reaches the jobs of earlier processes, and no
job becomes one. -/
theorem LifeStep.past
    {cfg : Config} {a : Action M}
    (hstep : LifeStep cfg id a L L')
    (hpast : L'.stage = .past) :
    L.stage = .past ∧ L'.submissions = L.submissions ∧ L'.results = L.results ∧
      L'.effects = L.effects ∧ (L'.record = L.record ∨ L'.record = none) := by
  cases hstep with
  | stutter => exact ⟨hpast, rfl, rfl, rfl, Or.inl rfl⟩
  | evict w order => exact ⟨hpast, rfl, rfl, rfl, Or.inr rfl⟩
  | read => exact ⟨hpast, rfl, rfl, rfl, Or.inl rfl⟩
  | _ => cases hpast

theorem History.of_eq
    {t' : Traces M}
    (h : History id t)
    (hsubmissions : t'.submissions = t.submissions)
    (hresults : t'.results = t.results)
    (heffects : t'.effects = t.effects) :
    History id t' := by
  cases h with
  | unused hsub hres heff =>
      exact .unused (hsubmissions.trans hsub) (hresults.trans hres) (heffects.trans heff)
  | used record hid hunstarted hsubmitted hsub hres =>
      exact .used record hid hunstarted (heffects ▸ hsubmitted) (hsubmissions ▸ hsub)
        (hresults ▸ hres)

theorem Life.Known.step
    {cfg : Config} {a : Action M}
    (h : L.Known id)
    (hstep : LifeStep cfg id a L L')
    (hbuilt : a.FromHandlers) :
    L'.Known id where
  unstarted := hstep.submittedUnstarted hbuilt h.unstarted
  past := by
    intro hpast
    obtain ⟨hbefore, hsub, hres, heff, hrecord⟩ := hstep.past hpast
    have hok := h.past hbefore
    refine ⟨hok.history.of_eq hsub hres heff, ?_⟩
    intro final hfinal
    rcases hrecord with hsame | hnone
    · rw [heff]
      exact hok.final final (hsame.symm.trans hfinal)
    · rw [hnone] at hfinal
      cases hfinal

/-- A job that its own process has taken on. -/
structure Life.Submitted (L : Life M) (record : JobRecord M) : Prop where
  only : OnlySubmission L.effects record
  submissions : L.submissions = [] ∨ L.submissions = [record]
  results : L.results = [] ∨ ∃ final, FinalOf final record ∧ L.results = [final]

theorem results_of_lines
    {final record : JobRecord M} {outcome : AppendOutcome}
    (hfinal : FinalOf final record)
    (hresults : L.results = outcome.lines final) :
    L.results = [] ∨ ∃ final, FinalOf final record ∧ L.results = [final] := by
  rw [hresults]
  rcases outcome.lines_cases final with hnone | hone
  · exact Or.inl hnone
  · exact Or.inr ⟨final, hfinal, hone⟩

theorem Life.HeldOk.submitted
    {record : JobRecord M} {pc : HeldPc M}
    (h : L.HeldOk record pc)
    (hsubmissions : L.submissions = [record]) :
    L.Submitted record := by
  cases pc with
  | waiting =>
      obtain ⟨-, hresults, heffects⟩ := h
      exact ⟨by simp [OnlySubmission, heffects, sentEffects], Or.inr hsubmissions,
        Or.inl hresults⟩
  | executing =>
      obtain ⟨-, hresults, heffects⟩ := h
      exact ⟨by simp [OnlySubmission, heffects, sentEffects], Or.inr hsubmissions,
        Or.inl hresults⟩
  | appending final =>
      obtain ⟨-, -, hresults, heffects⟩ := h
      exact ⟨by simp [OnlySubmission, heffects, sentEffects], Or.inr hsubmissions,
        Or.inl hresults⟩
  | notifying final =>
      obtain ⟨hfinal, -, outcome, hresults, heffects⟩ := h
      exact ⟨by simp [OnlySubmission, heffects, sentEffects], Or.inr hsubmissions,
        results_of_lines hfinal hresults⟩
  | cleaning final =>
      obtain ⟨hfinal, -, outcome, delivery, hresults, heffects⟩ := h
      exact ⟨by simp [OnlySubmission, heffects, sentEffects], Or.inr hsubmissions,
        results_of_lines hfinal hresults⟩

theorem Life.SettledOk.submitted
    {record : JobRecord M} {ending : CallEnding}
    (h : L.SettledOk record ending) :
    L.Submitted record := by
  cases h with
  | completed final outcome delivery removal hfinal hrec hsub hres heff =>
      exact ⟨by simp [OnlySubmission, heff, sentEffects], Or.inr hsub,
        results_of_lines hfinal hres⟩
  | lost hrec hsub hres heff =>
      exact ⟨by simp [OnlySubmission, heff, sentEffects], Or.inr hsub, Or.inl hres⟩
  | rejected err herr hrec hsub hres heff =>
      exact ⟨by simp [OnlySubmission, heff], Or.inl hsub, Or.inl hres⟩
  | unsaved written hrec hsub hres heff =>
      exact ⟨by simp [OnlySubmission, heff],
        hsub ▸ (AppendOutcome.failed written).lines_cases record, Or.inl hres⟩
  | rolledBack err now reason outcome hrec hsub hres heff =>
      exact ⟨by simp [OnlySubmission, heff], Or.inr hsub,
        results_of_lines (FinalOf.of_failedWith now _) hres⟩
  | dropped hrec hsub hres heff =>
      exact ⟨by simp [OnlySubmission, heff], hsub, Or.inl hres⟩
  | droppedPersisting now reason written hrec hsub hres heff =>
      exact ⟨by simp [OnlySubmission, heff], Or.inr hsub,
        results_of_lines (FinalOf.of_failedWith now _) hres⟩

theorem Life.CallingOk.submissions
    {sub : Submission M} {pc : CallPc}
    (h : L.CallingOk sub pc) :
    L.submissions = [] ∨ L.submissions = [sub.record] := by
  cases pc with
  | inserting => exact Or.inl h.2
  | appending => exact Or.inl h.2
  | sending => exact Or.inr h.2
  | rollingBack reason => exact Or.inr h.2
  | persisting reason => exact Or.inr h.2

/-- What the files and the log say about a submitted job, in whatever stage. -/
theorem Life.Ok.submitted
    (hok : L.Ok id)
    {record : JobRecord M} (hsubmitted : L.stage.submitted = some record) :
    L.Submitted record := by
  unfold Ok at hok
  cases hstage : L.stage with
  | fresh =>
      rw [hstage] at hsubmitted
      cases hsubmitted
  | past =>
      rw [hstage] at hsubmitted
      cases hsubmitted
  | checking r =>
      rw [hstage] at hsubmitted
      cases hsubmitted
      simp only [hstage] at hok
      exact ⟨by simp [OnlySubmission, hok.2.2.2.2], Or.inl hok.2.2.1, Or.inl hok.2.2.2.1⟩
  | calling sub pc =>
      rw [hstage] at hsubmitted
      cases hsubmitted
      simp only [hstage] at hok
      exact ⟨by simp [OnlySubmission, hok.2.2.2], hok.2.1.submissions, Or.inl hok.2.2.1⟩
  | queued r =>
      rw [hstage] at hsubmitted
      cases hsubmitted
      simp only [hstage] at hok
      exact ⟨by simp [OnlySubmission, hok.2.2.2.2, sentEffects], Or.inr hok.2.2.1,
        Or.inl hok.2.2.2.1⟩
  | held r w pc =>
      rw [hstage] at hsubmitted
      cases hsubmitted
      simp only [hstage] at hok
      exact hok.2.2.submitted hok.2.1
  | settled r ending =>
      rw [hstage] at hsubmitted
      cases hsubmitted
      simp only [hstage] at hok
      exact hok.2.submitted

/-- A process leaves each of its jobs with a history. -/
theorem Life.Ok.history
    (hok : L.Ok id)
    (hknown : L.Known id) :
    History id L.traces := by
  cases hsubmitted : L.stage.submitted with
  | some record =>
      have hjob := hok.submitted hsubmitted
      exact .used record (hok.submitted_id hsubmitted)
        (hknown.unstarted record hsubmitted) hjob.only hjob.submissions hjob.results
  | none =>
      cases hstage : L.stage with
      | fresh =>
          simp only [Ok, hstage] at hok
          exact .unused hok.2.1 hok.2.2.1 hok.2.2.2
      | past => exact (hknown.past hstage).history
      | _ => simp [hstage, Stage.submitted] at hsubmitted

/-- The traces that `load_jobs` leaves are a history again. -/
theorem History.reloaded
    {now : Uuid → OffsetDateTime} {lossy : Prop} {t' : Traces M}
    (h : History id t)
    (hreloaded : Reloaded now lossy t t') :
    History id t' := by
  have hloaded : ∀ final, t.loaded now = some final → _ := fun _ => h.loaded_final
  cases h with
  | unused hsub hres heff =>
      have hnone : t.last = none := by simp [Traces.last, hsub, hres]
      cases hreloaded with
      | written submissions hkept =>
          rw [hsub, or_self] at hkept
          exact .unused hkept (by simp [Traces.reloaded, Traces.loaded, hnone])
            (by simp [Traces.reloaded, Traces.recovered, hnone, heff])
      | dropped hlossy =>
          exact .unused rfl rfl (by simp [Traces.reloaded, Traces.recovered, hnone, heff])
  | used record hid hunstarted hsubmitted hsub hres =>
      have honly : ∀ r, .submitted r ∈ t.effects ++ (t.recovered now).map Effect.recovered ↔
          r = record := by
        intro r
        rw [← hsubmitted r]
        simp
      cases hreloaded with
      | written submissions hkept =>
          refine .used record hid hunstarted honly ?_ ?_
          · rcases hkept with hsame | hnone
            · exact hsame ▸ hsub
            · exact Or.inl hnone
          · cases hcurrent : t.loaded now with
            | none => exact Or.inl (by simp [Traces.reloaded])
            | some final =>
                obtain ⟨r, -, -, hfinal, honly'⟩ := hloaded final hcurrent
                have hsame : record = r := (honly' record).mp ((hsubmitted record).mpr rfl)
                exact Or.inr ⟨final, hsame ▸ hfinal, by simp [Traces.reloaded]⟩
      | dropped hlossy => exact .used record hid hunstarted honly (Or.inl rfl) (Or.inl rfl)

theorem Reloaded.effects
    {now : Uuid → OffsetDateTime} {lossy : Prop} {t' : Traces M}
    (h : Reloaded now lossy t t') :
    t'.effects = t.effects ++ (t.recovered now).map .recovered := by
  cases h <;> rfl

/-- A loaded job is a job of an earlier process. -/
theorem History.pastOk
    {now : Uuid → OffsetDateTime} {lossy : Prop}
    (h : History id t)
    (hreloaded : Reloaded now lossy t L.traces)
    (hrecord : L.record = none ∨ L.record = t.loaded now) :
    L.PastOk id where
  history := h.reloaded hreloaded
  final := by
    intro final hfinal
    rcases hrecord with hnone | hloaded
    · rw [hnone] at hfinal
      cases hfinal
    · obtain ⟨record, hid, hunstarted, hversion, honly⟩ :=
        h.loaded_final (hloaded.symm.trans hfinal)
      refine ⟨record, hid, hunstarted, hversion, fun r => ?_⟩
      have heffects : L.effects = _ := hreloaded.effects
      rw [heffects, ← honly r]
      simp

/-- The rules that every statement about restarts starts from. -/
theorem historyRules :
    WorldRules (M := M) (fun _ a => a.FromHandlers) History (fun _ => Life.Known) where
  history := fun _ _ h => h
  empty := fun _ => .unused rfl rfl rfl
  reload := fun disk effects reads cfg choice crashAfter id t' _ h hreloaded =>
    (h id).reloaded hreloaded
  start := by
    intro disk effects reads cfg choice id L _ h hreloaded _ _ hstage hrecord
    refine ⟨?_, fun _ => (h id).pastOk hreloaded hrecord⟩
    intro record hsubmitted
    rcases hstage with hstage | hstage <;> rw [hstage] at hsubmitted <;> cases hsubmitted
  step := fun cfg s a s' lives lives' id hok _ _ _ hlife h => h.step hlife hok
  crash := fun cfg s lives id _ htracks h => (htracks id).2.history h

end Histories

section Soundness

theorem WorldAction.fromHandlers_of_samples
    {a : WorldAction String}
    (h : a.fromSamples = true) :
    a.FromHandlers := by
  cases a with
  | act a => exact Action.fromHandlers_of_samples h
  | _ => trivial

/-- The jobs map of the process, if there is one. -/
def World.jobs : World M → JobMap M
  | .down _ _ _ => ∅
  | .serving _ s => s.jobs

/-- The record fits together and belongs to the only submission under its id. -/
structure Sound (effects : List (Effect M)) (record : JobRecord M) : Prop where
  wellFormed : record.WellFormed
  sameSubmission : ∃ submitted,
    (∀ r, .submitted r ∈ effects ∧ r.id = record.id ↔ r = submitted) ∧
    record.SameSubmission submitted

/-- The traces of every job are a history, in a process and at rest. -/
theorem World.Holds.history
    {w : World M}
    (h : w.Holds History (fun _ => Life.Known)) (id : Uuid) :
    History id (w.traces id) := by
  cases w with
  | down disk effects reads => exact h id
  | serving cfg s =>
      obtain ⟨lives, htracks, hknown⟩ := h
      have hhistory := (htracks id).2.history (hknown id)
      rw [← (htracks id).1.traces_eq] at hhistory
      exact hhistory

theorem Sound.of_version
    {w : World M} {record submitted : JobRecord M}
    (hversion : record.VersionOf submitted)
    (hunstarted : submitted.Unstarted)
    (honly : OnlySubmission (w.traces record.id).effects submitted) :
    Sound w.effects record where
  wellFormed := hversion.wellFormed hunstarted
  sameSubmission := by
    refine ⟨submitted, fun r => ?_, hversion.sameSubmission⟩
    rw [← honly r, World.traces, tracesOf, List.mem_filter, decide_eq_true_eq]
    rfl

/-- A job at rest has sound lines. -/
theorem History.sound
    {w : World M} {id : Uuid}
    (h : History id (w.traces id))
    {line : JobRecord M} (hid : line.id = id)
    (hline : line ∈ (w.traces id).submissions ∨ line ∈ (w.traces id).results) :
    Sound w.effects line := by
  subst hid
  cases h with
  | unused hsub hres heff => simp [hsub, hres] at hline
  | used record hid hunstarted hsubmitted hsub hres =>
      have hversion : line.VersionOf record := by
        rcases hline with hline | hline
        · rcases hsub with hsub | hsub
          · simp [hsub] at hline
          · exact .submitted (by simpa [hsub] using hline)
        · rcases hres with hres | ⟨final, hfinal, hres⟩
          · simp [hres] at hline
          · have hsame : line = final := by simpa [hres] using hline
            exact .final (hsame ▸ hfinal)
      exact .of_version hversion hunstarted hsubmitted

/--
Across any number of processes and crashes, every record in the jobs map and
every line of the two metadata files is well formed and keeps the fields of the
one record that was submitted under its id.
-/
theorem records_are_sound
    {codec : RecordCodec M} (hcodec : codec.Lawful)
    {w : World M}
    (hrun : Run (World.step codec) (fun _ a => a.FromHandlers) World.empty w) :
    (∀ id record, w.jobs.get id = some record → record.id = id ∧ Sound w.effects record) ∧
    (∀ line ∈ w.disk.submissions, Sound w.effects line) ∧
    (∀ line ∈ w.disk.results, Sound w.effects line) := by
  have hholds := run_world hcodec historyRules hrun
  refine ⟨?_, ?_, ?_⟩
  · intro id record hrecord
    cases w with
    | down disk effects reads => simp [World.jobs] at hrecord
    | serving cfg s =>
        obtain ⟨lives, htracks, hknown⟩ := hholds
        have hid := htracks.record_id hrecord
        have hlife := (htracks id).1.record.symm.trans hrecord
        have htraces : World.traces (.serving cfg s) record.id = (lives id).traces := by
          rw [hid]
          exact (htracks id).1.traces_eq
        refine ⟨hid, ?_⟩
        cases hsubmitted : (lives id).stage.submitted with
        | some submitted =>
            exact .of_version ((htracks id).2.version hsubmitted hlife)
              ((hknown id).unstarted submitted hsubmitted)
              (by rw [htraces]; exact ((htracks id).2.submitted hsubmitted).only)
        | none =>
            cases hstage : (lives id).stage with
            | fresh =>
                have hok := (htracks id).2
                simp only [Life.Ok, hstage] at hok
                rw [hok.1] at hlife
                cases hlife
            | past =>
                obtain ⟨submitted, -, hunstarted, hfinal, honly⟩ :=
                  ((hknown id).past hstage).final record hlife
                exact .of_version (.final hfinal) hunstarted (by rw [htraces]; exact honly)
            | _ => simp [hstage, Stage.submitted] at hsubmitted
  · intro line hline
    exact (hholds.history line.id).sound rfl
      (Or.inl (List.mem_filter.mpr ⟨hline, by simp⟩))
  · intro line hline
    exact (hholds.history line.id).sound rfl
      (Or.inr (List.mem_filter.mpr ⟨hline, by simp⟩))

/-- The texts of an upload and of its recovered version. -/
theorem sampleTexts_differ :
    textsDiffer [sampleRecord 1 5 none, (sampleRecord 1 5 none).failedWith 21 restartError] =
      true := by
  decide +kernel

/-- A crash while the inference of an upload is running, and a restart. -/
theorem records_are_sound_sample :
    ∃ w : World String,
      (w.jobs.get 1).map JobRecord.status = some .failed ∧
      (∀ id record, w.jobs.get id = some record →
        record.id = id ∧ Sound w.effects record) ∧
      (∀ line ∈ w.disk.submissions, Sound w.effects line) ∧
      (∀ line ∈ w.disk.results, Sound w.effects line) := by
  let serve := (enqueueActions (sampleRecord 1 5 none) ++ readyActions 0 ++ inferActions 0 8).map
    WorldAction.act
  have hexec : (runActions World.stepLoaded (fun _ a => a.fromSamples) World.empty
      (.boot Config.default (sampleChoice 3) none :: serve ++
        [.crash, .boot Config.default (sampleChoice 21) none])).any
      (fun w => decide ((w.jobs.get 1).map JobRecord.status = some .failed)) = true := by
    decide +kernel
  have hcodec := textCodec_lawful sampleTexts_differ
  obtain ⟨w, hrun, htest⟩ := exists_world_of_any hcodec
    (fun _ a h => WorldAction.fromHandlers_of_samples h) hexec
  exact ⟨w, of_decide_eq_true htest, records_are_sound hcodec hrun⟩

end Soundness
end FlorenceServer
