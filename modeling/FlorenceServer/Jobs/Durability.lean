import FlorenceServer.Jobs.Restarts

/-!
# Durability of job records

What `load_jobs` finds after any number of crashes.  As long as compaction keeps
the records of all jobs, every accepted job has a line in one of the two files,
and a job with a result line is loaded as that line.  `finish_job` publishes the
terminal record before it appends it, so what a reader has seen survives only if
neither a crash nor a failed append comes between the two.
-/

namespace FlorenceServer

open JobRecord Runs

variable {M : Type}

section SubmittedIds

/-- The id of a submission. -/
def Effect.submittedId : Effect M → Option Uuid
  | .submitted record => some record.id
  | _ => none

/-- The ids ever submitted. -/
def submittedIds (effects : List (Effect M)) : List Uuid :=
  (effects.filterMap Effect.submittedId).dedup

def Effect.acceptedId : Effect M → Option Uuid
  | .accepted job => some job
  | _ => none

/-- The ids whose `enqueue_record` returned `Ok`. -/
def acceptedIds (effects : List (Effect M)) : List Uuid :=
  effects.filterMap Effect.acceptedId

theorem mem_acceptedIds
    {effects : List (Effect M)} {id : Uuid} :
    id ∈ acceptedIds effects ↔ .accepted id ∈ effects := by
  constructor
  · intro h
    obtain ⟨e, he, hsame⟩ := List.mem_filterMap.mp h
    cases e <;> simp only [Effect.acceptedId, reduceCtorEq, Option.some.injEq] at hsame
    exact hsame ▸ he
  · intro h
    exact List.mem_filterMap.mpr ⟨_, h, rfl⟩

/-- Compaction is disabled, or keeps as many records as there are jobs. -/
def CompactionKeeps (cfg : Config) (effects : List (Effect M)) : Prop :=
  cfg.metadataRetentionLimit = 0 ∨
    (submittedIds effects).length ≤ cfg.metadataRetentionLimit

instance (cfg : Config) (effects : List (Effect M)) :
    Decidable (CompactionKeeps cfg effects) :=
  inferInstanceAs (Decidable (_ ∨ _))

variable {disk : Disk M} {effects : List (Effect M)}
variable {reads : List (Uuid × Except ApiError (JobRecord M))}

/-- Every loaded record belongs to a job that was submitted. -/
theorem jobs_len_le
    (hhistory : ∀ id, History id (tracesOf disk effects reads id)) :
    disk.jobs.len ≤ (submittedIds effects).length := by
  have hsubset : disk.jobs.values.map JobRecord.id ⊆ submittedIds effects := by
    intro id hid
    obtain ⟨record, hrecord, rfl⟩ := List.mem_map.mp hid
    have hget := (disk.jobs_keyed.mem_values_iff record).mp hrecord
    rw [disk.jobs_get effects reads] at hget
    have hloaded : (tracesOf disk effects reads record.id).loaded (fun _ => 0) =
        some (recoverRecord (fun _ => 0) record) := by
      rw [Traces.loaded, hget, Option.map_some]
    obtain ⟨submitted, hid, -, -, honly⟩ := (hhistory record.id).loaded_final hloaded
    have hmem := (honly submitted).mpr rfl
    rw [tracesOf, List.mem_filter] at hmem
    rw [submittedIds, List.mem_dedup, List.mem_filterMap]
    exact ⟨.submitted submitted, hmem.1, by rw [Effect.submittedId, hid]⟩
  have hlength := (disk.jobs_keyed.nodup_values.subperm hsubset).length_le
  rw [List.length_map, HashMap.values_length] at hlength
  exact hlength

theorem CompactionKeeps.keepsAll
    {cfg : Config}
    (h : CompactionKeeps cfg effects)
    (hhistory : ∀ id, History id (tracesOf disk effects reads id)) :
    KeepsAll cfg disk.jobs :=
  h.imp id (Nat.le_trans (jobs_len_le hhistory))

/-- With a large enough job limit nothing that was loaded is evicted. -/
theorem restoreJobs_get_of_limit
    {cfg : Config}
    (hlimit : disk.jobs.len ≤ cfg.jobRetentionLimit)
    (choice : LoadChoice M) (effects : List (Effect M))
    (reads : List (Uuid × Except ApiError (JobRecord M))) (id : Uuid) :
    (restoreJobs cfg choice disk.jobs).jobs.get id =
      (tracesOf disk effects reads id).loaded choice.now := by
  have hlen : (disk.jobs.mapValues (recoverRecord choice.now)).len ≤ cfg.jobRetentionLimit := by
    rw [HashMap.len, HashMap.mapValues, List.length_map]
    exact hlimit
  simp only [restoreJobs, retainRecentJobs, if_pos hlen]
  rw [HashMap.get_mapValues, disk.jobs_get effects reads id]
  rfl

end SubmittedIds

section AcceptedJobs

variable {id : Uuid} {L : Life M}

/-- Submissions come from the handlers, and no compaction drops a job. -/
def KeepsMetadata (w : World M) : WorldAction M → Prop
  | .boot cfg _ _ => CompactionKeeps cfg w.effects
  | .act a => a.FromHandlers
  | .crash => True

/-- An accepted job has a line in one of the files. -/
def Traces.Saved (id : Uuid) (t : Traces M) : Prop :=
  .accepted id ∈ t.effects → t.last.isSome

/-- The submission of an accepted job is on disk. -/
theorem Life.Ok.saved
    (hok : L.Ok id)
    (hpast : L.stage = .past → L.traces.Saved id) :
    L.traces.Saved id := by
  intro haccepted
  have hsome : L.submissions ≠ [] → L.traces.last.isSome := by
    intro hne
    rw [Traces.last, Option.isSome_or, Bool.or_eq_true]
    exact Or.inr (List.getLast?_isSome.mpr hne)
  have haccepted' : .accepted id ∈ L.effects := haccepted
  unfold Ok at hok
  cases hstage : L.stage with
  | past => exact hpast hstage haccepted
  | fresh => simp_all
  | checking record => simp_all
  | calling sub pc => simp_all
  | queued record =>
      simp only [hstage] at hok
      exact hsome (by simp [hok.2.2.1])
  | held record w pc =>
      simp only [hstage] at hok
      exact hsome (by simp [hok.2.1])
  | settled record ending =>
      simp only [hstage] at hok
      cases hok.2 with
      | completed final outcome delivery removal hfinal hrec hsub hres heff =>
          exact hsome (by simp [hsub])
      | lost hrec hsub hres heff => exact hsome (by simp [hsub])
      | rolledBack err now reason outcome hrec hsub hres heff => exact hsome (by simp [hsub])
      | droppedPersisting now reason written hrec hsub hres heff =>
          exact hsome (by simp [hsub])
      | rejected err herr hrec hsub hres heff => simp [heff] at haccepted'
      | unsaved written hrec hsub hres heff => simp [heff] at haccepted'
      | dropped hrec hsub hres heff => simp [heff] at haccepted'

theorem Traces.Saved.reloaded
    {now : Uuid → OffsetDateTime} {t t' : Traces M}
    (h : t.Saved id)
    (hreloaded : Reloaded now False t t') :
    t'.Saved id := by
  cases hreloaded with
  | written submissions hkept =>
      intro haccepted
      have hbefore : .accepted id ∈ t.effects := by
        simpa [Traces.reloaded] using haccepted
      obtain ⟨record, hlast⟩ := Option.isSome_iff_exists.mp (h hbefore)
      have hloaded : t.loaded now = some (recoverRecord now record) := by
        rw [Traces.loaded, hlast, Option.map_some]
      simp [Traces.last, Traces.reloaded, hloaded]
  | dropped hlossy => exact hlossy.elim

theorem Reloaded.of_keepsAll
    {cfg : Config} {jobs : JobMap M} {now : Uuid → OffsetDateTime} {t t' : Traces M}
    (hkeeps : KeepsAll cfg jobs)
    (hreloaded : Reloaded now (¬ KeepsAll cfg jobs) t t') :
    Reloaded now False t t' := by
  rwa [not_not_intro hkeeps |> eq_false] at hreloaded

/-- Accepted jobs stay on disk. -/
theorem savedRules :
    WorldRules (M := M) KeepsMetadata
      (fun id t => History id t ∧ t.Saved id)
      (fun _ id L => L.Known id ∧ (L.stage = .past → L.traces.Saved id)) where
  history := fun _ _ h => h.1
  empty := fun _ => ⟨.unused rfl rfl rfl, by simp [Traces.Saved, Traces.empty]⟩
  reload := fun disk effects reads cfg choice crashAfter id t' hok h hreloaded =>
    ⟨(h id).1.reloaded hreloaded, (h id).2.reloaded
      (hreloaded.of_keepsAll (CompactionKeeps.keepsAll hok (fun id => (h id).1)))⟩
  start := by
    intro disk effects reads cfg choice id L hok h hreloaded hrest _ hstage hrecord
    exact ⟨historyRules.start disk effects reads cfg choice id L trivial (fun id => (h id).1)
      hreloaded hrest.1 ‹_› hstage hrecord, fun _ => hrest.2⟩
  step := by
    intro cfg s a s' lives lives' id hok _ _ _ hlife h
    refine ⟨h.1.step hlife hok, ?_⟩
    intro hpast
    obtain ⟨hbefore, hsub, hres, heff, -⟩ := hlife.past hpast
    have hsaved := h.2 hbefore
    simpa only [Traces.Saved, Traces.last, Life.traces, hsub, hres, heff] using hsaved
  crash := fun cfg s lives id _ htracks h =>
    ⟨(htracks id).2.history h.1, (htracks id).2.saved h.2⟩

/-- Two lines of the results file never share an id. -/
theorem nodup_results
    {disk : Disk M} {effects : List (Effect M)}
    {reads : List (Uuid × Except ApiError (JobRecord M))}
    (hhistory : ∀ id, History id (tracesOf disk effects reads id)) :
    (disk.results.map JobRecord.id).Nodup := by
  rw [List.nodup_iff_count_le_one]
  intro id
  have hcount : (disk.results.map JobRecord.id).count id =
      (tracesOf disk effects reads id).results.length := by
    rw [List.count_eq_countP, List.countP_map, List.countP_eq_length_filter, tracesOf]
    rfl
  rw [hcount]
  cases hhistory id with
  | unused hsub hres heff => simp [hres]
  | used record hid hunstarted hsubmitted hsub hres =>
      rcases hres with hres | ⟨final, -, hres⟩ <;> simp [hres]

/-- A result line is what its job is loaded as. -/
theorem History.loaded_of_result
    {t : Traces M} {line : JobRecord M}
    (h : History id t)
    (hline : line ∈ t.results) (now : Uuid → OffsetDateTime) :
    t.loaded now = some line := by
  cases h with
  | unused hsub hres heff => simp [hres] at hline
  | used record hid hunstarted hsubmitted hsub hres =>
      rcases hres with hres | ⟨final, hfinal, hres⟩
      · simp [hres] at hline
      · have hsame : line = final := by simpa [hres] using hline
        rw [Traces.loaded, Traces.last, hres, List.getLast?_singleton, Option.some_or,
          Option.map_some, hsame, recoverRecord_of_terminal hfinal.terminal]

/-- A line that `load_jobs` leaves in the results file was loaded. -/
theorem Reloaded.result_loaded
    {now : Uuid → OffsetDateTime} {lossy : Prop} {t t' : Traces M} {line : JobRecord M}
    (hreloaded : Reloaded now lossy t t')
    (hline : line ∈ t'.results) :
    t.loaded now = some line := by
  cases hreloaded with
  | written submissions hkept => exact Option.mem_toList.mp hline
  | dropped hlossy => cases hline

/--
At every moment of every run over one data directory the results file has at
most one line for each id, and `load_jobs` restores every accepted job as a
terminal record, each job with a result line as that line.
-/
theorem restart_restores_accepted_jobs
    {codec : RecordCodec M} (hcodec : codec.Lawful)
    {w : World M}
    (hrun : Run (World.step codec) KeepsMetadata World.empty w) :
    (w.disk.results.map JobRecord.id).Nodup ∧
    ∀ (cfg : Config) (choice : LoadChoice M),
      (submittedIds w.effects).length ≤ cfg.jobRetentionLimit →
      ∃ plan, loadJobs codec cfg choice w.disk = .ok plan ∧
        (∀ id, .accepted id ∈ w.effects → (plan.jobs.get id).isSome) ∧
        (∀ id record, plan.jobs.get id = some record → record.Terminal) ∧
        (∀ line ∈ w.disk.results, plan.jobs.get line.id = some line) ∧
        (∀ line ∈ (applyOps w.disk plan.ops).results, plan.jobs.get line.id = some line) ∧
        ((applyOps w.disk plan.ops).results.map JobRecord.id).Nodup := by
  have hholds := run_world hcodec savedRules hrun
  have hbase : w.Holds History (fun _ => Life.Known) :=
    hholds.mono (fun _ _ h => h.1) (fun _ _ _ h => h.1)
  have hhistory := hbase.history
  have hsaved : ∀ id, (w.traces id).Saved id := by
    intro id
    cases w with
    | down disk effects reads => exact (hholds id).2
    | serving cfg s =>
        obtain ⟨lives, htracks, hlives⟩ := hholds
        have hlife := (htracks id).2.saved (hlives id).2
        rw [← (htracks id).1.traces_eq] at hlife
        exact hlife
  refine ⟨nodup_results hhistory, ?_⟩
  intro cfg choice hlimit
  have hget := restoreJobs_get_of_limit (Nat.le_trans (jobs_len_le hhistory) hlimit) choice
    w.effects w.reads
  have hreloaded := fun id => load_traces cfg choice id (hhistory id)
  refine ⟨_, loadJobs_eq hcodec cfg choice w.disk, ?_, ?_, ?_, ?_, ?_⟩
  · intro id haccepted
    have hlast := hsaved id (List.mem_filter.mpr ⟨haccepted, by simp [Effect.jobId]⟩)
    rw [hget id, Traces.loaded, Option.isSome_map]
    exact hlast
  · intro id record hrecord
    rw [hget id] at hrecord
    obtain ⟨current, -, rfl⟩ := Option.map_eq_some_iff.mp hrecord
    exact recoverRecord_terminal choice.now current
  · intro line hline
    rw [hget line.id]
    exact (hhistory line.id).loaded_of_result
      (List.mem_filter.mpr ⟨hline, by simp⟩) choice.now
  · intro line hline
    rw [hget line.id]
    exact (hreloaded line.id).result_loaded (List.mem_filter.mpr ⟨hline, by simp⟩)
  · exact nodup_results (fun id => (hhistory id).reloaded (hreloaded id))

def keepsSampleMetadata (w : World String) : WorldAction String → Bool
  | .boot cfg _ _ => decide (CompactionKeeps cfg w.effects)
  | .act a => a.fromSamples
  | .crash => true

theorem keepsMetadata_of_sample
    {w : World String} {a : WorldAction String}
    (h : keepsSampleMetadata w a = true) :
    KeepsMetadata w a := by
  cases a with
  | boot cfg choice crashAfter => exact of_decide_eq_true (p := CompactionKeeps cfg w.effects) h
  | act a => exact Action.fromHandlers_of_samples h
  | crash => trivial

/-- A process up to the inference of its first upload. -/
def busyProcess (webhookUrl : Option String) : List (WorldAction String) :=
  .boot Config.default (sampleChoice 3) none ::
    (enqueueActions (sampleRecord 1 5 webhookUrl) ++ readyActions 0 ++ inferActions 0 8).map
      WorldAction.act

/-- The recovered record is in the results file, the submission still in the other one. -/
def interruptsRecovery (w : World String) : Bool :=
  decide (w.disk.submissions.length = 1) && (decide (w.disk.results.length = 1) &&
    (decide ((submittedIds w.effects).length ≤ Config.default.jobRetentionLimit) &&
      (acceptedIds w.effects).contains 1))

/-- A crash during an inference, and another one between the append of the recovered
record and the first rename of the compaction. -/
theorem restart_restores_accepted_jobs_sample :
    ∃ (codec : RecordCodec String) (w : World String) (plan : LoadPlan String),
      w.disk.submissions.length = 1 ∧ w.disk.results.length = 1 ∧
      loadJobs codec Config.default (sampleChoice 31) w.disk = .ok plan ∧
      (plan.jobs.get 1).isSome := by
  have hexec : (runActions World.stepLoaded keepsSampleMetadata World.empty
      (busyProcess none ++
        [.crash, .boot Config.default (sampleChoice 21) (some 1)])).any
      interruptsRecovery = true := by
    decide +kernel
  have hcodec := textCodec_lawful sampleTexts_differ
  obtain ⟨w, hrun, htest⟩ := exists_world_of_any hcodec
    (fun _ _ h => keepsMetadata_of_sample h) hexec
  simp only [interruptsRecovery, Bool.and_eq_true, decide_eq_true_eq,
    List.contains_iff_mem] at htest
  obtain ⟨hsubmissions, hresults, hlimit, haccepted⟩ := htest
  obtain ⟨plan, hload, hpresent, -⟩ :=
    (restart_restores_accepted_jobs hcodec hrun).2 Config.default (sampleChoice 31) hlimit
  exact ⟨_, w, plan, hsubmissions, hresults, hload,
    hpresent 1 (mem_acceptedIds.mp haccepted)⟩

end AcceptedJobs

section ShownRecords

variable {id : Uuid} {L L' : Life M}

/-- No reader sees a terminal record before its line is in the results file,
unless the line still gets there. -/
def ShowsOnlySaved : World M → WorldAction M → Prop
  | w, .boot cfg _ _ => KeepsAll cfg w.disk.jobs
  | .down _ _ _, .crash => True
  | .down _ _ _, .act _ => True
  | .serving _ s, .crash =>
      ∀ i final restart, s.loops i = .appending final restart →
        (final.id, .ok final) ∉ s.reads
  | .serving _ s, .act (.worker i (.append outcome)) =>
      outcome = .failed false → ∀ final restart, s.loops i = .appending final restart →
        (final.id, .ok final) ∉ s.reads
  | .serving _ s, .act (.read id) =>
      ∀ final, s.jobs.get id = some final →
        .appended final (.failed false) ∉ s.effects
  | .serving _ _, .act a => a.FromHandlers

theorem ShowsOnlySaved.fromHandlers
    {cfg : Config} {s : Server M} {a : Action M}
    (h : ShowsOnlySaved (.serving cfg s) (.act a)) :
    a.FromHandlers := by
  cases a with
  | submit record => exact h
  | _ => trivial

/-- The terminal record that has been read is on its way to the file. -/
def Life.ShownOk (L : Life M) : Prop :=
  ∀ final, .ok final ∈ L.reads → final.Terminal →
    L.results = [final] ∨ ∃ record w, L.stage = .held record w (.appending final)

/-- A terminal record that has been read is the result line of its job. -/
def Traces.Shown (t : Traces M) : Prop :=
  ∀ final, .ok final ∈ t.reads → final.Terminal → t.results = [final]

/-- In a process, terminal records that have been read are saved or about to be. -/
structure Life.Shows (id : Uuid) (L : Life M) : Prop where
  known : L.Known id
  pastSaved : L.stage = .past → ∀ final, L.record = some final → L.results = [final]
  shown : L.ShownOk

/-- What a read that returns a terminal record can be about. -/
theorem Life.Ok.terminal_saved
    (hok : L.Ok id)
    (hshows : L.Shows id)
    {final : JobRecord M} (hrecord : L.record = some final) (hterminal : final.Terminal)
    (hsaved : .appended final (.failed false) ∉ L.effects) :
    L.results = [final] ∨ ∃ record w, L.stage = .held record w (.appending final) := by
  have hlines : ∀ outcome : AppendOutcome, .appended final outcome ∈ L.effects →
      outcome.lines final = [final] := by
    intro outcome hmem
    refine AppendOutcome.lines_eq ?_ final
    rintro rfl
    exact hsaved hmem
  have hunstarted : ∀ record, L.stage.submitted = some record → ¬ L.Resident record := by
    intro record hsubmitted hresident
    rw [hresident.eq_of_some hrecord] at hterminal
    have hqueued := (hshows.known.unstarted _ hsubmitted).queued
    exact (not_terminal_iff _).mpr (Or.inl hqueued) hterminal
  unfold Ok at hok
  cases hstage : L.stage with
  | past => exact Or.inl (hshows.pastSaved hstage final hrecord)
  | fresh => simp_all
  | checking record => simp_all
  | calling sub pc =>
      simp only [hstage] at hok
      have hcalling := hok.2.1
      have hnot := hunstarted sub.record (by rw [hstage]; rfl)
      cases pc with
      | inserting => simp [hcalling.1] at hrecord
      | appending => exact absurd hcalling.1 hnot
      | sending => exact absurd hcalling.1 hnot
      | rollingBack reason => exact absurd hcalling.1 hnot
      | persisting reason => simp [hcalling.1] at hrecord
  | queued record =>
      simp only [hstage] at hok
      exact absurd hok.2.1 (hunstarted record (by rw [hstage]; rfl))
  | held record w pc =>
      simp only [hstage] at hok
      have hheld := hok.2.2
      cases pc with
      | waiting => exact absurd hheld.1 (hunstarted record (by rw [hstage]; rfl))
      | executing =>
          rcases hheld.1 with hnone | ⟨now, hrunning⟩
          · simp [hnone] at hrecord
          · rw [hrunning] at hrecord
            cases hrecord
            rcases hterminal with hstatus | hstatus <;> cases hstatus
      | appending current =>
          cases Resident.eq_of_some hheld.2.1 hrecord
          exact Or.inr ⟨record, w, rfl⟩
      | notifying current =>
          obtain ⟨-, hresident, outcome, hres, heff⟩ := hheld
          cases hresident.eq_of_some hrecord
          exact Or.inl (hres.trans (hlines outcome (by simp [heff])))
      | cleaning current =>
          obtain ⟨-, hresident, outcome, delivery, hres, heff⟩ := hheld
          cases hresident.eq_of_some hrecord
          exact Or.inl (hres.trans (hlines outcome (by simp [heff])))
  | settled record ending =>
      simp only [hstage] at hok
      have hnot := hunstarted record (by rw [hstage]; rfl)
      cases hok.2 with
      | completed current outcome delivery removal hfinal hrec hsub hres heff =>
          cases Resident.eq_of_some hrec hrecord
          exact Or.inl (hres.trans (hlines outcome (by simp [heff])))
      | lost hrec hsub hres heff => simp [hrec] at hrecord
      | rejected err herr hrec hsub hres heff => simp [hrec] at hrecord
      | unsaved written hrec hsub hres heff => exact absurd hrec hnot
      | rolledBack err now reason outcome hrec hsub hres heff => simp [hrec] at hrecord
      | dropped hrec hsub hres heff => exact absurd hrec hnot
      | droppedPersisting now reason written hrec hsub hres heff => simp [hrec] at hrecord

/-- Every step under these conditions keeps the readers right. -/
theorem LifeStep.shownOk
    {cfg : Config} {a : Action M}
    (hstep : LifeStep cfg id a L L')
    (hok : L.Ok id)
    (hshows : L.Shows id)
    (hread : a = .read id → ∀ final, L.record = some final →
      .appended final (.failed false) ∉ L.effects)
    (happend : ∀ record w final, a = .worker w (.append (.failed false)) →
      L.stage = .held record w (.appending final) → .ok final ∉ L.reads) :
    L'.ShownOk := by
  have hshown := hshows.shown
  -- a step that neither ends an append nor writes to the results file
  have hkeeps : L'.results = L.results → L'.reads = L.reads →
      (∀ record w final, L.stage = .held record w (.appending final) → L'.stage = L.stage) →
      L'.ShownOk := by
    intro hresults hreads hstage final hmem hterminal
    rw [hreads] at hmem
    rcases hshown final hmem hterminal with hsaved | ⟨record, w, happending⟩
    · exact Or.inl (hresults.trans hsaved)
    · exact Or.inr ⟨record, w, (hstage record w final happending).trans happending⟩
  -- no terminal record has been read
  have hunread : L.results = [] →
      (∀ record w final, L.stage ≠ .held record w (.appending final)) →
      L'.reads = L.reads → L'.ShownOk := by
    intro hempty hstage hreads final hmem hterminal
    rw [hreads] at hmem
    rcases hshown final hmem hterminal with hsaved | ⟨record, w, happending⟩
    · rw [hempty] at hsaved
      cases hsaved
    · exact absurd happending (hstage record w final)
  cases hstep with
  | stutter => exact hshown
  | evict w order => exact hkeeps rfl rfl (fun _ _ _ _ => rfl)
  | read =>
      intro final hmem hterminal
      rcases List.mem_append.mp hmem with hold | hnew
      · exact hshown final hold hterminal
      · rw [List.mem_singleton] at hnew
        cases hrecord : L.record with
        | none =>
            rw [hrecord] at hnew
            cases hnew
        | some current =>
            rw [hrecord] at hnew
            cases hnew
            exact hok.terminal_saved hshows hrecord hterminal (hread rfl final hrecord)
  | appendResult record current w outcome hstage =>
      intro final hmem hterminal
      have hempty : L.results = [] := by
        simp only [Life.Ok, hstage] at hok
        exact hok.2.2.2.2.1
      rcases hshown final hmem hterminal with hsaved | ⟨r, i, happending⟩
      · rw [hempty] at hsaved
        cases hsaved
      · rw [hstage] at happending
        cases happending
        left
        have hwritten : outcome ≠ .failed false := by
          rintro rfl
          exact happend record w current rfl hstage hmem
        simp [hempty, AppendOutcome.lines_eq hwritten]
  | persist sub reason now outcome err hstage =>
      simp only [Life.Ok, hstage] at hok
      exact hunread hok.2.2.1 (by simp [hstage]) rfl
  | dropPersisting sub reason now written hstage =>
      simp only [Life.Ok, hstage] at hok
      exact hunread hok.2.2.1 (by simp [hstage]) rfl
  | _ =>
      refine hkeeps rfl rfl (fun record w final happending => ?_)
      simp_all

/-- The worker that appends a record is known by the life of the job. -/
theorem Tracks.loop_appending
    {s : Server M} {lives : Uuid → Life M} {record final : JobRecord M} {w : Nat}
    (htracks : Tracks s lives)
    (hstage : (lives id).stage = .held record w (.appending final)) :
    final.id = id ∧ ∃ restart, s.loops w = .appending final restart := by
  have hheld := ((htracks id).1.holder w (.appending final)).mpr (by rw [hstage]; rfl)
  exact WorkerLoop.eq_appending_of_held hheld

/-- A read of a job in the log of its process. -/
theorem Tracks.mem_reads_iff
    {s : Server M} {lives : Uuid → Life M}
    (htracks : Tracks s lives) (id : Uuid) (read : Except ApiError (JobRecord M)) :
    read ∈ (lives id).reads ↔ (id, read) ∈ s.reads := by
  rw [← (htracks id).1.reads]
  simp

theorem Tracks.mem_effects_iff
    {s : Server M} {lives : Uuid → Life M}
    (htracks : Tracks s lives) (id : Uuid) (e : Effect M) :
    e ∈ (lives id).effects ↔ e ∈ s.effects ∧ e.jobId = id := by
  rw [← (htracks id).1.effects]
  simp

theorem Life.Shows.shown_at_rest
    (hshows : L.Shows id)
    (hsaved : ∀ record w final, L.stage = .held record w (.appending final) →
      .ok final ∉ L.reads) :
    L.traces.Shown := by
  intro final hmem hterminal
  rcases hshows.shown final hmem hterminal with hresults | ⟨record, w, hstage⟩
  · exact hresults
  · exact absurd hmem (hsaved record w final hstage)

theorem Traces.Shown.reloaded
    {now : Uuid → OffsetDateTime} {t t' : Traces M}
    (h : t.Shown)
    (hreloaded : Reloaded now False t t') :
    t'.Shown := by
  cases hreloaded with
  | written submissions hkept =>
      intro final hmem hterminal
      have hloaded : t.loaded now = some final := by
        rw [Traces.loaded, Traces.last, h final hmem hterminal, List.getLast?_singleton,
          Option.some_or, Option.map_some, recoverRecord_of_terminal hterminal]
      simp [Traces.reloaded, hloaded]
  | dropped hlossy => exact hlossy.elim

/-- Terminal records that have been read stay on disk. -/
theorem shownRules :
    WorldRules (M := M) ShowsOnlySaved
      (fun id t => History id t ∧ t.Shown) (fun _ => Life.Shows) where
  history := fun _ _ h => h.1
  empty := fun _ => ⟨.unused rfl rfl rfl, by simp [Traces.Shown, Traces.empty]⟩
  reload := fun disk effects reads cfg choice crashAfter id t' hok h hreloaded =>
    ⟨(h id).1.reloaded hreloaded, (h id).2.reloaded (hreloaded.of_keepsAll hok)⟩
  start := by
    intro disk effects reads cfg choice id L hok h hreloaded hrest hlife hstage hrecord
    refine ⟨historyRules.start disk effects reads cfg choice id L trivial (fun id => (h id).1)
      hreloaded hrest.1 hlife hstage hrecord, ?_, fun final hmem hterminal =>
        Or.inl (hrest.2 final hmem hterminal)⟩
    intro _ final hfinal
    have hkept := hreloaded.of_keepsAll hok
    rcases hrecord with hnone | hloaded
    · rw [hnone] at hfinal
      cases hfinal
    · have hresults : L.traces.results =
          ((tracesOf disk effects reads id).loaded choice.now).toList := by
        cases htraces : L.traces with
        | mk submissions results effects reads =>
            rw [htraces] at hkept
            cases hkept with
            | written submissions hkept => rfl
            | dropped hlossy => exact hlossy.elim
      rw [← hloaded, hfinal] at hresults
      exact hresults
  step := by
    intro cfg s a s' lives lives' id hok _ htracks _ hlife h
    refine ⟨h.known.step hlife hok.fromHandlers, ?_, ?_⟩
    · intro hpast final hfinal
      obtain ⟨hbefore, -, hres, -, hrecord⟩ := hlife.past hpast
      rcases hrecord with hsame | hnone
      · exact hres.trans (h.pastSaved hbefore final (hsame.symm.trans hfinal))
      · rw [hnone] at hfinal
        cases hfinal
    · refine hlife.shownOk (htracks id).2 h ?_ ?_
      · rintro rfl final hrecord hmem
        exact hok final ((htracks id).1.record.trans hrecord)
          (htracks.mem_effects_iff id _ |>.mp hmem).1
      · rintro record w final rfl hstage hmem
        obtain ⟨hid, restart, hloop⟩ := htracks.loop_appending hstage
        exact hok rfl final restart hloop (hid ▸ (htracks.mem_reads_iff id _).mp hmem)
  crash := by
    intro cfg s lives id hok htracks h
    refine ⟨(htracks id).2.history h.known, h.shown_at_rest ?_⟩
    intro record w final hstage hmem
    obtain ⟨hid, restart, hloop⟩ := htracks.loop_appending hstage
    exact hok w final restart hloop (hid ▸ (htracks.mem_reads_iff id _).mp hmem)

/--
A terminal record that a client has read is what the next `load_jobs` returns,
if no crash and no failed append came between the publication of a record that
was read and the end of its append.
-/
theorem shown_records_survive
    {codec : RecordCodec M} (hcodec : codec.Lawful)
    {disk : Disk M} {effects : List (Effect M)}
    {reads : List (Uuid × Except ApiError (JobRecord M))}
    (hrun : Run (World.step codec) ShowsOnlySaved World.empty (.down disk effects reads))
    (cfg : Config) (choice : LoadChoice M)
    (hlimit : disk.jobs.len ≤ cfg.jobRetentionLimit) :
    ∃ plan, loadJobs codec cfg choice disk = .ok plan ∧
      ∀ id final, (id, .ok final) ∈ reads → final.Terminal →
        plan.jobs.get id = some final := by
  have hrest : ∀ id, History id (tracesOf disk effects reads id) ∧
      (tracesOf disk effects reads id).Shown := run_world hcodec shownRules hrun
  refine ⟨_, loadJobs_eq hcodec cfg choice disk, ?_⟩
  intro id final hread hterminal
  rw [restoreJobs_get_of_limit hlimit choice effects reads id]
  have hmem : .ok final ∈ (tracesOf disk effects reads id).reads := by
    simpa [tracesOf] using hread
  exact (hrest id).1.loaded_of_result
    (by rw [(hrest id).2 final hmem hterminal]; exact List.mem_singleton_self final) choice.now

instance (cfg : Config) (jobs : JobMap M) : Decidable (KeepsAll cfg jobs) :=
  inferInstanceAs (Decidable (_ ∨ _))

/-- Appends write their lines, and reads come behind appends only. -/
def readsSaved (s : Server String) : Action String → Bool
  | .read _ =>
      s.effects.all fun e =>
        match e with
        | .appended _ outcome => outcome.isOk
        | _ => true
  | .worker _ (.append outcome) => outcome.isOk
  | a => a.fromSamples

theorem showsOnlySaved_of_readsSaved
    (cfg : Config) {s : Server String} {a : Action String}
    (h : readsSaved s a = true) :
    ShowsOnlySaved (.serving cfg s) (.act a) := by
  cases a with
  | read id =>
      intro final _ hmem
      have hline := List.all_eq_true.mp h _ hmem
      cases hline
  | submit record =>
      have hsample : (Action.submit record).fromSamples = true := h
      exact Action.fromHandlers_of_samples hsample
  | worker i action =>
      cases action with
      | append outcome =>
          rintro rfl
          cases h
      | _ => trivial
  | _ => trivial

/-- The upload once its inference has succeeded. -/
def finishedSample : JobRecord String :=
  ((sampleRecord 1 5 none).markedRunning 8).succeededWith 9 "a red pixel"

theorem finishedTexts_differ :
    textsDiffer [sampleRecord 1 5 none, finishedSample] = true := by
  decide +kernel

/-- What a restart finds. -/
def restoredSample (disk : Disk String) : LoadPlan String :=
  restoreJobs Config.default (sampleChoice 21) disk.jobs

/-- A client has read the result, and the worker is behind its append. -/
def showsFinished (s : Server String) : Bool :=
  s.reads.contains (1, Except.ok finishedSample) &&
    (decide (s.disk.jobs.len ≤ Config.default.jobRetentionLimit) &&
      match s.loops 0 with
      | .notifying _ _ => true
      | _ => false)

/-- The result is read in the process that published it, behind its append; the process
crashes before it calls the webhook. -/
theorem shown_records_survive_sample :
    ∃ (codec : RecordCodec String) (disk : Disk String)
      (reads : List (Uuid × Except ApiError (JobRecord String))) (plan : LoadPlan String),
      (1, .ok finishedSample) ∈ reads ∧
      loadJobs codec Config.default (sampleChoice 31) disk = .ok plan ∧
      plan.jobs.get 1 = some finishedSample := by
  let cfg := Config.default
  have hcodec := textCodec_lawful finishedTexts_differ
  have hexec : (runActions (Server.step cfg) readsSaved (Server.initial cfg)
      (enqueueActions (sampleRecord 1 5 none) ++ readyActions 0 ++ inferActions 0 8 ++
        [.worker 0 (.publish 9), .worker 0 (.append .ok), .read 1])).any showsFinished =
      true := by
    decide +kernel
  obtain ⟨s, hrun, htest⟩ := exists_run_of_any
    (fun _ _ h => showsOnlySaved_of_readsSaved cfg h) hexec
  simp only [showsFinished, Bool.and_eq_true, decide_eq_true_eq, List.contains_iff_mem] at htest
  obtain ⟨hread, hlimit, hloop⟩ := htest
  have hboot : World.step (textCodec [sampleRecord 1 5 none, finishedSample]) World.empty
      (.boot cfg (sampleChoice 3) none) = some (.serving cfg (Server.initial cfg)) := by
    rw [World.step_eq_stepLoaded hcodec]
    rfl
  have hloads : ShowsOnlySaved World.empty (.boot cfg (sampleChoice 3) none) :=
    Or.inr (Nat.zero_le _)
  have hcrash : ShowsOnlySaved (.serving cfg s) .crash := by
    intro i final restart hat
    cases i with
    | zero =>
        rw [hat] at hloop
        cases hloop
    | succ i =>
        have hidle := run_idleBeyond (started_initial cfg) hrun (i + 1) (Nat.le_add_left 1 i)
        rw [hat] at hidle
        cases hidle
  have hworld := ((Run.refl World.empty).snoc hloads hboot).trans (world_run_of_run hrun)
  obtain ⟨plan, hload, hshown⟩ :=
    shown_records_survive hcodec (hworld.snoc hcrash rfl) cfg (sampleChoice 31) hlimit
  exact ⟨_, _, _, plan, hread, hload, hshown 1 finishedSample hread (Or.inl rfl)⟩

/-- Compaction is allowed what it needs and no append fails. -/
def keepsSample (w : World String) (a : WorldAction String) : Bool :=
  keepsSampleMetadata w a && decide a.AppendsSucceed

/-- The process is down, and a restart fails the job whose result has been read. -/
def losesFinished : World String → Bool
  | .serving _ _ => false
  | .down disk _ reads =>
      reads.contains (1, Except.ok finishedSample) &&
        (decide (disk.jobs.len ≤ Config.default.jobRetentionLimit) &&
          decide (((restoredSample disk).jobs.get 1).map JobRecord.status =
            some JobStatus.failed))

/-- The process dies between the publication of a result that a client reads and its append. -/
theorem shown_record_is_lost :
    ¬ ∀ (codec : RecordCodec String) (disk : Disk String) (effects : List (Effect String))
      (reads : List (Uuid × Except ApiError (JobRecord String)))
      (cfg : Config) (choice : LoadChoice String) (plan : LoadPlan String)
      (id : Uuid) (final : JobRecord String),
      codec.Lawful →
      Run (World.step codec) (fun w a => KeepsMetadata w a ∧
        ∀ action, a = .act action → action.AppendsSucceed) World.empty
        (.down disk effects reads) →
      disk.jobs.len ≤ cfg.jobRetentionLimit →
      loadJobs codec cfg choice disk = .ok plan →
      (id, .ok final) ∈ reads → final.Terminal →
      ∃ record, plan.jobs.get id = some record ∧ record.status = final.status ∧
        record.result = final.result ∧ record.error = final.error := by
  intro hclaim
  let cfg := Config.default
  let choice := sampleChoice 21
  have hexec : (runActions World.stepLoaded keepsSample World.empty
      (busyProcess none ++
        [.act (.worker 0 (.publish 9)), .act (.read 1), .crash])).any losesFinished = true := by
    decide +kernel
  have hguard : ∀ w a, keepsSample w a = true → KeepsMetadata w a ∧
      ∀ action, a = .act action → action.AppendsSucceed := by
    intro w a h
    obtain ⟨hkeeps, happends⟩ := Bool.and_eq_true_iff.mp h
    refine ⟨keepsMetadata_of_sample hkeeps, ?_⟩
    rintro action rfl
    exact of_decide_eq_true (p := action.AppendsSucceed) happends
  have hcodec := textCodec_lawful finishedTexts_differ
  obtain ⟨w, hrun, htest⟩ := exists_world_of_any hcodec hguard hexec
  cases w with
  | serving _ _ => cases htest
  | down disk effects reads =>
      simp only [losesFinished, Bool.and_eq_true, decide_eq_true_eq,
        List.contains_iff_mem] at htest
      obtain ⟨hread, hlimit, hfailed⟩ := htest
      obtain ⟨record, hrecord, hstatus, -⟩ := hclaim _ disk effects reads cfg choice _ 1
        finishedSample hcodec hrun hlimit (loadJobs_eq hcodec cfg choice disk) hread
        (Or.inl rfl)
      rw [restoredSample, hrecord, Option.map_some, hstatus] at hfailed
      cases hfailed

end ShownRecords
end FlorenceServer
