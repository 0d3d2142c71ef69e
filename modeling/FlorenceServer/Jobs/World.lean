import FlorenceServer.Jobs.Tracking

/-!
# Server processes over one data directory

A data directory sees one server process after the other.  A process starts
with `load_jobs`, which a crash may interrupt after any of its file operations,
serves, and ends in a crash that leaves the two metadata files as they are.  The
logs of effects and of reads go on over all processes.

`Traces` is what survives of one job when no process runs.  `Reloaded` says what
`load_jobs` does to the traces of one job, and `load_traces` that this is all it
does, wherever it is interrupted.
-/

namespace FlorenceServer

open JobRecord Runs

variable {M : Type}

section Worlds

/-- A data directory, with the process that serves it. -/
inductive World (M : Type) where
  | down (disk : Disk M) (effects : List (Effect M))
      (reads : List (Uuid × Except ApiError (JobRecord M)))
  | serving (cfg : Config) (server : Server M)

inductive WorldAction (M : Type) where
  /-- A process starts; `some k` is a crash after `k` file operations of `load_jobs`. -/
  | boot (cfg : Config) (choice : LoadChoice M) (crashAfter : Option Nat)
  | crash
  | act (action : Action M)

/-- The effects of the file operations of `load_jobs`. -/
def recoveredEffects (ops : List (FileOp M)) : List (Effect M) :=
  ops.filterMap (fun op =>
    match op with
    | .appendResult record => some (.recovered record)
    | .replaceSubmissions _ | .replaceResults _ => none)

/-- The ids that earlier processes have used. -/
def usedIds (effects : List (Effect M)) (id : Uuid) : Bool :=
  effects.any (fun e => decide (e.jobId = id))

namespace World

def empty : World M :=
  .down { submissions := [], results := [] } [] []

def disk : World M → Disk M
  | .down disk _ _ => disk
  | .serving _ s => s.disk

def effects : World M → List (Effect M)
  | .down _ effects _ => effects
  | .serving _ s => s.effects

def reads : World M → List (Uuid × Except ApiError (JobRecord M))
  | .down _ _ reads => reads
  | .serving _ s => s.reads

/-- `main` from `load_jobs` to `start_workers`. -/
def boot (cfg : Config) (disk : Disk M) (effects : List (Effect M))
    (reads : List (Uuid × Except ApiError (JobRecord M))) (plan : LoadPlan M) :
    Option Nat → World M
  | some k =>
      .down (applyOps disk (plan.ops.take k))
        (effects ++ recoveredEffects (plan.ops.take k)) reads
  | none =>
      .serving cfg (Server.start cfg plan.jobs (applyOps disk plan.ops)
        (effects ++ recoveredEffects plan.ops) reads (usedIds effects))

/-- A process that cannot load its metadata exits. -/
def step (codec : RecordCodec M) : World M → WorldAction M → Option (World M)
  | .down disk effects reads, .boot cfg choice crashAfter =>
      match loadJobs codec cfg choice disk with
      | .error _ => some (.down disk effects reads)
      | .ok plan => some (boot cfg disk effects reads plan crashAfter)
  | .serving _ s, .crash => some (.down s.disk s.effects s.reads)
  | .serving cfg s, .act a => (s.step cfg a).map (.serving cfg)
  | _, _ => none

/-- The same step over files that can always be read back. -/
def stepLoaded : World M → WorldAction M → Option (World M)
  | .down disk effects reads, .boot cfg choice crashAfter =>
      some (boot cfg disk effects reads (restoreJobs cfg choice disk.jobs) crashAfter)
  | .serving _ s, .crash => some (.down s.disk s.effects s.reads)
  | .serving cfg s, .act a => (s.step cfg a).map (.serving cfg)
  | _, _ => none

theorem step_eq_stepLoaded
    {codec : RecordCodec M} (hcodec : codec.Lawful) :
    step codec = stepLoaded := by
  funext w a
  cases w with
  | down disk effects reads =>
      cases a with
      | boot cfg choice crashAfter => simp [step, stepLoaded, loadJobs_eq hcodec]
      | _ => rfl
  | serving cfg s => cases a <;> rfl

end World

/-- The steps of a data directory. -/
inductive WorldCase : World M → WorldAction M → World M → Prop where
  | booted (disk : Disk M) (effects : List (Effect M))
      (reads : List (Uuid × Except ApiError (JobRecord M)))
      (cfg : Config) (choice : LoadChoice M) (crashAfter : Option Nat) :
      WorldCase (.down disk effects reads) (.boot cfg choice crashAfter)
        (.boot cfg disk effects reads (restoreJobs cfg choice disk.jobs) crashAfter)
  | crashed (cfg : Config) (s : Server M) :
      WorldCase (.serving cfg s) .crash (.down s.disk s.effects s.reads)
  | acted (cfg : Config) (s s' : Server M) (a : Action M)
      (hact : s.step cfg a = some s') :
      WorldCase (.serving cfg s) (.act a) (.serving cfg s')

theorem World.step_cases
    {codec : RecordCodec M} (hcodec : codec.Lawful)
    {w w' : World M} {a : WorldAction M}
    (h : World.step codec w a = some w') :
    WorldCase w a w' := by
  rw [step_eq_stepLoaded hcodec] at h
  unfold stepLoaded at h
  split at h
  case h_1 disk effects reads cfg choice crashAfter =>
      cases h
      exact .booted disk effects reads cfg choice crashAfter
  case h_2 cfg s =>
      cases h
      exact .crashed cfg s
  case h_3 cfg s a =>
      obtain ⟨s', hact, rfl⟩ := Option.map_eq_some_iff.mp h
      exact .acted cfg s s' a hact
  case h_4 =>
      cases h

end Worlds

section JobTraces

/-- What the files and the logs hold of one job. -/
structure Traces (M : Type) where
  submissions : List (JobRecord M)
  results : List (JobRecord M)
  effects : List (Effect M)
  reads : List (Except ApiError (JobRecord M))

/-- The traces of the job `id`. -/
def tracesOf (disk : Disk M) (effects : List (Effect M))
    (reads : List (Uuid × Except ApiError (JobRecord M))) (id : Uuid) : Traces M where
  submissions := disk.submissions.filter (fun r => decide (r.id = id))
  results := disk.results.filter (fun r => decide (r.id = id))
  effects := effects.filter (fun e => decide (e.jobId = id))
  reads := (reads.filter (fun read => decide (read.1 = id))).map Prod.snd

def World.traces (w : World M) (id : Uuid) : Traces M :=
  tracesOf w.disk w.effects w.reads id

def Life.traces (L : Life M) : Traces M where
  submissions := L.submissions
  results := L.results
  effects := L.effects
  reads := L.reads

theorem View.traces_eq
    {s : Server M} {id : Uuid} {L : Life M}
    (hview : View s id L) :
    tracesOf s.disk s.effects s.reads id = L.traces := by
  unfold tracesOf Life.traces
  rw [hview.submissions, hview.results, hview.effects, hview.reads]

namespace Traces

def empty : Traces M where
  submissions := []
  results := []
  effects := []
  reads := []

/-- The record that the two reads of `load_jobs` end up with. -/
def last (t : Traces M) : Option (JobRecord M) :=
  t.results.getLast?.or t.submissions.getLast?

/-- The record behind the recovery loop. -/
def loaded (now : Uuid → OffsetDateTime) (t : Traces M) : Option (JobRecord M) :=
  t.last.map (recoverRecord now)

/-- The record that the recovery loop appends. -/
def recovered (now : Uuid → OffsetDateTime) (t : Traces M) : List (JobRecord M) :=
  ((t.last.filter (fun record => record.status.isUnfinished)).map (recoverRecord now)).toList

/-- The traces after the recovery loop has dealt with the job. -/
def reloaded (now : Uuid → OffsetDateTime) (t : Traces M)
    (submissions results : List (JobRecord M)) : Traces M where
  submissions := submissions
  results := results
  effects := t.effects ++ (t.recovered now).map .recovered
  reads := t.reads

end Traces

/-- What `load_jobs` makes of the traces of a job.  Only a compaction that does
not keep all records is `lossy`. -/
inductive Reloaded (now : Uuid → OffsetDateTime) (lossy : Prop) (t : Traces M) :
    Traces M → Prop where
  | written (submissions : List (JobRecord M))
      (hsubmissions : submissions = t.submissions ∨ submissions = []) :
      Reloaded now lossy t (t.reloaded now submissions (t.loaded now).toList)
  | dropped (hlossy : lossy) :
      Reloaded now lossy t (t.reloaded now [] [])

/-- The traces of a job at rest: nothing, or a submission with at most one line
in each file. -/
inductive History (id : Uuid) (t : Traces M) : Prop where
  | unused
      (hsubmissions : t.submissions = [])
      (hresults : t.results = [])
      (heffects : t.effects = [])
  | used (record : JobRecord M)
      (hid : record.id = id)
      (hunstarted : record.Unstarted)
      (hsubmitted : ∀ r, .submitted r ∈ t.effects ↔ r = record)
      (hsubmissions : t.submissions = [] ∨ t.submissions = [record])
      (hresults : t.results = [] ∨
        ∃ final, FinalOf final record ∧ t.results = [final])

end JobTraces

section Loading

variable {id : Uuid} {t : Traces M} {now : Uuid → OffsetDateTime}

theorem History.last_cases
    (h : History id t) :
    (t.last = none ∧ t.submissions = [] ∧ t.results = []) ∨
    (∃ record, t.last = some record ∧ record.id = id ∧ record.Unstarted ∧
      t.submissions = [record] ∧ t.results = [] ∧
      ∀ r, .submitted r ∈ t.effects ↔ r = record) ∨
    (∃ record final, t.last = some final ∧ record.id = id ∧ record.Unstarted ∧
      FinalOf final record ∧ t.results = [final] ∧
      ∀ r, .submitted r ∈ t.effects ↔ r = record) := by
  cases h with
  | unused hsubmissions hresults heffects =>
      exact Or.inl ⟨by simp [Traces.last, hsubmissions, hresults], hsubmissions, hresults⟩
  | used record hid hunstarted hsubmitted hsubmissions hresults =>
      rcases hresults with hresults | ⟨final, hfinal, hresults⟩
      · rcases hsubmissions with hsubmissions | hsubmissions
        · exact Or.inl ⟨by simp [Traces.last, hsubmissions, hresults], hsubmissions, hresults⟩
        · exact Or.inr (Or.inl ⟨record, by simp [Traces.last, hsubmissions, hresults], hid,
            hunstarted, hsubmissions, hresults, hsubmitted⟩)
      · exact Or.inr (Or.inr ⟨record, final, by simp [Traces.last, hresults], hid, hunstarted,
          hfinal, hresults, hsubmitted⟩)

/-- The results file of a recovered job holds the record that was loaded. -/
theorem History.results_append_recovered
    (h : History id t) (now : Uuid → OffsetDateTime) :
    t.results ++ t.recovered now = (t.loaded now).toList := by
  rcases h.last_cases with ⟨hlast, -, hresults⟩ |
    ⟨record, hlast, -, hunstarted, -, hresults, -⟩ |
    ⟨record, final, hlast, -, -, hfinal, hresults, -⟩
  · simp [Traces.recovered, Traces.loaded, hlast, hresults]
  · simp [Traces.recovered, Traces.loaded, hlast, hresults, hunstarted.queued,
      JobStatus.isUnfinished]
  · have hterminal := (isUnfinished_eq_false_iff final).mpr hfinal.terminal
    simp [Traces.recovered, Traces.loaded, hlast, hresults, hterminal,
      recoverRecord_of_terminal hfinal.terminal]

/-- A loaded record is a final version of the record submitted under its id. -/
theorem History.loaded_final
    (h : History id t)
    {final : JobRecord M} (hloaded : t.loaded now = some final) :
    ∃ record, record.id = id ∧ record.Unstarted ∧ FinalOf final record ∧
      ∀ r, .submitted r ∈ t.effects ↔ r = record := by
  obtain ⟨current, hlast', rfl⟩ := Option.map_eq_some_iff.mp hloaded
  rcases h.last_cases with ⟨hlast, -, -⟩ |
    ⟨record, hlast, hid, hunstarted, -, -, hsubmitted⟩ |
    ⟨record, final, hlast, hid, hunstarted, hfinal, -, hsubmitted⟩
  · rw [hlast] at hlast'
    cases hlast'
  · rw [hlast] at hlast'
    cases hlast'
    refine ⟨current, hid, hunstarted, ?_, hsubmitted⟩
    unfold recoverRecord
    rw [if_pos (by rw [hunstarted.queued]; rfl)]
    exact FinalOf.of_failedWith _ _
  · rw [hlast] at hlast'
    cases hlast'
    rw [recoverRecord_of_terminal hfinal.terminal]
    exact ⟨record, hid, hunstarted, hfinal, hsubmitted⟩

theorem Disk.jobs_get
    (disk : Disk M) (effects : List (Effect M))
    (reads : List (Uuid × Except ApiError (JobRecord M))) (id : Uuid) :
    disk.jobs.get id = (tracesOf disk effects reads id).last := by
  unfold Disk.jobs
  rw [HashMap.get_insertAll, HashMap.get_insertAll, HashMap.get_empty, Option.or_none]
  rfl

/-- The part of the recovery loop that concerns one job. -/
theorem recoveredRecords_filter
    (choice : LoadChoice M) (disk : Disk M) (effects : List (Effect M))
    (reads : List (Uuid × Except ApiError (JobRecord M))) (id : Uuid) :
    (recoveredRecords choice disk.jobs).filter (fun r => decide (r.id = id)) =
      (tracesOf disk effects reads id).recovered choice.now := by
  have hvisit : (choice.order.visit disk.jobs.values).filter (fun r => decide (r.id = id)) =
      (disk.jobs.get id).toList := by
    have hperm := (choice.order.perm disk.jobs.values).filter (fun r => decide (r.id = id))
    rw [disk.jobs_keyed.filter_values id] at hperm
    cases hget : disk.jobs.get id with
    | none =>
        rw [hget] at hperm
        exact List.perm_nil.mp hperm
    | some record =>
        rw [hget] at hperm
        exact List.perm_singleton.mp hperm
  unfold recoveredRecords Traces.recovered
  rw [Option.toList_map, Option.toList_filter, ← disk.jobs_get effects reads id, ← hvisit,
    List.filter_map, List.filter_filter, List.filter_filter]
  congr 1
  apply List.filter_congr
  intro record _
  simp [Bool.and_comm]

theorem applyOps_append (disk : Disk M) (ops ops' : List (FileOp M)) :
    applyOps disk (ops ++ ops') = applyOps (applyOps disk ops) ops' :=
  List.foldl_append

theorem applyOps_appendResult (disk : Disk M) (records : List (JobRecord M)) :
    applyOps disk (records.map .appendResult) =
      { disk with results := disk.results ++ records } := by
  induction records generalizing disk with
  | nil => simp [applyOps]
  | cons record records ih =>
      rw [List.map_cons, applyOps, List.foldl_cons]
      exact (ih _).trans (by simp [FileOp.apply])

theorem recoveredEffects_append (ops ops' : List (FileOp M)) :
    recoveredEffects (ops ++ ops') = recoveredEffects ops ++ recoveredEffects ops' :=
  List.filterMap_append

theorem recoveredEffects_appendResult (records : List (JobRecord M)) :
    recoveredEffects (records.map .appendResult) = records.map .recovered := by
  induction records with
  | nil => rfl
  | cons record records ih =>
      rw [List.map_cons, List.map_cons, ← ih]
      rfl

/-- The file operations of a compaction, once no job is unfinished. -/
theorem compactMetadata_take
    (cfg : Config) (order : IterationOrder (JobRecord M)) {jobs : JobMap M}
    (hterminal : ∀ record ∈ jobs.values, record.Terminal) (k : Nat) :
    (compactMetadata cfg order jobs).take k = [] ∨
    cfg.metadataRetentionLimit ≠ 0 ∧
      ((compactMetadata cfg order jobs).take k = [.replaceSubmissions []] ∨
      (compactMetadata cfg order jobs).take k = [.replaceSubmissions [], .replaceResults
        (recentRecords (order.visit jobs.values) cfg.metadataRetentionLimit)]) := by
  unfold compactMetadata
  by_cases hzero : cfg.metadataRetentionLimit = 0
  · rw [if_pos hzero]
    exact Or.inl List.take_nil
  · rw [if_neg hzero]
    have hall : ∀ record ∈ recentRecords (order.visit jobs.values) cfg.metadataRetentionLimit,
        record.status.isUnfinished = false := by
      intro record hrecord
      have hvisit := mem_of_mem_recent JobRecord.updatedAt _ hrecord
      exact (isUnfinished_eq_false_iff record).mpr
        (hterminal record ((order.perm jobs.values).mem_iff.mp hvisit))
    have hunfinished : (recentRecords (order.visit jobs.values)
        cfg.metadataRetentionLimit).filter (fun record => record.status.isUnfinished) = [] :=
      List.filter_eq_nil_iff.mpr (fun record hrecord => by simp [hall record hrecord])
    have hfinished : (recentRecords (order.visit jobs.values)
        cfg.metadataRetentionLimit).filter (fun record => !record.status.isUnfinished) =
        recentRecords (order.visit jobs.values) cfg.metadataRetentionLimit :=
      List.filter_eq_self.mpr (fun record hrecord => by simp [hall record hrecord])
    simp only [List.partition_eq_filter_filter, Function.comp_def, hunfinished, hfinished]
    match k with
    | 0 => exact Or.inl rfl
    | 1 => exact Or.inr ⟨hzero, Or.inl rfl⟩
    | k + 2 => exact Or.inr ⟨hzero, Or.inr (by simp)⟩

/-- Compaction keeps every record of the map. -/
def KeepsAll (cfg : Config) (jobs : JobMap M) : Prop :=
  cfg.metadataRetentionLimit = 0 ∨ jobs.len ≤ cfg.metadataRetentionLimit

/-- A list that has no more than the elements of an option. -/
theorem eq_nil_or_eq_toList {α : Type*} {xs : List α} {o : Option α}
    (h : xs.Subperm o.toList) :
    xs = [] ∨ xs = o.toList := by
  cases o with
  | none =>
      exact Or.inl (List.subperm_nil.mp h)
  | some a =>
      obtain ⟨ys, hperm, hsub⟩ := h
      rcases List.sublist_singleton.mp hsub with rfl | rfl
      · exact Or.inl (List.nil_perm.mp hperm)
      · exact Or.inr (List.singleton_perm.mp hperm).symm

/-- The records of one job behind a compaction. -/
theorem recentRecords_filter
    (order : IterationOrder (JobRecord M)) {jobs : JobMap M}
    (hkeyed : HashMap.Keyed JobRecord.id jobs) (limit : Nat) (id : Uuid) :
    ((recentRecords (order.visit jobs.values) limit).filter (fun r => decide (r.id = id)) =
      (jobs.get id).toList) ∨
    limit < jobs.len ∧
      (recentRecords (order.visit jobs.values) limit).filter
        (fun r => decide (r.id = id)) = [] := by
  have hvisit := order.perm jobs.values
  by_cases hlen : jobs.len ≤ limit
  · have hperm := ((recent_perm_of_length_le JobRecord.updatedAt limit
      (by rw [hvisit.length_eq, HashMap.values_length]; exact hlen)).trans hvisit).filter
        (fun r : JobRecord M => decide (r.id = id))
    rw [hkeyed.filter_values id] at hperm
    left
    rcases eq_nil_or_eq_toList hperm.subperm with hnil | hsame
    · have hempty := hperm.length_eq
      rw [show recent JobRecord.updatedAt limit (order.visit jobs.values) =
        recentRecords (order.visit jobs.values) limit from rfl] at hnil hempty
      rw [hnil] at hempty ⊢
      exact (List.length_eq_zero_iff.mp hempty.symm).symm
    · exact hsame
  · have hsub : ((recentRecords (order.visit jobs.values) limit).filter
        (fun r => decide (r.id = id))).Subperm (jobs.get id).toList := by
      rw [← hkeyed.filter_values id]
      refine (((recent_sublist JobRecord.updatedAt limit
        (order.visit jobs.values)).filter _).subperm).trans ?_
      exact (((List.perm_insertionSort _ _).trans hvisit).filter _).subperm
    rcases eq_nil_or_eq_toList hsub with hnil | hsame
    · exact Or.inr ⟨by omega, hnil⟩
    · exact Or.inl hsame

section FileOperations

variable {disk : Disk M} {effects : List (Effect M)}
variable {reads : List (Uuid × Except ApiError (JobRecord M))}

/-- The traces of a job once some recovered records have been appended. -/
theorem tracesOf_appendResult
    (disk : Disk M) (effects : List (Effect M))
    (reads : List (Uuid × Except ApiError (JobRecord M)))
    (records : List (JobRecord M)) (id : Uuid) :
    tracesOf { disk with results := disk.results ++ records }
        (effects ++ records.map .recovered) reads id =
      { tracesOf disk effects reads id with
        results := (tracesOf disk effects reads id).results ++
          records.filter (fun r => decide (r.id = id))
        effects := (tracesOf disk effects reads id).effects ++
          (records.filter (fun r => decide (r.id = id))).map .recovered } := by
  simp only [tracesOf, List.filter_append, List.filter_map]
  rfl

variable (cfg : Config) (choice : LoadChoice M) (id : Uuid)

/-- Once all recovered records are appended, the job is reloaded; compaction may
only drop it. -/
theorem reloaded_of_recovered
    (hhistory : History id (tracesOf disk effects reads id)) (k : Nat) :
    let tail := (compactMetadata cfg choice.order
      (disk.jobs.mapValues (recoverRecord choice.now))).take k
    let ops := (recoveredRecords choice disk.jobs).map FileOp.appendResult ++ tail
    Reloaded choice.now (¬ KeepsAll cfg disk.jobs) (tracesOf disk effects reads id)
      (tracesOf (applyOps disk ops) (effects ++ recoveredEffects ops) reads id) := by
  intro tail ops
  have hterminal : ∀ record ∈ (disk.jobs.mapValues (recoverRecord choice.now)).values,
      record.Terminal := by
    intro record hrecord
    obtain ⟨key, hget⟩ := (HashMap.mem_values_iff _ _).mp hrecord
    rw [HashMap.get_mapValues] at hget
    obtain ⟨old, -, rfl⟩ := Option.map_eq_some_iff.mp hget
    exact recoverRecord_terminal choice.now old
  have heffects : recoveredEffects ops =
      (recoveredRecords choice disk.jobs).map .recovered ++ recoveredEffects tail := by
    rw [recoveredEffects_append, recoveredEffects_appendResult]
  have hdisk : applyOps disk ops =
      applyOps { disk with results := disk.results ++ recoveredRecords choice disk.jobs }
        tail := by
    rw [applyOps_append, applyOps_appendResult]
  let appended : Disk M :=
    { disk with results := disk.results ++ recoveredRecords choice disk.jobs }
  let logged := effects ++ (recoveredRecords choice disk.jobs).map Effect.recovered
  let t := tracesOf disk effects reads id
  have happended : tracesOf appended logged reads id =
      t.reloaded choice.now t.submissions (t.loaded choice.now).toList := by
    rw [tracesOf_appendResult, recoveredRecords_filter choice disk effects reads id,
      hhistory.results_append_recovered choice.now]
    rfl
  -- what compaction does to the traces, whatever records it keeps
  have hcompacted : ∀ records : List (JobRecord M),
      tracesOf { submissions := [], results := records } logged reads id =
        t.reloaded choice.now [] (records.filter (fun r => decide (r.id = id))) :=
    fun records => congrArg (fun t : Traces M =>
      { t with
        submissions := []
        results := records.filter (fun r => decide (r.id = id)) }) happended
  rw [hdisk, heffects]
  rcases compactMetadata_take cfg choice.order hterminal k with
    htail | ⟨hlimit, htail | htail⟩
  · rw [show tail = [] from htail, recoveredEffects, List.filterMap_nil, List.append_nil]
    exact happended ▸ .written _ (Or.inl rfl)
  · rw [show tail = _ from htail, recoveredEffects, List.filterMap_cons_none rfl,
      List.filterMap_nil, List.append_nil]
    have hsubmissions : tracesOf { appended with submissions := [] } logged reads id =
        t.reloaded choice.now [] (t.loaded choice.now).toList :=
      congrArg (fun t : Traces M => { t with submissions := [] }) happended
    exact hsubmissions ▸ .written [] (Or.inr rfl)
  · rw [show tail = _ from htail, recoveredEffects, List.filterMap_cons_none rfl,
      List.filterMap_cons_none rfl, List.filterMap_nil, List.append_nil]
    have hkeyed : HashMap.Keyed JobRecord.id
        (disk.jobs.mapValues (recoverRecord choice.now)) :=
      disk.jobs_keyed.mapValues (recoverRecord_id choice.now)
    have hloaded : (disk.jobs.mapValues (recoverRecord choice.now)).get id =
        t.loaded choice.now := by
      rw [HashMap.get_mapValues, disk.jobs_get effects reads id]
      rfl
    have hkept := recentRecords_filter choice.order hkeyed cfg.metadataRetentionLimit id
    rw [hloaded] at hkept
    change Reloaded _ _ _ (tracesOf { submissions := [], results := _ } logged reads id)
    rw [hcompacted]
    rcases hkept with hsame | ⟨hlossy, hnone⟩
    · rw [hsame]
      exact .written [] (Or.inr rfl)
    · rw [hnone]
      refine .dropped (fun hkeeps => hkeeps.elim hlimit (fun hlen => ?_))
      rw [HashMap.len, HashMap.mapValues, List.length_map] at hlossy
      exact absurd hlossy (Nat.not_lt.mpr hlen)

/-- **What `load_jobs` does to a job**, when it runs to its end. -/
theorem load_traces
    (hhistory : History id (tracesOf disk effects reads id)) :
    let ops := (restoreJobs cfg choice disk.jobs).ops
    Reloaded choice.now (¬ KeepsAll cfg disk.jobs) (tracesOf disk effects reads id)
      (tracesOf (applyOps disk ops) (effects ++ recoveredEffects ops) reads id) := by
  have h := reloaded_of_recovered cfg choice id hhistory
    (compactMetadata cfg choice.order
      (disk.jobs.mapValues (recoverRecord choice.now))).length
  rw [List.take_length] at h
  exact h

/-- The same when a crash interrupts it after `k` file operations. -/
theorem interrupted_load_traces
    (hhistory : History id (tracesOf disk effects reads id)) (k : Nat) :
    let ops := (restoreJobs cfg choice disk.jobs).ops.take k
    tracesOf (applyOps disk ops) (effects ++ recoveredEffects ops) reads id =
        tracesOf disk effects reads id ∨
      Reloaded choice.now (¬ KeepsAll cfg disk.jobs) (tracesOf disk effects reads id)
        (tracesOf (applyOps disk ops) (effects ++ recoveredEffects ops) reads id) := by
  intro ops
  set recovered := recoveredRecords choice disk.jobs with hrecovered
  have hops : ops = (recovered.take k).map .appendResult ++ (compactMetadata cfg choice.order
      (disk.jobs.mapValues (recoverRecord choice.now))).take (k - recovered.length) := by
    simp only [ops, restoreJobs, List.take_append, List.length_map, List.map_take, hrecovered]
  by_cases hall : recovered.length ≤ k
  · right
    rw [hops, List.take_of_length_le hall]
    exact reloaded_of_recovered cfg choice id hhistory (k - recovered.length)
  · rw [Nat.sub_eq_zero_of_le (by omega), List.take_zero, List.append_nil] at hops
    have happended := tracesOf_appendResult disk effects reads (recovered.take k) id
    have hpart : ((recovered.take k).filter (fun r => decide (r.id = id))).Subperm
        ((tracesOf disk effects reads id).recovered choice.now) := by
      rw [← recoveredRecords_filter]
      exact ((List.take_sublist k recovered).filter _).subperm
    rw [hops, applyOps_appendResult, recoveredEffects_appendResult, happended]
    have hresults := hhistory.results_append_recovered choice.now
    rcases eq_nil_or_eq_toList hpart with hnone | hdone
    · left
      rw [hnone, List.map_nil, List.append_nil, List.append_nil]
    · right
      unfold Traces.recovered at hresults
      rw [hdone, hresults]
      exact .written _ (Or.inl rfl)

end FileOperations
end Loading

section SampleWorlds

def WorldAction.fromSamples : WorldAction String → Bool
  | .act a => a.fromSamples
  | .boot _ _ _ | .crash => true

/-- No append of a handler or worker fails. -/
def WorldAction.AppendsSucceed : WorldAction M → Prop
  | .act a => a.AppendsSucceed
  | .boot _ _ _ | .crash => True

instance (a : WorldAction M) : Decidable a.AppendsSucceed :=
  match a with
  | .act a => inferInstanceAs (Decidable a.AppendsSucceed)
  | .boot _ _ _ | .crash => isTrue trivial

/-- The iteration order of the model and one clock reading for every record. -/
def sampleChoice (now : OffsetDateTime) : LoadChoice String where
  order := IterationOrder.stored
  now := fun _ => now

/-- A run of a process is a run of its data directory. -/
theorem world_run_of_run
    {codec : RecordCodec M} {cfg : Config} {ok : World M → WorldAction M → Prop}
    {s t : Server M}
    (hrun : Run (Server.step cfg) (fun s a => ok (.serving cfg s) (.act a)) s t) :
    Run (World.step codec) ok (.serving cfg s) (.serving cfg t) := by
  induction hrun with
  | refl => exact Run.refl _
  | tail _ hstep ih =>
      obtain ⟨a, hok, hstep⟩ := hstep
      exact ih.snoc hok (Option.map_eq_some_iff.mpr ⟨_, hstep, rfl⟩)

/-- A checked execution that starts with an empty data directory. -/
theorem exists_world_of_any
    {codec : RecordCodec M} (hcodec : codec.Lawful)
    {ok : World M → WorldAction M → Prop} {guard : World M → WorldAction M → Bool}
    (hguard : ∀ w a, guard w a = true → ok w a)
    {actions : List (WorldAction M)} {test : World M → Bool}
    (h : (runActions World.stepLoaded guard World.empty actions).any test = true) :
    ∃ w, Run (World.step codec) ok World.empty w ∧ test w = true := by
  rw [World.step_eq_stepLoaded hcodec]
  exact exists_run_of_any hguard h

end SampleWorlds
end FlorenceServer
