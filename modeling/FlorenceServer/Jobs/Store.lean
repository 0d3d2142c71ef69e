import FlorenceServer.Lib.RecentSelection
import FlorenceServer.Lib.TextLines
import FlorenceServer.Types.Config
import FlorenceServer.Types.TaskSpec

/-!
# The metadata store

`jobs/store.rs` and `append_jsonl` from `util.rs`.

A metadata file is a list of records, one per line; `fileBytes` are the bytes
that stand for it on disk.  `load_jobs` reads the bytes of both files, recovers
the unfinished jobs and rewrites the files.  Its file operations are returned
as a list, in the order in which they are performed, so that a crash between
two of them is a prefix of that list.
-/

namespace FlorenceServer

variable {M : Type}

section AppendJsonl

/-- How one `append_jsonl` call ends.  Here a failing call has written its whole line or
nothing, for metadata and dead letters alike; what a line that is cut off does to a file
is the subject of `TornLog`, on the bytes. -/
inductive AppendOutcome where
  | ok
  | failed (written : Bool)
deriving DecidableEq, Repr

def AppendOutcome.isOk : AppendOutcome → Bool
  | .ok => true
  | .failed _ => false

/-- The lines an append leaves in the file. -/
def AppendOutcome.lines {α : Type} (outcome : AppendOutcome) (line : α) : List α :=
  match outcome with
  | .ok => [line]
  | .failed true => [line]
  | .failed false => []

theorem AppendOutcome.lines_cases {α : Type} (outcome : AppendOutcome) (line : α) :
    outcome.lines line = [] ∨ outcome.lines line = [line] := by
  cases outcome with
  | ok => exact Or.inr rfl
  | failed written =>
      cases written with
      | true => exact Or.inr rfl
      | false => exact Or.inl rfl

theorem AppendOutcome.lines_eq {α : Type} {outcome : AppendOutcome}
    (h : outcome ≠ .failed false) (line : α) :
    outcome.lines line = [line] := by
  cases outcome with
  | ok => rfl
  | failed written =>
      cases written with
      | true => rfl
      | false => exact absurd rfl h

/-- The third-party encoding of a record as one line of JSON. -/
structure RecordCodec (M : Type) where
  /-- `serde_json::to_vec`, as text -/
  toJson : JobRecord M → List Char
  /-- `serde_json::from_str` -/
  fromStr : List Char → Option (JobRecord M)

/-- What the job code relies on: an encoded record is one line, which is not
blank and decodes to the record. -/
structure RecordCodec.Lawful (codec : RecordCodec M) : Prop where
  decodes : ∀ record, codec.fromStr (codec.toJson record) = some record
  noNewline : ∀ record, '\n' ∉ codec.toJson record
  opensObject : ∀ record, (codec.toJson record).head? = some '{'
  closesObject : ∀ record, (codec.toJson record).getLast? = some '}'

theorem RecordCodec.Lawful.toJson_ne_nil
    {codec : RecordCodec M}
    (hcodec : codec.Lawful) (record : JobRecord M) :
    codec.toJson record ≠ [] := by
  intro hnil
  have hbrace := hcodec.opensObject record
  rw [hnil] at hbrace
  cases hbrace

/-- The line that `append_jsonl` writes. -/
def jsonLine (codec : RecordCodec M) (record : JobRecord M) : List Char :=
  codec.toJson record ++ ['\n']

/-- The bytes of a metadata file that holds these records. -/
def fileBytes (codec : RecordCodec M) (records : List (JobRecord M)) : List UInt8 :=
  encodeUtf8 (records.flatMap (jsonLine codec))

end AppendJsonl

section LoadJobRecords

inductive MetadataFile where
  | submissions
  | results
deriving DecidableEq, Repr

/-- `failed to read {path}` and `failed to parse job record at {path}:{line}`. -/
inductive LoadError where
  | read (path : MetadataFile)
  | parse (path : MetadataFile) (line : Nat)
deriving DecidableEq, Repr

/-- The loop of `load_job_records` over the lines still to be read. -/
def loadLines (codec : RecordCodec M) (path : MetadataFile) :
    Nat → List (List Char) → JobMap M → Except LoadError (JobMap M)
  | _, [], jobs => .ok jobs
  | lineNumber, line :: rest, jobs =>
      if (trimChars line).isEmpty then
        loadLines codec path (lineNumber + 1) rest jobs
      else
        match codec.fromStr line with
        | none => .error (.parse path (lineNumber + 1))
        | some record =>
            loadLines codec path (lineNumber + 1) rest (jobs.insert record.id record)

/-- `load_job_records`; `none` is a file that does not exist. -/
def loadJobRecords (codec : RecordCodec M) (path : MetadataFile)
    (contents : Option (List UInt8)) (jobs : JobMap M) :
    Except LoadError (JobMap M) :=
  match contents with
  | none => .ok jobs
  | some bytes =>
      match decodeUtf8 bytes with
      | none => .error (.read path)
      | some text => loadLines codec path 0 (lines text) jobs

/-- A line is blank if nothing but whitespace stands in it. -/
theorem trimChars_isEmpty_iff (line : List Char) :
    (trimChars line).isEmpty = true ↔ ∀ c ∈ line, isWhitespace c = true := by
  rw [List.isEmpty_iff]
  unfold trimChars
  rw [List.reverse_eq_nil_iff, List.dropWhile_eq_nil_iff]
  constructor
  · intro h c hc
    rw [← List.takeWhile_append_dropWhile (p := isWhitespace) (l := line), List.mem_append] at hc
    rcases hc with hbefore | hbehind
    · exact List.mem_takeWhile_imp hbefore
    · exact h c (List.mem_reverse.mpr hbehind)
  · intro h c hc
    exact h c ((List.dropWhile_sublist _).subset (List.mem_reverse.mp hc))

/-- A line with an object in it is not taken for a blank one. -/
theorem trimChars_brace
    {line : List Char}
    (hbrace : '{' ∈ line) :
    (trimChars line).isEmpty = false := by
  rw [← Bool.not_eq_true, trimChars_isEmpty_iff]
  intro h
  have hspace := h '{' hbrace
  revert hspace
  decide

/-- A line that starts an object is not taken for a blank one. -/
theorem trimChars_object
    {line : List Char}
    (hopen : line.head? = some '{') :
    (trimChars line).isEmpty = false :=
  trimChars_brace (List.mem_of_mem_head? hopen)

theorem lines_records
    {codec : RecordCodec M}
    (hcodec : codec.Lawful)
    (records : List (JobRecord M)) (rest : List Char) :
    lines (records.flatMap (jsonLine codec) ++ rest) =
      records.map codec.toJson ++ lines rest := by
  have htexts : ∀ t ∈ records.map codec.toJson, '\n' ∉ t ∧ t.getLast? ≠ some '\r' := by
    intro t ht
    obtain ⟨record, -, rfl⟩ := List.mem_map.mp ht
    refine ⟨hcodec.noNewline record, ?_⟩
    rw [hcodec.closesObject record]
    decide
  have hlines := lines_flatMap_terminated (records.map codec.toJson) htexts rest
  rw [List.flatMap_map] at hlines
  exact hlines

/-- Complete lines are read whatever stands behind them. -/
theorem loadLines_records
    {codec : RecordCodec M}
    (hcodec : codec.Lawful)
    (path : MetadataFile)
    (records : List (JobRecord M)) (rest : List (List Char))
    (lineNumber : Nat) (jobs : JobMap M) :
    loadLines codec path lineNumber (records.map codec.toJson ++ rest) jobs =
      loadLines codec path (lineNumber + records.length) rest
        (jobs.insertAll JobRecord.id records) := by
  induction records generalizing lineNumber jobs with
  | nil => rfl
  | cons record records ih =>
      rw [List.map_cons, List.cons_append, loadLines,
        trimChars_object (hcodec.opensObject record), if_neg (by simp), hcodec.decodes,
        List.length_cons, Nat.add_comm records.length, ← Nat.add_assoc]
      exact ih (lineNumber + 1) (jobs.insert record.id record)

/-- What `load_job_records` makes of a file that starts with complete lines. -/
theorem loadJobRecords_append
    {codec : RecordCodec M}
    (hcodec : codec.Lawful)
    (path : MetadataFile)
    (records : List (JobRecord M)) (bytes : List UInt8) (jobs : JobMap M) :
    loadJobRecords codec path (some (fileBytes codec records ++ bytes)) jobs =
      match decodeUtf8 bytes with
      | none => .error (.read path)
      | some text =>
          loadLines codec path records.length (lines text)
            (jobs.insertAll JobRecord.id records) := by
  simp only [loadJobRecords, fileBytes, decodeUtf8_append]
  cases decodeUtf8 bytes with
  | none => rfl
  | some text =>
      simp only [Option.map_some]
      rw [lines_records hcodec, loadLines_records hcodec, Nat.zero_add]

/-- A file of complete lines is read back, the last record of each id winning. -/
theorem loadJobRecords_fileBytes
    {codec : RecordCodec M}
    (hcodec : codec.Lawful)
    (path : MetadataFile)
    (records : List (JobRecord M)) (jobs : JobMap M) :
    loadJobRecords codec path (some (fileBytes codec records)) jobs =
      .ok (jobs.insertAll JobRecord.id records) := by
  have hload := loadJobRecords_append hcodec path records [] jobs
  rw [List.append_nil, ← encodeUtf8_nil, decodeUtf8_encodeUtf8] at hload
  exact hload

end LoadJobRecords

section Retention

/-- `recent_records`, on the values in the order the map yields them. -/
def recentRecords (values : List (JobRecord M)) (limit : Nat) : List (JobRecord M) :=
  recent JobRecord.updatedAt limit values

/-- `retain_recent_jobs`. -/
def retainRecentJobs (order : IterationOrder (JobRecord M))
    (jobs : JobMap M) (limit : Nat) : JobMap M :=
  if jobs.len ≤ limit then
    jobs
  else if limit = 0 then
    ∅
  else
    let keep := (recentRecords (order.visit jobs.values) limit).map JobRecord.id
    jobs.retain (fun id => decide (id ∈ keep))

/-- Retention changes no record that it keeps. -/
theorem retainRecentJobs_get
    (order : IterationOrder (JobRecord M))
    (jobs : JobMap M) (limit : Nat) (id : Uuid) :
    (retainRecentJobs order jobs limit).get id = jobs.get id ∨
      (retainRecentJobs order jobs limit).get id = none := by
  unfold retainRecentJobs
  by_cases hlen : jobs.len ≤ limit
  · rw [if_pos hlen]
    exact Or.inl rfl
  · rw [if_neg hlen]
    by_cases hzero : limit = 0
    · rw [if_pos hzero]
      exact Or.inr (HashMap.get_empty id)
    · rw [if_neg hzero, HashMap.get_retain]
      split
      · exact Or.inl rfl
      · exact Or.inr rfl

/-- The records that are not older than `record`, itself included. -/
def newerRecords (jobs : JobMap M) (record : JobRecord M) : Nat :=
  notOlder JobRecord.updatedAt jobs.values record

theorem newerRecords_le_len (jobs : JobMap M) (record : JobRecord M) :
    newerRecords jobs record ≤ jobs.len := by
  rw [← HashMap.values_length]
  exact List.countP_le_length

/-- A record with at most `limit` records that are not older survives. -/
theorem retainRecentJobs_keeps
    (order : IterationOrder (JobRecord M))
    {jobs : JobMap M} {limit : Nat} {id : Uuid} {record : JobRecord M}
    (hkeyed : HashMap.Keyed JobRecord.id jobs)
    (hget : jobs.get id = some record)
    (hcount : newerRecords jobs record ≤ limit) :
    (retainRecentJobs order jobs limit).get id = some record := by
  have hid : record.id = id := hkeyed id record hget
  have hmem : record ∈ jobs.values :=
    (HashMap.mem_values_iff jobs record).mpr ⟨id, hget⟩
  have hpos : 0 < newerRecords jobs record :=
    List.countP_pos_iff.mpr ⟨record, hmem, by simp⟩
  unfold retainRecentJobs
  by_cases hlen : jobs.len ≤ limit
  · rw [if_pos hlen]
    exact hget
  · rw [if_neg hlen, if_neg (by omega), HashMap.get_retain, if_pos ?_]
    · exact hget
    · have hperm := order.perm jobs.values
      have hkept : record ∈ recentRecords (order.visit jobs.values) limit := by
        refine mem_recent_of_notOlder_le JobRecord.updatedAt limit
          (hperm.mem_iff.mpr hmem) ?_
        rw [notOlder_perm JobRecord.updatedAt hperm]
        exact hcount
      rw [decide_eq_true_eq, ← hid]
      exact List.mem_map_of_mem hkept

/-- An iteration order that visits `record` before everything else. -/
def IterationOrder.first [DecidableEq M] (record : JobRecord M) :
    IterationOrder (JobRecord M) where
  visit := fun values => if record ∈ values then record :: values.erase record else values
  perm := by
    intro values
    split
    · exact (List.perm_cons_erase ‹_›).symm
    · exact List.Perm.refl values

/-- With more than `limit` records that are not older, some iteration order
loses the record. -/
theorem retainRecentJobs_loses [DecidableEq M]
    {jobs : JobMap M} {limit : Nat} {id : Uuid} {record : JobRecord M}
    (hkeyed : HashMap.Keyed JobRecord.id jobs)
    (hget : jobs.get id = some record)
    (hcount : limit < newerRecords jobs record) :
    (retainRecentJobs (.first record) jobs limit).get id = none := by
  have hid : record.id = id := hkeyed id record hget
  have hmem : record ∈ jobs.values :=
    (HashMap.mem_values_iff jobs record).mpr ⟨id, hget⟩
  have hlen : ¬ jobs.len ≤ limit := by
    have hle := newerRecords_le_len jobs record
    omega
  unfold retainRecentJobs
  rw [if_neg hlen]
  by_cases hzero : limit = 0
  · rw [if_pos hzero]
    exact HashMap.get_empty id
  · rw [if_neg hzero, HashMap.get_retain, if_neg ?_]
    rw [decide_eq_true_eq, ← hid]
    intro hkept
    obtain ⟨other, hother, hsameId⟩ := List.mem_map.mp hkept
    have hvisit : IterationOrder.visit (.first record) jobs.values =
        record :: jobs.values.erase record := if_pos hmem
    rw [recentRecords, hvisit] at hother
    have hperm := List.perm_cons_erase hmem
    have hrest := recent_cons_subset_of_lt_notOlder JobRecord.updatedAt limit
      (by rw [← notOlder_perm JobRecord.updatedAt hperm]; exact hcount) other hother
    have hnodup := (hperm.map JobRecord.id).nodup_iff.mp hkeyed.nodup_values
    rw [List.map_cons, List.nodup_cons] at hnodup
    exact hnodup.1 (hsameId ▸ List.mem_map_of_mem hrest)

end Retention

section LoadJobs

/-- The two metadata files on disk; a missing file has no records. -/
structure Disk (M : Type) where
  submissions : List (JobRecord M)
  results : List (JobRecord M)

/-- One atomic change of a metadata file. -/
inductive FileOp (M : Type) where
  | appendResult (record : JobRecord M)
  | replaceSubmissions (records : List (JobRecord M))
  | replaceResults (records : List (JobRecord M))

def FileOp.apply (disk : Disk M) : FileOp M → Disk M
  | .appendResult record => { disk with results := disk.results ++ [record] }
  | .replaceSubmissions records => { disk with submissions := records }
  | .replaceResults records => { disk with results := records }

/-- The disk after some file operations. -/
def applyOps (disk : Disk M) (ops : List (FileOp M)) : Disk M :=
  ops.foldl FileOp.apply disk

/-- What one run of `load_jobs` is given: the hash table's iteration order and
the clock readings of the recovery loop. -/
structure LoadChoice (M : Type) where
  order : IterationOrder (JobRecord M)
  now : Uuid → OffsetDateTime

def restartError : String :=
  "server restarted before job reached a terminal state"

/-- The body of the recovery loop. -/
def recoverRecord (now : Uuid → OffsetDateTime) (record : JobRecord M) : JobRecord M :=
  if record.status.isUnfinished then
    record.failedWith (now record.id) restartError
  else
    record

/-- The recovered records, in the order of the loop. -/
def recoveredRecords (choice : LoadChoice M) (jobs : JobMap M) : List (JobRecord M) :=
  ((choice.order.visit jobs.values).filter (fun record => record.status.isUnfinished)).map
    (recoverRecord choice.now)

/-- `compact_metadata`: two files written beside the old ones and renamed over them. -/
def compactMetadata (cfg : Config) (order : IterationOrder (JobRecord M))
    (jobs : JobMap M) : List (FileOp M) :=
  if cfg.metadataRetentionLimit = 0 then
    []
  else
    let records := recentRecords (order.visit jobs.values) cfg.metadataRetentionLimit
    let parts := records.partition (fun record => record.status.isUnfinished)
    [.replaceSubmissions parts.1, .replaceResults parts.2]

/-- What a completed `load_jobs` did and returned. -/
structure LoadPlan (M : Type) where
  recovered : List (JobRecord M)
  ops : List (FileOp M)
  jobs : JobMap M

/-- The two reads of `load_jobs`. -/
def readMetadata (codec : RecordCodec M) (disk : Disk M) :
    Except LoadError (JobMap M) := do
  let jobs ← loadJobRecords codec .submissions (some (fileBytes codec disk.submissions)) ∅
  loadJobRecords codec .results (some (fileBytes codec disk.results)) jobs

/-- `load_jobs` behind the two reads. -/
def restoreJobs (cfg : Config) (choice : LoadChoice M) (jobs : JobMap M) : LoadPlan M :=
  let recovered := recoveredRecords choice jobs
  let jobs := jobs.mapValues (recoverRecord choice.now)
  { recovered := recovered
    ops := recovered.map FileOp.appendResult ++ compactMetadata cfg choice.order jobs
    jobs := retainRecentJobs choice.order jobs cfg.jobRetentionLimit }

/-- `load_jobs`. -/
def loadJobs (codec : RecordCodec M) (cfg : Config) (choice : LoadChoice M)
    (disk : Disk M) : Except LoadError (LoadPlan M) := do
  let jobs ← readMetadata codec disk
  pure (restoreJobs cfg choice jobs)

/-- The map behind the two reads. -/
def Disk.jobs (disk : Disk M) : JobMap M :=
  (HashMap.insertAll JobRecord.id ∅ disk.submissions).insertAll JobRecord.id disk.results

/-- Reading complete lines never fails. -/
theorem loadJobs_eq
    {codec : RecordCodec M}
    (hcodec : codec.Lawful)
    (cfg : Config) (choice : LoadChoice M) (disk : Disk M) :
    loadJobs codec cfg choice disk = .ok (restoreJobs cfg choice disk.jobs) := by
  simp only [loadJobs, readMetadata, loadJobRecords_fileBytes hcodec, bind, Except.bind,
    pure, Except.pure]
  rfl

theorem Disk.jobs_keyed (disk : Disk M) :
    HashMap.Keyed JobRecord.id disk.jobs :=
  (HashMap.Keyed.empty.insertAll disk.submissions).insertAll disk.results

@[simp] theorem recoverRecord_id (now : Uuid → OffsetDateTime) (record : JobRecord M) :
    (recoverRecord now record).id = record.id := by
  unfold recoverRecord
  split <;> rfl

/-- Recovery leaves no job unfinished. -/
theorem recoverRecord_terminal (now : Uuid → OffsetDateTime) (record : JobRecord M) :
    (recoverRecord now record).Terminal := by
  unfold recoverRecord
  by_cases h : record.status.isUnfinished = true
  · rw [if_pos h]
    exact Or.inr rfl
  · rw [if_neg h]
    exact (JobRecord.isUnfinished_eq_false_iff record).mp (by simpa using h)

theorem recoverRecord_of_terminal
    {now : Uuid → OffsetDateTime} {record : JobRecord M}
    (h : record.Terminal) :
    recoverRecord now record = record := by
  unfold recoverRecord
  rw [(JobRecord.isUnfinished_eq_false_iff record).mpr h, if_neg (by simp)]

end LoadJobs

end FlorenceServer
