import FlorenceServer.Jobs.TornLog
import FlorenceServer.Jobs.World

/-!
# Running `load_jobs` twice

The two metadata files as bytes, whatever stands in them, and what a run of
`load_jobs` leaves for the next one.  Behind a compaction the files hold
complete lines only.  Without one the recovered records stand behind what was
there before, and they are read back unless `append_jsonl` had to continue a
line that lacks its newline.

The records are cut to one limit on disk and to another one in memory.  With
distinct times of update the order of the two cuts does not matter.
-/

namespace FlorenceServer

variable {M : Type}

section Files

/-- The two metadata files; `none` is a file that does not exist. -/
structure MetadataFiles where
  submissions : Option (List UInt8)
  results : Option (List UInt8)

/-- A file operation of `load_jobs` on the bytes. -/
def FileOp.write (codec : RecordCodec M) (files : MetadataFiles) : FileOp M → MetadataFiles
  | .appendResult record =>
      { files with results := some (files.results.getD [] ++ lineBytes codec record) }
  | .replaceSubmissions records => { files with submissions := some (fileBytes codec records) }
  | .replaceResults records => { files with results := some (fileBytes codec records) }

/-- The files after some file operations. -/
def writeOps (codec : RecordCodec M) (files : MetadataFiles) (ops : List (FileOp M)) :
    MetadataFiles :=
  ops.foldl (FileOp.write codec) files

/-- The two reads of `load_jobs`. -/
def readFiles (codec : RecordCodec M) (files : MetadataFiles) :
    Except LoadError (JobMap M) := do
  let jobs ← loadJobRecords codec .submissions files.submissions ∅
  loadJobRecords codec .results files.results jobs

/-- `load_jobs`. -/
def loadFiles (codec : RecordCodec M) (cfg : Config) (choice : LoadChoice M)
    (files : MetadataFiles) : Except LoadError (LoadPlan M) := do
  let jobs ← readFiles codec files
  pure (restoreJobs cfg choice jobs)

/-- What stands behind the last newline of the results. -/
def MetadataFiles.openResult (files : MetadataFiles) : List Char :=
  openLine ((decodeUtf8 (files.results.getD [])).getD [])

/-- The files that hold the records of a disk. -/
def Disk.files (codec : RecordCodec M) (disk : Disk M) : MetadataFiles where
  submissions := some (fileBytes codec disk.submissions)
  results := some (fileBytes codec disk.results)

variable {codec : RecordCodec M}

theorem fileBytes_append (records records' : List (JobRecord M)) :
    fileBytes codec (records ++ records') =
      fileBytes codec records ++ fileBytes codec records' := by
  unfold fileBytes
  rw [List.flatMap_append, encodeUtf8_append]

theorem fileBytes_singleton (record : JobRecord M) :
    fileBytes codec [record] = lineBytes codec record := by
  unfold fileBytes lineBytes
  rw [List.flatMap_singleton]

/-- `loadFiles` is `loadJobs` on files that hold complete lines. -/
theorem loadFiles_files (cfg : Config) (choice : LoadChoice M) (disk : Disk M) :
    loadFiles codec cfg choice (disk.files codec) = loadJobs codec cfg choice disk := rfl

/-- The file operations do to the bytes what they do to the records. -/
theorem writeOps_files (disk : Disk M) (ops : List (FileOp M)) :
    writeOps codec (disk.files codec) ops = (applyOps disk ops).files codec := by
  induction ops generalizing disk with
  | nil => rfl
  | cons op ops ih =>
      have hop : op.write codec (disk.files codec) = (op.apply disk).files codec := by
        cases op with
        | appendResult record =>
            simp only [FileOp.write, FileOp.apply, Disk.files, Option.getD_some,
              fileBytes_append, fileBytes_singleton]
        | replaceSubmissions records => rfl
        | replaceResults records => rfl
      unfold writeOps applyOps at ih ⊢
      rw [List.foldl_cons, List.foldl_cons, hop]
      exact ih (op.apply disk)

theorem writeOps_append (files : MetadataFiles) (ops ops' : List (FileOp M)) :
    writeOps codec files (ops ++ ops') = writeOps codec (writeOps codec files ops) ops' :=
  List.foldl_append

/-- What `append_jsonl` leaves, record by record. -/
theorem writeOps_appendResult
    (codec : RecordCodec M) (files : MetadataFiles) (records : List (JobRecord M)) :
    (writeOps codec files (records.map .appendResult)).submissions = files.submissions ∧
      (writeOps codec files (records.map .appendResult)).results.getD [] =
        files.results.getD [] ++ fileBytes codec records := by
  induction records generalizing files with
  | nil => exact ⟨rfl, (List.append_nil _).symm⟩
  | cons record records ih =>
      obtain ⟨hsubmissions, hresults⟩ := ih (FileOp.write codec files (.appendResult record))
      refine ⟨hsubmissions, ?_⟩
      have hcons : fileBytes codec (record :: records) =
          lineBytes codec record ++ fileBytes codec records := by
        rw [← fileBytes_singleton, ← fileBytes_append, List.singleton_append]
      rw [hcons, ← List.append_assoc]
      exact hresults

end Files

section Reading

variable {codec : RecordCodec M} {path : MetadataFile}

/-- A missing file is read like an empty one. -/
theorem loadJobRecords_getD
    (contents : Option (List UInt8)) (jobs : JobMap M) :
    loadJobRecords codec path contents jobs =
      loadJobRecords codec path (some (contents.getD [])) jobs := by
  cases contents with
  | some bytes => rfl
  | none =>
      have hempty : decodeUtf8 [] = some [] := decodeUtf8_encodeUtf8 []
      simp only [loadJobRecords, Option.getD_none, hempty, lines_nil, loadLines]

theorem loadLines_append
    (ls ls' : List (List Char)) (lineNumber : Nat) (jobs : JobMap M) :
    loadLines codec path lineNumber (ls ++ ls') jobs =
      (loadLines codec path lineNumber ls jobs).bind
        (loadLines codec path (lineNumber + ls.length) ls') := by
  induction ls generalizing lineNumber jobs with
  | nil => rfl
  | cons line ls ih =>
      rw [List.cons_append, loadLines, loadLines, List.length_cons,
        Nat.add_comm ls.length, ← Nat.add_assoc]
      by_cases hblank : (trimChars line).isEmpty = true
      · rw [if_pos hblank, if_pos hblank]
        exact ih (lineNumber + 1) jobs
      · rw [if_neg hblank, if_neg hblank]
        cases codec.fromStr line with
        | none => rfl
        | some record => exact ih (lineNumber + 1) (jobs.insert record.id record)

/-- Loading keeps the map keyed. -/
theorem loadLines_keyed
    {ls : List (List Char)} {lineNumber : Nat} {jobs loaded : JobMap M}
    (hkeyed : HashMap.Keyed JobRecord.id jobs)
    (hload : loadLines codec path lineNumber ls jobs = .ok loaded) :
    HashMap.Keyed JobRecord.id loaded := by
  induction ls generalizing lineNumber jobs with
  | nil =>
      rw [loadLines, Except.ok.injEq] at hload
      exact hload ▸ hkeyed
  | cons line ls ih =>
      rw [loadLines] at hload
      by_cases hblank : (trimChars line).isEmpty = true
      · rw [if_pos hblank] at hload
        exact ih hkeyed hload
      · rw [if_neg hblank] at hload
        cases hline : codec.fromStr line with
        | none =>
            rw [hline] at hload
            cases hload
        | some record =>
            rw [hline] at hload
            exact ih (hkeyed.insert record) hload

theorem loadJobRecords_keyed
    {contents : Option (List UInt8)} {jobs loaded : JobMap M}
    (hkeyed : HashMap.Keyed JobRecord.id jobs)
    (hload : loadJobRecords codec path contents jobs = .ok loaded) :
    HashMap.Keyed JobRecord.id loaded := by
  rw [loadJobRecords_getD] at hload
  cases htext : decodeUtf8 (contents.getD []) with
  | none =>
      simp only [loadJobRecords, htext] at hload
      cases hload
  | some text =>
      simp only [loadJobRecords, htext] at hload
      exact loadLines_keyed hkeyed hload

theorem readFiles_keyed
    {files : MetadataFiles} {jobs : JobMap M}
    (hread : readFiles codec files = .ok jobs) :
    HashMap.Keyed JobRecord.id jobs := by
  unfold readFiles at hread
  obtain ⟨submitted, hsubmitted, hresults⟩ := bind_eq_ok.mp hread
  exact loadJobRecords_keyed (loadJobRecords_keyed HashMap.Keyed.empty hsubmitted) hresults

end Reading

section Appended

variable {codec : RecordCodec M} {path : MetadataFile}

/-- Whitespace in front of an object is not looked at. -/
def RecordCodec.SkipsSpace (codec : RecordCodec M) : Prop :=
  ∀ space record, (∀ c ∈ space, isJsonSpace c = true) →
    codec.fromStr (space ++ codec.toJson record) = some record

/-- JSON whitespace is whitespace. -/
theorem isWhitespace_of_isJsonSpace
    {c : Char} (h : isJsonSpace c = true) :
    isWhitespace c = true := by
  rcases JsonScan.isJsonSpace_cases h with rfl | rfl | rfl | rfl <;> rfl

/-- The first appended record continues the open line. -/
theorem lines_appended
    (hcodec : codec.Lawful)
    (text : List Char) (record : JobRecord M) (records : List (JobRecord M)) :
    lines (openLine text ++ (record :: records).flatMap (jsonLine codec)) =
      (openLine text ++ codec.toJson record) :: records.map codec.toJson := by
  have hline : '\n' ∉ openLine text ++ codec.toJson record := by
    rw [List.mem_append, not_or]
    exact ⟨newline_not_mem_openLine text, hcodec.noNewline record⟩
  have hend : (openLine text ++ codec.toJson record).getLast? ≠ some '\r' := by
    rw [List.getLast?_append, hcodec.closesObject record]
    nofun
  have hsplit : openLine text ++ (record :: records).flatMap (jsonLine codec) =
      (openLine text ++ codec.toJson record) ++ '\n' :: records.flatMap (jsonLine codec) := by
    simp [jsonLine]
  have hrecords := lines_records hcodec records []
  rw [List.append_nil, lines_nil, List.append_nil] at hrecords
  rw [hsplit, lines_terminated _ _ hline, stripCr, if_neg hend, hrecords]

/-- The file behind some appends, in terms of its text. -/
theorem load_appended
    (codec : RecordCodec M) (path : MetadataFile)
    {bytes : List UInt8} {text : List Char}
    (htext : decodeUtf8 bytes = some text)
    (records : List (JobRecord M)) (jobs : JobMap M) :
    ∃ head, text = head ++ openLine text ∧
      lines text = lines head ++ lines (openLine text) ∧
      loadJobRecords codec path (some (bytes ++ fileBytes codec records)) jobs =
        (loadLines codec path 0 (lines head) jobs).bind
          (loadLines codec path (lines head).length
            (lines (openLine text ++ records.flatMap (jsonLine codec)))) := by
  obtain ⟨head, hsplit, hlines⟩ := exists_complete_lines text
  refine ⟨head, hsplit, ?_, ?_⟩
  · rw [← hlines, ← hsplit]
  · have hwhole : bytes ++ fileBytes codec records =
        encodeUtf8 (head ++ (openLine text ++ records.flatMap (jsonLine codec))) := by
      rw [(decodeUtf8_eq_some_iff bytes text).mp htext, fileBytes, ← encodeUtf8_append,
        ← List.append_assoc, ← hsplit]
    simp only [loadJobRecords, hwhole, decodeUtf8_encodeUtf8]
    rw [hlines, loadLines_append, Nat.zero_add]

/-- Behind nothing but whitespace the appended records are read back. -/
theorem load_appended_of_space
    (hcodec : codec.Lawful)
    (hspace : codec.SkipsSpace)
    {bytes : List UInt8} {text : List Char} {jobs loaded : JobMap M}
    (htext : decodeUtf8 bytes = some text)
    (hopen : ∀ c ∈ openLine text, isJsonSpace c = true)
    (hload : loadJobRecords codec path (some bytes) jobs = .ok loaded)
    (records : List (JobRecord M)) :
    loadJobRecords codec path (some (bytes ++ fileBytes codec records)) jobs =
      .ok (loaded.insertAll JobRecord.id records) := by
  cases records with
  | nil =>
      rw [fileBytes, List.flatMap_nil, encodeUtf8_nil, List.append_nil]
      exact hload
  | cons record records =>
      obtain ⟨head, hsplit, hlines, hbehind⟩ :=
        load_appended codec path htext (record :: records) jobs
      have hblank : ∀ lineNumber (m : JobMap M),
          loadLines codec path lineNumber (lines (openLine text)) m = .ok m := by
        intro lineNumber m
        by_cases hnil : openLine text = []
        · rw [hnil, lines_nil, loadLines]
        · rw [lines_unterminated _ (newline_not_mem_openLine text) hnil, loadLines,
            if_pos ((trimChars_isEmpty_iff _).mpr
              (fun c hc => isWhitespace_of_isJsonSpace (hopen c hc))), loadLines]
      have hhead : loadLines codec path 0 (lines head) jobs = .ok loaded := by
        simp only [loadJobRecords, htext, hlines, loadLines_append] at hload
        cases hfirst : loadLines codec path 0 (lines head) jobs with
        | error err =>
            rw [hfirst] at hload
            cases hload
        | ok m =>
            rw [hfirst, Except.bind, hblank] at hload
            exact hload
      have hbrace : '{' ∈ openLine text ++ codec.toJson record :=
        List.mem_append_right _ (List.mem_of_mem_head? (hcodec.opensObject record))
      have hrest := loadLines_records hcodec path records [] ((lines head).length + 1)
        (loaded.insert record.id record)
      rw [List.append_nil, loadLines] at hrest
      rw [hbehind, hhead, lines_appended hcodec, Except.bind, loadLines, trimChars_brace hbrace,
        if_neg (by simp), hspace _ record hopen]
      exact hrest

/-- Behind anything else the first appended record is not read. -/
theorem load_appended_fails
    (hcodec : codec.Lawful)
    (hjson : codec.WritesJson)
    {bytes : List UInt8} {text : List Char}
    (htext : decodeUtf8 bytes = some text)
    (hopen : ¬ ∀ c ∈ openLine text, isJsonSpace c = true)
    {records : List (JobRecord M)} (hne : records ≠ [])
    (jobs loaded : JobMap M) :
    loadJobRecords codec path (some (bytes ++ fileBytes codec records)) jobs ≠ .ok loaded := by
  intro hload
  cases records with
  | nil => exact hne rfl
  | cons record records =>
      obtain ⟨head, -, -, hbehind⟩ :=
        load_appended codec path htext (record :: records) jobs
      rw [hbehind, lines_appended hcodec] at hload
      cases hhead : loadLines codec path 0 (lines head) jobs with
      | error err =>
          rw [hhead] at hload
          cases hload
      | ok m =>
          rw [hhead, Except.bind] at hload
          have hbrace : '{' ∈ openLine text ++ codec.toJson record :=
            List.mem_append_right _ (List.mem_of_mem_head? (hcodec.opensObject record))
          have hclosed := loaded_line_closed hjson hbrace hload
          have hstart : jsonScan (openLine text) ≠ .start :=
            fun h => hopen ((jsonScan_eq_start_iff _).mp h)
          unfold jsonScan at hclosed hstart
          rw [JsonScan.run_append] at hclosed
          exact run_glued_ne_closed hstart (hjson.accepts _ record (hcodec.decodes record))
            (hjson.idFirst record) (fun _ => rfl) List.prefix_rfl
            (hcodec.toJson_ne_nil record) hclosed

end Appended

section Selections

variable {jobs kept : JobMap M} {limit : Nat}

/-- No two records were updated at the same time. -/
def DistinctUpdates (jobs : JobMap M) : Prop :=
  (jobs.values.map JobRecord.updatedAt).Nodup

/-- `kept` holds the `limit` most recently updated records of `jobs`. -/
def MostRecentJobs (limit : Nat) (jobs kept : JobMap M) : Prop :=
  ∀ id record, kept.get id = some record ↔
    jobs.get id = some record ∧ newerRecords jobs record ≤ limit

theorem MostRecentJobs.keyed
    (h : MostRecentJobs limit jobs kept)
    (hkeyed : HashMap.Keyed JobRecord.id jobs) :
    HashMap.Keyed JobRecord.id kept := by
  intro id record hget
  exact hkeyed id record ((h id record).mp hget).1

theorem MostRecentJobs.distinct
    (h : MostRecentJobs limit jobs kept)
    (hkeyed : HashMap.Keyed JobRecord.id jobs)
    (hdistinct : DistinctUpdates jobs) :
    DistinctUpdates kept := by
  have hsub : ∀ record ∈ kept.values, record ∈ jobs.values := by
    intro record hrecord
    obtain ⟨id, hget⟩ := (HashMap.mem_values_iff kept record).mp hrecord
    exact (HashMap.mem_values_iff jobs record).mpr ⟨id, ((h id record).mp hget).1⟩
  refine List.Nodup.map_on ?_ (h.keyed hkeyed).nodup_values.of_map
  intro record hrecord record' hrecord' hsame
  exact List.inj_on_of_nodup_map hdistinct (hsub record hrecord) (hsub record' hrecord') hsame

/-- A record is as old within the selection as it was before it. -/
theorem MostRecentJobs.newerRecords_eq
    (h : MostRecentJobs limit jobs kept)
    (hkeyed : HashMap.Keyed JobRecord.id jobs)
    {record : JobRecord M}
    (hcount : newerRecords jobs record ≤ limit) :
    newerRecords kept record = newerRecords jobs record := by
  have hkept := h.keyed hkeyed
  refine notOlder_kept JobRecord.updatedAt limit hkeyed.nodup_values.of_map
    hkept.nodup_values.of_map ?_ hcount
  intro other
  rw [hkept.mem_values_iff, hkeyed.mem_values_iff]
  exact h other.id other

/-- Two selections can be made in either order. -/
theorem MostRecentJobs.swap
    {limit' : Nat} {kept' both : JobMap M}
    (hkeyed : HashMap.Keyed JobRecord.id jobs)
    (hkept : MostRecentJobs limit jobs kept)
    (hkept' : MostRecentJobs limit' jobs kept')
    (hboth : MostRecentJobs limit kept' both) :
    MostRecentJobs limit' kept both := by
  intro id record
  rw [hboth, hkept, hkept']
  constructor
  · rintro ⟨⟨hget, hlimit'⟩, hlimit⟩
    rw [hkept'.newerRecords_eq hkeyed hlimit'] at hlimit
    rw [hkept.newerRecords_eq hkeyed hlimit]
    exact ⟨⟨hget, hlimit⟩, hlimit'⟩
  · rintro ⟨⟨hget, hlimit⟩, hlimit'⟩
    rw [hkept.newerRecords_eq hkeyed hlimit] at hlimit'
    rw [hkept'.newerRecords_eq hkeyed hlimit']
    exact ⟨⟨hget, hlimit'⟩, hlimit⟩

/-- A selection depends on nothing but the entries. -/
theorem MostRecentJobs.get_eq
    {jobs' kept' : JobMap M}
    (hkeyed : HashMap.Keyed JobRecord.id jobs)
    (hsame : ∀ id, jobs'.get id = jobs.get id)
    (hkept : MostRecentJobs limit jobs kept)
    (hkept' : MostRecentJobs limit jobs' kept') (id : Uuid) :
    kept'.get id = kept.get id := by
  apply Option.ext
  intro record
  have hcount : newerRecords jobs' record = newerRecords jobs record :=
    notOlder_perm JobRecord.updatedAt (hkeyed.values_perm hsame) record
  rw [hkept', hkept, hsame, hcount]

/-- `retain_recent_jobs` keeps the most recent records, in whatever order it
iterates. -/
theorem retainRecentJobs_mostRecent
    (order : IterationOrder (JobRecord M))
    (hkeyed : HashMap.Keyed JobRecord.id jobs)
    (hdistinct : DistinctUpdates jobs) (limit : Nat) :
    MostRecentJobs limit jobs (retainRecentJobs order jobs limit) := by
  intro id record
  constructor
  · intro hget
    have hrecord : jobs.get id = some record := by
      rcases retainRecentJobs_get order jobs limit id with hsame | hnone
      · exact hsame.symm.trans hget
      · rw [hnone] at hget
        cases hget
    refine ⟨hrecord, ?_⟩
    unfold retainRecentJobs at hget
    by_cases hlen : jobs.len ≤ limit
    · exact Nat.le_trans (newerRecords_le_len jobs record) hlen
    · rw [if_neg hlen] at hget
      by_cases hzero : limit = 0
      · rw [if_pos hzero, HashMap.get_empty] at hget
        cases hget
      · rw [if_neg hzero, HashMap.get_retain] at hget
        split at hget
        case isFalse => cases hget
        case isTrue hkeep =>
            obtain ⟨other, hother, hid⟩ := List.mem_map.mp (of_decide_eq_true hkeep)
            have hperm := order.perm jobs.values
            rw [recentRecords, ← recent_eq_of_perm JobRecord.updatedAt limit hdistinct hperm.symm,
              mem_recent_iff JobRecord.updatedAt limit hdistinct, hkeyed.mem_values_iff, hid,
              hrecord, Option.some.injEq] at hother
            obtain ⟨rfl, hcount⟩ := hother
            exact hcount
  · rintro ⟨hget, hcount⟩
    exact retainRecentJobs_keeps order hkeyed hget hcount

/-- What `compact_metadata` writes are the most recent records. -/
theorem recentRecords_mostRecent
    (order : IterationOrder (JobRecord M))
    (hkeyed : HashMap.Keyed JobRecord.id jobs)
    (hdistinct : DistinctUpdates jobs) (limit : Nat) :
    MostRecentJobs limit jobs
      (HashMap.insertAll JobRecord.id ∅ (recentRecords (order.visit jobs.values) limit)) := by
  have hsame : recentRecords (order.visit jobs.values) limit = recentRecords jobs.values limit :=
    (recent_eq_of_perm JobRecord.updatedAt limit hdistinct (order.perm jobs.values).symm).symm
  have hnodup : ((recentRecords jobs.values limit).map JobRecord.id).Nodup :=
    nodup_map_recent JobRecord.updatedAt limit hkeyed.nodup_values
  intro id record
  rw [hsame, HashMap.get_insertAll_of_nodup ∅ hnodup, HashMap.get_empty, recentRecords,
    mem_recent_iff JobRecord.updatedAt limit hdistinct, hkeyed.mem_values_iff]
  constructor
  · rintro (⟨⟨hget, hcount⟩, rfl⟩ | ⟨-, hnone⟩)
    · exact ⟨hget, hcount⟩
    · cases hnone
  · rintro ⟨hget, hcount⟩
    have hid := hkeyed id record hget
    exact Or.inl ⟨⟨hid.symm ▸ hget, hcount⟩, hid⟩

end Selections

section Restart

variable {codec : RecordCodec M} {files : MetadataFiles} {jobs : JobMap M}

/-- A second run on the files that this one left appends nothing and returns this
one's map, restricted to the most recent records that compaction allows. -/
def StableRestart (codec : RecordCodec M) (cfg : Config) (files : MetadataFiles)
    (plan : LoadPlan M) : Prop :=
  ∀ choice : LoadChoice M, ∃ again : LoadPlan M,
    loadFiles codec cfg choice (writeOps codec files plan.ops) = .ok again ∧
      again.recovered = [] ∧
      (∀ record, FileOp.appendResult record ∉ again.ops) ∧
      if cfg.metadataRetentionLimit = 0 then
        ∀ id, again.jobs.get id = plan.jobs.get id
      else
        MostRecentJobs cfg.metadataRetentionLimit plan.jobs again.jobs

theorem compactMetadata_appends_nothing
    (cfg : Config) (order : IterationOrder (JobRecord M)) (jobs : JobMap M)
    (record : JobRecord M) :
    FileOp.appendResult record ∉ compactMetadata cfg order jobs := by
  unfold compactMetadata
  split <;> simp

/-- The recovery loop leaves no job unfinished. -/
theorem recovered_terminal
    (now : Uuid → OffsetDateTime) {id : Uuid} {record : JobRecord M}
    (hget : (jobs.mapValues (recoverRecord now)).get id = some record) :
    record.Terminal := by
  rw [HashMap.get_mapValues, Option.map_eq_some_iff] at hget
  obtain ⟨loaded, -, rfl⟩ := hget
  exact recoverRecord_terminal now loaded

/-- A map without unfinished jobs is only cut. -/
theorem restoreJobs_of_terminal
    (cfg : Config) (choice : LoadChoice M)
    (hterminal : ∀ id record, jobs.get id = some record → record.Terminal) :
    restoreJobs cfg choice jobs =
      { recovered := []
        ops := compactMetadata cfg choice.order jobs
        jobs := retainRecentJobs choice.order jobs cfg.jobRetentionLimit } := by
  have hrecovered : recoveredRecords choice jobs = [] := by
    unfold recoveredRecords
    rw [List.map_eq_nil_iff, List.filter_eq_nil_iff]
    intro record hrecord
    obtain ⟨id, hget⟩ := (HashMap.mem_values_iff jobs record).mp
      ((choice.order.perm jobs.values).mem_iff.mp hrecord)
    rw [(JobRecord.isUnfinished_eq_false_iff record).mpr (hterminal id record hget)]
    exact Bool.false_ne_true
  have hsame : jobs.mapValues (recoverRecord choice.now) = jobs := by
    apply AList.ext
    refine (List.map_congr_left ?_).trans (List.map_id _)
    rintro ⟨id, record⟩ hentry
    have hget := (HashMap.get_eq_some_iff jobs id record).mpr hentry
    rw [recoverRecord_of_terminal (hterminal id record hget)]
    rfl
  simp only [restoreJobs, hrecovered, hsame, List.map_nil, List.nil_append]

/-- Reading the recovered records behind the others gives the map of the
recovery loop. -/
theorem get_insertAll_recovered
    (choice : LoadChoice M)
    (hkeyed : HashMap.Keyed JobRecord.id jobs) (id : Uuid) :
    (jobs.insertAll JobRecord.id (recoveredRecords choice jobs)).get id =
      (jobs.mapValues (recoverRecord choice.now)).get id := by
  have hperm := choice.order.perm jobs.values
  have hmem : ∀ final, final ∈ recoveredRecords choice jobs ↔
      ∃ record, jobs.get record.id = some record ∧ record.status.isUnfinished = true ∧
        recoverRecord choice.now record = final := by
    intro final
    unfold recoveredRecords
    simp only [List.mem_map, List.mem_filter, hperm.mem_iff, hkeyed.mem_values_iff, and_assoc]
  have hnodup : ((recoveredRecords choice jobs).map JobRecord.id).Nodup := by
    have hids : (recoveredRecords choice jobs).map JobRecord.id =
        ((choice.order.visit jobs.values).filter
          (fun record => record.status.isUnfinished)).map JobRecord.id := by
      unfold recoveredRecords
      rw [List.map_map]
      exact List.map_congr_left (fun record _ => recoverRecord_id choice.now record)
    rw [hids]
    exact ((hperm.map JobRecord.id).nodup_iff.mpr hkeyed.nodup_values).sublist
      (List.filter_sublist.map JobRecord.id)
  apply Option.ext
  intro final
  rw [HashMap.get_insertAll_of_nodup jobs hnodup, HashMap.get_mapValues,
    Option.map_eq_some_iff, hmem]
  constructor
  · rintro (⟨⟨record, hget, -, rfl⟩, hid⟩ | ⟨hothers, hget⟩)
    · rw [recoverRecord_id] at hid
      exact ⟨record, hid ▸ hget, rfl⟩
    · have hid := hkeyed id final hget
      refine ⟨final, hget, ?_⟩
      by_cases hunfinished : final.status.isUnfinished = true
      · have hlater := hothers _ ((hmem _).mpr ⟨final, hid.symm ▸ hget, hunfinished, rfl⟩)
        rw [recoverRecord_id] at hlater
        exact absurd hid hlater
      · exact if_neg hunfinished
  · rintro ⟨record, hget, rfl⟩
    have hid := hkeyed id record hget
    by_cases hunfinished : record.status.isUnfinished = true
    · exact Or.inl ⟨⟨record, hid.symm ▸ hget, hunfinished, rfl⟩,
        (recoverRecord_id choice.now record).trans hid⟩
    · rw [recoverRecord, if_neg hunfinished]
      refine Or.inr ⟨?_, hget⟩
      intro other hother hsame
      obtain ⟨unfinished, hget', hstatus, rfl⟩ := (hmem other).mp hother
      rw [recoverRecord_id] at hsame
      rw [hsame, hget, Option.some.injEq] at hget'
      exact hunfinished (hget' ▸ hstatus)

/-- A second run that reads a map without unfinished jobs. -/
theorem stable_of_read
    {cfg : Config} {plan : LoadPlan M} (second : JobMap M)
    (hread : readFiles codec (writeOps codec files plan.ops) = .ok second)
    (hterminal : ∀ id record, second.get id = some record → record.Terminal)
    (hdistinct : DistinctUpdates second)
    (hjobs : ∀ again : JobMap M, MostRecentJobs cfg.jobRetentionLimit second again →
      if cfg.metadataRetentionLimit = 0 then
        ∀ id, again.get id = plan.jobs.get id
      else
        MostRecentJobs cfg.metadataRetentionLimit plan.jobs again) :
    StableRestart codec cfg files plan := by
  intro choice
  refine ⟨restoreJobs cfg choice second, ?_, ?_⟩
  · rw [loadFiles, hread]
    rfl
  · rw [restoreJobs_of_terminal cfg choice hterminal]
    exact ⟨rfl, compactMetadata_appends_nothing cfg choice.order second,
      hjobs _ (retainRecentJobs_mostRecent choice.order (readFiles_keyed hread) hdistinct _)⟩

/-- A compaction leaves complete lines, and no line of an unfinished job. -/
theorem writeOps_compacted
    {cfg : Config} (hlimit : cfg.metadataRetentionLimit ≠ 0)
    (choice : LoadChoice M) (files : MetadataFiles) (jobs : JobMap M) :
    writeOps codec files (restoreJobs cfg choice jobs).ops =
      Disk.files codec
        { submissions := []
          results := recentRecords
            (choice.order.visit (jobs.mapValues (recoverRecord choice.now)).values)
            cfg.metadataRetentionLimit } := by
  simp only [restoreJobs, compactMetadata, if_neg hlimit, writeOps_append]
  set recovered := jobs.mapValues (recoverRecord choice.now) with hrecovered
  set records := recentRecords (choice.order.visit recovered.values)
    cfg.metadataRetentionLimit with hrecords
  have hterminal : ∀ record ∈ records, record.status.isUnfinished = false := by
    intro record hrecord
    have hvalue := (choice.order.perm recovered.values).mem_iff.mp
      (mem_of_mem_recent JobRecord.updatedAt _ hrecord)
    obtain ⟨id, hget⟩ := (HashMap.mem_values_iff recovered record).mp hvalue
    exact (JobRecord.isUnfinished_eq_false_iff record).mpr (recovered_terminal choice.now hget)
  have hparts : records.partition (fun record => record.status.isUnfinished) =
      ([], records) := by
    rw [List.partition_eq_filter_filter, Prod.mk.injEq, List.filter_eq_nil_iff,
      List.filter_eq_self]
    refine ⟨?_, ?_⟩
    · intro record hrecord
      rw [hterminal record hrecord]
      exact Bool.false_ne_true
    · intro record hrecord
      rw [Function.comp_apply, hterminal record hrecord]
      rfl
  rw [hparts]
  rfl

/-- Behind a compaction the next run repeats this one. -/
theorem stable_of_compaction
    (hcodec : codec.Lawful)
    {cfg : Config} (hlimit : cfg.metadataRetentionLimit ≠ 0)
    (choice : LoadChoice M)
    (hkeyed : HashMap.Keyed JobRecord.id jobs)
    (hdistinct : DistinctUpdates (jobs.mapValues (recoverRecord choice.now))) :
    StableRestart codec cfg files (restoreJobs cfg choice jobs) := by
  have hrecovered := hkeyed.mapValues (recoverRecord_id choice.now)
  have hcompacted := recentRecords_mostRecent choice.order hrecovered hdistinct
    cfg.metadataRetentionLimit
  refine stable_of_read _ ?_ ?_ (hcompacted.distinct hrecovered hdistinct) ?_
  · rw [writeOps_compacted hlimit]
    simp only [readFiles, Disk.files, loadJobRecords_fileBytes hcodec, bind, Except.bind]
    rfl
  · intro id record hget
    exact recovered_terminal choice.now ((hcompacted id record).mp hget).1
  · intro again hagain
    rw [if_neg hlimit]
    exact (retainRecentJobs_mostRecent choice.order hrecovered hdistinct _).swap hrecovered
      hcompacted hagain

/-- What the appends of a run without compaction leave. -/
theorem readFiles_appended
    (hread : readFiles codec files = .ok jobs)
    (records : List (JobRecord M)) :
    ∃ submitted text, decodeUtf8 (files.results.getD []) = some text ∧
      files.openResult = openLine text ∧
      loadJobRecords codec .results (some (files.results.getD [])) submitted = .ok jobs ∧
      readFiles codec (writeOps codec files (records.map .appendResult)) =
        loadJobRecords codec .results
          (some (files.results.getD [] ++ fileBytes codec records)) submitted := by
  obtain ⟨submitted, hsubmitted, hresults⟩ := bind_eq_ok.mp hread
  rw [loadJobRecords_getD] at hresults
  obtain ⟨hsame, happended⟩ := writeOps_appendResult codec files records
  cases htext : decodeUtf8 (files.results.getD []) with
  | none =>
      simp only [loadJobRecords, htext] at hresults
      cases hresults
  | some text =>
      refine ⟨submitted, text, rfl, ?_, hresults, ?_⟩
      · rw [MetadataFiles.openResult, htext, Option.getD_some]
      · simp only [readFiles, hsame, hsubmitted, bind, Except.bind]
        rw [loadJobRecords_getD, happended]

/-- Without a compaction the next run repeats this one as soon as it can read the
appended records. -/
theorem stable_of_appends
    {cfg : Config} (hlimit : cfg.metadataRetentionLimit = 0)
    {choice : LoadChoice M}
    (hkeyed : HashMap.Keyed JobRecord.id jobs)
    (hdistinct : DistinctUpdates (jobs.mapValues (recoverRecord choice.now)))
    (hread : readFiles codec
        (writeOps codec files ((recoveredRecords choice jobs).map .appendResult)) =
      .ok (jobs.insertAll JobRecord.id (recoveredRecords choice jobs))) :
    StableRestart codec cfg files (restoreJobs cfg choice jobs) := by
  have hsame := get_insertAll_recovered choice hkeyed
  have hrecovered := hkeyed.mapValues (recoverRecord_id choice.now)
  have hops : (restoreJobs cfg choice jobs).ops =
      (recoveredRecords choice jobs).map .appendResult := by
    simp only [restoreJobs, compactMetadata, if_pos hlimit, List.append_nil]
  refine stable_of_read (jobs.insertAll JobRecord.id (recoveredRecords choice jobs))
    ?_ ?_ ?_ ?_
  · rw [hops]
    exact hread
  · intro id record hget
    rw [hsame] at hget
    exact recovered_terminal choice.now hget
  · exact ((hrecovered.values_perm hsame).map JobRecord.updatedAt).nodup_iff.mpr hdistinct
  · intro again hagain
    rw [if_pos hlimit]
    exact (retainRecentJobs_mostRecent choice.order hrecovered hdistinct _).get_eq hrecovered
      hsame hagain

/-- A recovered record that continues a cut line cannot be read back. -/
theorem restart_fails_of_cut
    (hcodec : codec.Lawful)
    (hjson : codec.WritesJson)
    {cfg : Config} (hlimit : cfg.metadataRetentionLimit = 0)
    {choice : LoadChoice M}
    (hread : readFiles codec files = .ok jobs)
    (hrecovered : recoveredRecords choice jobs ≠ [])
    (hcut : ¬ ∀ c ∈ files.openResult, isJsonSpace c = true)
    (choice' : LoadChoice M) (again : LoadPlan M) :
    loadFiles codec cfg choice' (writeOps codec files (restoreJobs cfg choice jobs).ops) ≠
      .ok again := by
  intro hload
  obtain ⟨second, hsecond, -⟩ := bind_eq_ok.mp hload
  obtain ⟨submitted, text, htext, hopen, -, hagain⟩ :=
    readFiles_appended hread (recoveredRecords choice jobs)
  simp only [restoreJobs, compactMetadata, if_pos hlimit, List.append_nil] at hsecond
  rw [hagain] at hsecond
  rw [hopen] at hcut
  exact load_appended_fails hcodec hjson htext hcut hrecovered submitted second hsecond

/-- A restart is stable unless it has to append a recovered record to a line that
was cut off. -/
theorem restart_is_stable_iff
    (hcodec : codec.Lawful)
    (hjson : codec.WritesJson)
    (hspace : codec.SkipsSpace)
    (cfg : Config) (choice : LoadChoice M)
    {files : MetadataFiles} {jobs : JobMap M}
    (hread : readFiles codec files = .ok jobs)
    (hdistinct : DistinctUpdates (jobs.mapValues (recoverRecord choice.now))) :
    StableRestart codec cfg files (restoreJobs cfg choice jobs) ↔
      cfg.metadataRetentionLimit ≠ 0 ∨
        (∀ record ∈ jobs.values, record.Terminal) ∨
        ∀ c ∈ files.openResult, isJsonSpace c = true := by
  have hkeyed := readFiles_keyed hread
  have hfinished : recoveredRecords choice jobs = [] ↔
      ∀ record ∈ jobs.values, record.Terminal := by
    unfold recoveredRecords
    rw [List.map_eq_nil_iff, List.filter_eq_nil_iff]
    simp only [(choice.order.perm jobs.values).mem_iff, Bool.not_eq_true,
      JobRecord.isUnfinished_eq_false_iff]
  by_cases hlimit : cfg.metadataRetentionLimit = 0
  · constructor
    · intro hstable
      refine Or.inr (or_iff_not_imp_right.mpr fun hcut => ?_)
      rw [← hfinished]
      by_contra hne
      obtain ⟨again, hload, -⟩ := hstable choice
      exact restart_fails_of_cut hcodec hjson hlimit hread hne hcut choice again hload
    · rintro (hkept | hterminal | hblank)
      · exact absurd hlimit hkept
      · refine stable_of_appends hlimit hkeyed hdistinct ?_
        rw [hfinished.mpr hterminal]
        exact hread
      · obtain ⟨submitted, text, htext, hopen, hresults, hagain⟩ :=
          readFiles_appended hread (recoveredRecords choice jobs)
        refine stable_of_appends hlimit hkeyed hdistinct ?_
        rw [hopen] at hblank
        rw [hagain]
        exact load_appended_of_space hcodec hspace htext hblank hresults _
  · constructor
    · intro _
      exact Or.inl hlimit
    · intro _
      exact stable_of_compaction hcodec hlimit choice hkeyed hdistinct

end Restart

section Sample

/-- The codec that skips whitespace in front of a record. -/
def RecordCodec.skippingSpace (codec : RecordCodec M) : RecordCodec M where
  toJson := codec.toJson
  fromStr := fun line => codec.fromStr (line.dropWhile isJsonSpace)

variable {codec : RecordCodec M}

/-- Only the space is skipped. -/
theorem dropWhile_space
    (hcodec : codec.Lawful)
    {space : List Char} (hspace : ∀ c ∈ space, isJsonSpace c = true) (record : JobRecord M) :
    (space ++ codec.toJson record).dropWhile isJsonSpace = codec.toJson record := by
  obtain ⟨rest, hrest⟩ := List.head?_eq_some_iff.mp (hcodec.opensObject record)
  rw [List.dropWhile_append_of_pos hspace, hrest]
  rfl

theorem RecordCodec.Lawful.skipsSpace
    (hcodec : codec.Lawful) :
    codec.skippingSpace.SkipsSpace := by
  intro space record hspace
  change codec.fromStr ((space ++ codec.toJson record).dropWhile isJsonSpace) = some record
  rw [dropWhile_space hcodec hspace, hcodec.decodes]

theorem RecordCodec.Lawful.skippingSpace
    (hcodec : codec.Lawful) :
    codec.skippingSpace.Lawful where
  decodes := fun record => hcodec.skipsSpace [] record (List.forall_mem_nil _)
  noNewline := hcodec.noNewline
  opensObject := hcodec.opensObject
  closesObject := hcodec.closesObject

theorem RecordCodec.WritesJson.skippingSpace
    (hjson : codec.WritesJson) :
    codec.skippingSpace.WritesJson where
  accepts := by
    intro line record hread
    have hclosed := hjson.accepts (line.dropWhile isJsonSpace) record hread
    have hspace := (jsonScan_eq_start_iff (line.takeWhile isJsonSpace)).mpr
      (fun c hc => List.mem_takeWhile_imp hc)
    rw [← List.takeWhile_append_dropWhile (p := isJsonSpace) (l := line)]
    unfold jsonScan at hspace hclosed ⊢
    rw [JsonScan.run_append, hspace, hclosed]
  idFirst := hjson.idFirst

/-- A job that a restart finds queued. -/
def interrupted : JobRecord String :=
  sampleRecord 2 5 none

theorem interrupted_texts_differ :
    textsDiffer [timedOut 1 8, interrupted, interrupted.failedWith 9 restartError] = true := by
  decide +kernel

/-- The result of one job lacks its newline; another job is still queued. -/
def cutFiles (codec : RecordCodec String) : MetadataFiles where
  submissions := some (fileBytes codec [interrupted])
  results := some (encodeUtf8 (codec.toJson (timedOut 1 8)))

def cutJobs : JobMap String :=
  (HashMap.insertAll JobRecord.id ∅ [interrupted]).insert 1 (timedOut 1 8)

theorem readFiles_cutFiles
    {codec : RecordCodec String} (hcodec : codec.Lawful) :
    readFiles codec (cutFiles codec) = .ok cutJobs := by
  have hsubmitted : loadJobRecords codec .submissions (cutFiles codec).submissions ∅ =
      .ok (HashMap.insertAll JobRecord.id ∅ [interrupted]) :=
    loadJobRecords_fileBytes hcodec .submissions [interrupted] ∅
  refine bind_eq_ok.mpr ⟨_, hsubmitted, ?_⟩
  simp only [cutFiles, loadJobRecords, decodeUtf8_encodeUtf8,
    lines_unterminated _ (hcodec.noNewline _) (hcodec.toJson_ne_nil _), loadLines,
    trimChars_object (hcodec.opensObject _), hcodec.decodes]
  rfl

theorem cutJobs_distinct :
    DistinctUpdates (cutJobs.mapValues (recoverRecord (sampleChoice 9).now)) := by
  unfold DistinctUpdates
  decide +kernel

/-- A restart with compaction, on these files. -/
theorem restart_is_stable_iff_sample :
    let codec := (textCodec
      [timedOut 1 8, interrupted, interrupted.failedWith 9 restartError]).skippingSpace
    StableRestart codec Config.default (cutFiles codec)
      (restoreJobs Config.default (sampleChoice 9) cutJobs) := by
  intro codec
  have hlawful := textCodec_lawful interrupted_texts_differ
  have hjson := textCodec_writesJson interrupted_texts_differ
  exact (restart_is_stable_iff hlawful.skippingSpace hjson.skippingSpace hlawful.skipsSpace
    Config.default (sampleChoice 9) (readFiles_cutFiles hlawful.skippingSpace)
    cutJobs_distinct).mpr (Or.inl (by decide))

/-- Without compaction the first restart succeeds and no later one does. -/
theorem second_restart_fails :
    let codec := (textCodec
      [timedOut 1 8, interrupted, interrupted.failedWith 9 restartError]).skippingSpace
    let cfg := { Config.default with metadataRetentionLimit := 0 }
    let plan := restoreJobs cfg (sampleChoice 9) cutJobs
    codec.Lawful ∧ codec.WritesJson ∧ codec.SkipsSpace ∧
      loadFiles codec cfg (sampleChoice 9) (cutFiles codec) = .ok plan ∧
      DistinctUpdates (cutJobs.mapValues (recoverRecord (sampleChoice 9).now)) ∧
      (∀ choice again,
        loadFiles codec cfg choice (writeOps codec (cutFiles codec) plan.ops) ≠ .ok again) ∧
      ¬ StableRestart codec cfg (cutFiles codec) plan := by
  intro codec cfg plan
  have hlawful := textCodec_lawful interrupted_texts_differ
  have hcodec : codec.Lawful := hlawful.skippingSpace
  have hjson : codec.WritesJson := (textCodec_writesJson interrupted_texts_differ).skippingSpace
  have hread := readFiles_cutFiles hcodec
  have hrecovered : recoveredRecords (sampleChoice 9) cutJobs ≠ [] := by
    decide +kernel
  have hcut : ¬ ∀ c ∈ (cutFiles codec).openResult, isJsonSpace c = true := by
    intro hspace
    have hline : (cutFiles codec).openResult = codec.toJson (timedOut 1 8) := by
      simp only [MetadataFiles.openResult, cutFiles, Option.getD_some, decodeUtf8_encodeUtf8]
      exact openLine_of_not_mem (hcodec.noNewline _)
    rw [hline] at hspace
    have hbrace := hspace '{' (List.mem_of_mem_head? (hcodec.opensObject _))
    revert hbrace
    decide
  have hfails : ∀ choice again,
      loadFiles codec cfg choice (writeOps codec (cutFiles codec) plan.ops) ≠ .ok again :=
    restart_fails_of_cut hcodec hjson rfl hread hrecovered hcut
  refine ⟨hcodec, hjson, hlawful.skipsSpace, ?_, cutJobs_distinct, hfails, ?_⟩
  · rw [loadFiles, hread]
    rfl
  · intro hstable
    obtain ⟨again, hload, -⟩ := hstable (sampleChoice 9)
    exact hfails (sampleChoice 9) again hload

end Sample
end FlorenceServer
