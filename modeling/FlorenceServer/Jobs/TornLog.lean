import FlorenceServer.Jobs.RecordText

/-!
# Appends that fail in the middle of a line

`append_jsonl` byte by byte.  A call that fails, or whose process dies, has
written any proper part of its line, and the next call goes on behind it.
`load_job_records` takes what is glued together for one line.

The log survives exactly when no call left a part of a line behind, with one
exception: everything but the newline of the last line that was written.
-/

namespace FlorenceServer

variable {M : Type}

section ByteLog

/-- What `write_all` is given. -/
def lineBytes (codec : RecordCodec M) (record : JobRecord M) : List UInt8 :=
  encodeUtf8 (jsonLine codec record)

/-- One `append_jsonl` call on a metadata file. -/
inductive ByteAppend (codec : RecordCodec M) where
  | ok (record : JobRecord M)
  /-- the call failed, or the process died, behind these bytes of the line -/
  | failed (record : JobRecord M) (written : Fin (lineBytes codec record).length)

namespace ByteAppend

variable {codec : RecordCodec M}

/-- The bytes that reach the file. -/
def bytes : ByteAppend codec → List UInt8
  | .ok record => lineBytes codec record
  | .failed record written => (lineBytes codec record).take written

/-- The record of a call that returned `Ok`. -/
def okRecord : ByteAppend codec → Option (JobRecord M)
  | .ok record => some record
  | .failed _ _ => none

/-- The call left a part of its line behind. -/
def Torn : ByteAppend codec → Prop
  | .ok _ => False
  | .failed _ written => written.val ≠ 0

end ByteAppend

variable {codec : RecordCodec M}

/-- The file after these calls. -/
def logBytes (appends : List (ByteAppend codec)) : List UInt8 :=
  appends.flatMap ByteAppend.bytes

def okRecords (appends : List (ByteAppend codec)) : List (JobRecord M) :=
  appends.filterMap ByteAppend.okRecord

/-- The last record with this id whose call returned `Ok`. -/
def lastOk (appends : List (ByteAppend codec)) (id : Uuid) : Option (JobRecord M) :=
  ((okRecords appends).filter (fun record => decide (record.id = id))).getLast?

/-- A later `load_job_records` succeeds and reflects every call that returned `Ok`. -/
def SurvivesFailedAppends (path : MetadataFile)
    (appends : List (ByteAppend codec)) (jobs : JobMap M) : Prop :=
  ∃ loaded, loadJobRecords codec path (some (logBytes appends)) jobs = .ok loaded ∧
    ∀ id record, lastOk appends id = some record → loaded.get id = some record

/-- A call that left a part of its line behind has written all but the newline,
no byte was written after it, and an `Ok` call for the same id, if there was
one, was last made with the same record. -/
def OnlyNewlineMissing (appends : List (ByteAppend codec)) : Prop :=
  ∀ before record written after, appends = before ++ .failed record written :: after →
    written.val ≠ 0 →
      written.val + 1 = (lineBytes codec record).length ∧
        logBytes after = [] ∧
        ∀ earlier, lastOk before record.id = some earlier → earlier = record

/-- What the job code relies on when lines are cut off: the codec reads nothing
but JSON and writes the fields of a record in the order of their declaration. -/
structure RecordCodec.WritesJson (codec : RecordCodec M) : Prop where
  accepts : ∀ line record, codec.fromStr line = some record → jsonScan line = .closed
  idFirst : ∀ record, OpensWithKey 'i' (codec.toJson record)

end ByteLog

section Pieces

variable {codec : RecordCodec M}

@[simp] theorem logBytes_cons (append : ByteAppend codec) (rest : List (ByteAppend codec)) :
    logBytes (append :: rest) = append.bytes ++ logBytes rest := rfl

@[simp] theorem logBytes_append (before after : List (ByteAppend codec)) :
    logBytes (before ++ after) = logBytes before ++ logBytes after :=
  List.flatMap_append

@[simp] theorem okRecords_append (before after : List (ByteAppend codec)) :
    okRecords (before ++ after) = okRecords before ++ okRecords after :=
  List.filterMap_append

theorem lineBytes_eq (codec : RecordCodec M) (record : JobRecord M) :
    lineBytes codec record = encodeUtf8 (codec.toJson record) ++ encodeUtf8 ['\n'] :=
  encodeUtf8_append _ _

theorem lineBytes_length (codec : RecordCodec M) (record : JobRecord M) :
    (lineBytes codec record).length = (encodeUtf8 (codec.toJson record)).length + 1 := by
  rw [lineBytes_eq, List.length_append]
  rfl

/-- The line without its newline. -/
theorem take_lineBytes
    {record : JobRecord M} {written : Nat}
    (h : written + 1 = (lineBytes codec record).length) :
    (lineBytes codec record).take written = encodeUtf8 (codec.toJson record) := by
  rw [lineBytes_length] at h
  rw [lineBytes_eq]
  exact List.take_left' (by omega)

/-- A call that wrote nothing was not `Ok`. -/
theorem okRecords_eq_nil
    {appends : List (ByteAppend codec)}
    (h : logBytes appends = []) :
    okRecords appends = [] := by
  induction appends with
  | nil => rfl
  | cons append rest ih =>
      rw [logBytes_cons, List.append_eq_nil_iff] at h
      cases append with
      | ok record =>
          have hlength := congrArg List.length h.1
          rw [ByteAppend.bytes, lineBytes_length, List.length_nil] at hlength
          omega
      | failed record written => exact ih h.2

/-- Every call starts with a new character. -/
theorem logBytes_startsCharacter (appends : List (ByteAppend codec)) :
    StartsCharacter (logBytes appends) := by
  induction appends with
  | nil => exact startsCharacter_nil
  | cons append rest ih =>
      cases append with
      | ok record =>
          have hall := startsCharacter_take (jsonLine codec record)
            (lineBytes codec record).length (logBytes rest) ih
          rw [← lineBytes, List.take_length] at hall
          exact hall
      | failed record written =>
          exact startsCharacter_take (jsonLine codec record) written.val (logBytes rest) ih

/-- A part of a line that is text is a part of the record's JSON. -/
theorem written_cut
    {record : JobRecord M} {written : Fin (lineBytes codec record).length}
    {after : List (ByteAppend codec)} {text : List Char}
    (h : encodeUtf8 text = (lineBytes codec record).take written.val ++ logBytes after) :
    ∃ cut, cut <+: codec.toJson record ∧
      encodeUtf8 cut = (lineBytes codec record).take written.val := by
  obtain ⟨cut, hcut, hbytes⟩ := encodeUtf8_take_append (logBytes_startsCharacter after) h
  refine ⟨cut, ?_, hbytes⟩
  rcases List.prefix_concat_iff.mp hcut with rfl | hjson
  · have hlt : written.val < (encodeUtf8 (jsonLine codec record)).length := written.isLt
    have hlength := congrArg List.length hbytes
    rw [List.length_take, Nat.min_eq_left (Nat.le_of_lt hlt)] at hlength
    exact absurd hlength (Nat.ne_of_gt hlt)
  · exact hjson

/-- The first call that left a part of its line behind. -/
theorem first_torn (appends : List (ByteAppend codec)) :
    (∀ append ∈ appends, ¬ append.Torn) ∨
      ∃ before record written after,
        appends = before ++ .failed record written :: after ∧
          (∀ append ∈ before, ¬ append.Torn) ∧ written.val ≠ 0 := by
  induction appends with
  | nil => exact Or.inl (List.forall_mem_nil _)
  | cons append rest ih =>
      by_cases htorn : append.Torn
      · cases append with
        | ok record => exact absurd htorn id
        | failed record written =>
            exact Or.inr ⟨[], record, written, rest, rfl, List.forall_mem_nil _, htorn⟩
      · rcases ih with hclean | ⟨before, record, written, after, rfl, hbefore, hwritten⟩
        · exact Or.inl (List.forall_mem_cons.mpr ⟨htorn, hclean⟩)
        · exact Or.inr ⟨append :: before, record, written, after, rfl,
            List.forall_mem_cons.mpr ⟨htorn, hbefore⟩, hwritten⟩

/-- Without parts of lines the file holds the records of the `Ok` calls. -/
theorem logBytes_clean
    {appends : List (ByteAppend codec)}
    (hclean : ∀ append ∈ appends, ¬ append.Torn) :
    logBytes appends = fileBytes codec (okRecords appends) := by
  induction appends with
  | nil => rfl
  | cons append rest ih =>
      obtain ⟨hhead, htail⟩ := List.forall_mem_cons.mp hclean
      rw [logBytes_cons, ih htail]
      cases append with
      | ok record => exact (encodeUtf8_append _ _).symm
      | failed record written =>
          have hzero : written.val = 0 := Decidable.not_not.mp hhead
          rw [ByteAppend.bytes, hzero, List.take_zero]
          rfl

end Pieces

section Loading

variable {codec : RecordCodec M}

/-- Nothing glued to a part that was cut off completes it. -/
theorem glued_not_closed
    (hcodec : codec.Lawful)
    (hjson : codec.WritesJson)
    {pending part : List Char} {record : JobRecord M}
    (hopen : pending.head? = some '{')
    (hpart : part <+: codec.toJson record)
    (hne : part ≠ []) :
    jsonScan (pending ++ part) ≠ .closed := by
  obtain ⟨rest, rfl⟩ := List.head?_eq_some_iff.mp hopen
  unfold jsonScan
  rw [JsonScan.run_append]
  refine run_glued_ne_closed ?_ (hjson.accepts _ record (hcodec.decodes record))
    (hjson.idFirst record) (fun _ => rfl) hpart hne
  exact JsonScan.run_ne_start (by nofun) rest

/-- A line that was loaded is complete. -/
theorem loaded_line_closed
    (hjson : codec.WritesJson)
    {path : MetadataFile} {lineNumber : Nat} {jobs loaded : JobMap M}
    {line : List Char} {rest : List (List Char)}
    (hbrace : '{' ∈ line)
    (hload : loadLines codec path lineNumber (line :: rest) jobs = .ok loaded) :
    jsonScan line = .closed := by
  rw [loadLines, trimChars_brace hbrace, if_neg (by simp)] at hload
  cases hline : codec.fromStr line with
  | none =>
      rw [hline] at hload
      cases hload
  | some record => exact hjson.accepts line record hline

/-- Behind a part of a line nothing can be written without spoiling the file. -/
theorem torn_line_is_last
    (hcodec : codec.Lawful)
    (hjson : codec.WritesJson)
    {path : MetadataFile} {lineNumber : Nat} {jobs loaded : JobMap M}
    (after : List (ByteAppend codec))
    {pending text : List Char}
    (hopen : pending.head? = some '{')
    (hnewline : '\n' ∉ pending)
    (htext : encodeUtf8 text = encodeUtf8 pending ++ logBytes after)
    (hload : loadLines codec path lineNumber (lines text) jobs = .ok loaded) :
    logBytes after = [] ∧ jsonScan pending = .closed := by
  induction after generalizing pending with
  | nil =>
      obtain ⟨remaining, rfl, hremaining⟩ := encodeUtf8_append_left htext
      rw [(encodeUtf8_eq_nil_iff remaining).mp hremaining, List.append_nil] at hload
      have hne : pending ≠ [] := by
        rintro rfl
        cases hopen
      rw [lines_unterminated pending hnewline hne] at hload
      exact ⟨rfl, loaded_line_closed hjson (List.mem_of_mem_head? hopen) hload⟩
  | cons append after ih =>
      obtain ⟨remaining, rfl, hremaining⟩ := encodeUtf8_append_left htext
      cases append with
      | ok record =>
          exfalso
          rw [logBytes_cons, ByteAppend.bytes] at hremaining
          obtain ⟨behind, rfl, -⟩ := encodeUtf8_append_left hremaining
          have hline : '\n' ∉ pending ++ codec.toJson record := by
            rw [List.mem_append, not_or]
            exact ⟨hnewline, hcodec.noNewline record⟩
          have hend : (pending ++ codec.toJson record).getLast? ≠ some '\r' := by
            rw [List.getLast?_append, hcodec.closesObject record]
            nofun
          have hsplit : pending ++ (jsonLine codec record ++ behind) =
              (pending ++ codec.toJson record) ++ '\n' :: behind := by
            simp [jsonLine]
          rw [hsplit, lines_terminated _ _ hline, stripCr, if_neg hend] at hload
          refine glued_not_closed hcodec hjson hopen List.prefix_rfl
            (hcodec.toJson_ne_nil record) (loaded_line_closed hjson ?_ hload)
          exact List.mem_append_left _ (List.mem_of_mem_head? hopen)
      | failed record written =>
          rw [logBytes_cons, ByteAppend.bytes] at hremaining htext ⊢
          obtain ⟨cut, hcut, hbytes⟩ := written_cut hremaining
          rw [← hbytes] at htext ⊢
          by_cases hnil : cut = []
          · subst hnil
            exact ih hopen hnewline htext
          · rw [← List.append_assoc, ← encodeUtf8_append] at htext
            have hlongerOpen : (pending ++ cut).head? = some '{' := by
              rw [List.head?_append, hopen]
              rfl
            have hlongerLine : '\n' ∉ pending ++ cut := by
              rw [List.mem_append, not_or]
              exact ⟨hnewline, fun hmem => hcodec.noNewline record (hcut.subset hmem)⟩
            have hlonger := ih hlongerOpen hlongerLine htext
            exact absurd hlonger.2 (glued_not_closed hcodec hjson hopen hcut hnil)

/-- A line that lacks nothing but its newline is read as if it were complete. -/
theorem load_without_newline
    (hcodec : codec.Lawful)
    (path : MetadataFile) (jobs : JobMap M)
    {before after : List (ByteAppend codec)}
    {record : JobRecord M} {written : Fin (lineBytes codec record).length}
    (hclean : ∀ append ∈ before, ¬ append.Torn)
    (hwritten : written.val + 1 = (lineBytes codec record).length)
    (hafter : logBytes after = []) :
    loadJobRecords codec path
        (some (logBytes (before ++ .failed record written :: after))) jobs =
      .ok ((jobs.insertAll JobRecord.id (okRecords before)).insert record.id record) := by
  rw [logBytes_append, logBytes_clean hclean, logBytes_cons, hafter, List.append_nil,
    ByteAppend.bytes, take_lineBytes hwritten, loadJobRecords_append hcodec,
    decodeUtf8_encodeUtf8]
  simp only [lines_unterminated _ (hcodec.noNewline record) (hcodec.toJson_ne_nil record),
    loadLines,
    trimChars_object (hcodec.opensObject record), hcodec.decodes]
  rfl

/-- The first torn line of a file that loads: what it is and what follows it. -/
theorem torn_line_of_load
    (hcodec : codec.Lawful)
    (hjson : codec.WritesJson)
    {path : MetadataFile} {jobs loaded : JobMap M}
    {before after : List (ByteAppend codec)}
    {record : JobRecord M} {written : Fin (lineBytes codec record).length}
    (hclean : ∀ append ∈ before, ¬ append.Torn)
    (hne : written.val ≠ 0)
    (hload : loadJobRecords codec path
      (some (logBytes (before ++ .failed record written :: after))) jobs = .ok loaded) :
    written.val + 1 = (lineBytes codec record).length ∧ logBytes after = [] := by
  rw [logBytes_append, logBytes_clean hclean, logBytes_cons, ByteAppend.bytes,
    loadJobRecords_append hcodec] at hload
  cases hdecode : decodeUtf8 ((lineBytes codec record).take written.val ++ logBytes after) with
  | none =>
      rw [hdecode] at hload
      cases hload
  | some text =>
      simp only [hdecode] at hload
      have htext := ((decodeUtf8_eq_some_iff _ text).mp hdecode).symm
      obtain ⟨cut, hcut, hbytes⟩ := written_cut htext
      have hlength := congrArg List.length hbytes
      rw [List.length_take, Nat.min_eq_left (Nat.le_of_lt written.isLt)] at hlength
      have hopen : cut.head? = some '{' := by
        cases cut with
        | nil => exact absurd hlength.symm hne
        | cons c cut =>
            obtain ⟨rest, hrest⟩ := hcut
            have hbrace := hcodec.opensObject record
            rw [← hrest] at hbrace
            exact hbrace
      rw [← hbytes] at htext
      obtain ⟨hafter, hclosed⟩ := torn_line_is_last hcodec hjson after hopen
        (fun hmem => hcodec.noNewline record (hcut.subset hmem)) htext hload
      have hwhole := eq_of_prefix_closed
        (hjson.accepts _ record (hcodec.decodes record)) (hcodec.closesObject record) hcut
        hclosed
      rw [hwhole] at hlength
      have hline := lineBytes_length codec record
      exact ⟨by omega, hafter⟩

end Loading

section Survival

variable {codec : RecordCodec M}

theorem get_okRecords
    (appends : List (ByteAppend codec)) (jobs : JobMap M) {id : Uuid} {record : JobRecord M}
    (h : lastOk appends id = some record) :
    (jobs.insertAll JobRecord.id (okRecords appends)).get id = some record := by
  unfold lastOk at h
  rw [HashMap.get_insertAll, h, Option.some_or]

/-- Calls behind which nothing was written do not count. -/
theorem lastOk_before
    {before after : List (ByteAppend codec)}
    {record : JobRecord M} {written : Fin (lineBytes codec record).length}
    (hafter : logBytes after = []) (id : Uuid) :
    lastOk (before ++ .failed record written :: after) id = lastOk before id := by
  have hskip : okRecords (.failed record written :: after) = okRecords after := rfl
  unfold lastOk
  rw [okRecords_append, hskip, okRecords_eq_nil hafter, List.append_nil]

/-- A log whose lines lack at most the last newline survives. -/
theorem survives_of_onlyNewlineMissing
    (hcodec : codec.Lawful)
    (path : MetadataFile)
    {appends : List (ByteAppend codec)} (jobs : JobMap M)
    (h : OnlyNewlineMissing appends) :
    SurvivesFailedAppends path appends jobs := by
  rcases first_torn appends with hclean | ⟨before, torn, written, after, rfl, hclean, hne⟩
  · refine ⟨_, ?_, fun id record hlast => get_okRecords appends jobs hlast⟩
    rw [logBytes_clean hclean]
    exact loadJobRecords_fileBytes hcodec path (okRecords appends) jobs
  · obtain ⟨hwritten, hafter, hsame⟩ := h before torn written after rfl hne
    refine ⟨_, load_without_newline hcodec path jobs hclean hwritten hafter, ?_⟩
    intro id record hlast
    rw [lastOk_before hafter] at hlast
    by_cases hid : torn.id = id
    · subst hid
      rw [HashMap.get_insert_self, hsame record hlast]
    · rw [HashMap.get_insert_of_ne _ _ (Ne.symm hid)]
      exact get_okRecords before jobs hlast

/-- A log that survives has no other torn line than a last one without newline. -/
theorem onlyNewlineMissing_of_survives
    (hcodec : codec.Lawful)
    (hjson : codec.WritesJson)
    {path : MetadataFile}
    {appends : List (ByteAppend codec)} {jobs : JobMap M}
    (h : SurvivesFailedAppends path appends jobs) :
    OnlyNewlineMissing appends := by
  obtain ⟨loaded, hload, hreflects⟩ := h
  rintro before torn written after rfl hne
  rcases first_torn before with hclean | ⟨earlier, first, count, between, rfl, hclean, hfirst⟩
  · obtain ⟨hwritten, hafter⟩ := torn_line_of_load hcodec hjson hclean hne hload
    refine ⟨hwritten, hafter, ?_⟩
    intro record hlast
    rw [load_without_newline hcodec path jobs hclean hwritten hafter, Except.ok.injEq] at hload
    have hget := hreflects torn.id record (by rw [lastOk_before hafter, hlast])
    rw [← hload, HashMap.get_insert_self, Option.some.injEq] at hget
    exact hget.symm
  · -- behind the first torn line this one would have written nothing
    exfalso
    rw [List.append_assoc, List.cons_append] at hload
    have hnothing := (torn_line_of_load hcodec hjson hclean hfirst hload).2
    rw [logBytes_append, logBytes_cons, List.append_eq_nil_iff, List.append_eq_nil_iff] at hnothing
    have hlength := congrArg List.length hnothing.2.1
    rw [ByteAppend.bytes, List.length_take, Nat.min_eq_left (Nat.le_of_lt written.isLt)] at hlength
    exact hne hlength

/-- A log with failed appends survives if and only if at most the last newline
is missing. -/
theorem log_survives_iff
    (hcodec : codec.Lawful)
    (hjson : codec.WritesJson)
    (path : MetadataFile)
    (appends : List (ByteAppend codec)) (jobs : JobMap M) :
    SurvivesFailedAppends path appends jobs ↔ OnlyNewlineMissing appends := by
  constructor
  · exact onlyNewlineMissing_of_survives hcodec hjson
  · exact survives_of_onlyNewlineMissing hcodec path jobs

end Survival

section Sample

theorem textCodec_writesJson
    {listed : List (JobRecord String)}
    (hlisted : textsDiffer listed = true) :
    (textCodec listed).WritesJson := by
  refine ⟨?_, ?_⟩
  · intro line record hread
    by_cases hexists : ∃ r, recordText listed r = line
    · obtain ⟨r, rfl⟩ := hexists
      exact jsonScan_recordText hlisted r
    · simp only [textCodec, dif_neg hexists] at hread
      cases hread
  · intro record
    exact List.IsPrefix.trans (by decide) (recordText_opensId hlisted record)

/-- The results of two jobs whose inference timed out. -/
def timedOut (id : Uuid) (now : OffsetDateTime) : JobRecord String :=
  (sampleRecord id 5 none).failedWith now "job timed out"

theorem timedOut_texts_differ :
    textsDiffer [timedOut 1 8, timedOut 2 9] = true := by
  decide +kernel

/-- The call failed behind the last brace. -/
def ByteAppend.withoutNewline (codec : RecordCodec M) (record : JobRecord M) :
    ByteAppend codec :=
  .failed record ⟨(encodeUtf8 (codec.toJson record)).length, by
    rw [lineBytes_length]
    exact Nat.lt_succ_self _⟩

theorem ByteAppend.withoutNewline_torn
    {codec : RecordCodec M}
    (hcodec : codec.Lawful) (record : JobRecord M) :
    (ByteAppend.withoutNewline codec record).Torn := by
  intro hlength
  have hnil := List.eq_nil_of_length_eq_zero hlength
  exact hcodec.toJson_ne_nil record ((encodeUtf8_eq_nil_iff _).mp hnil)

/-- Two records glued together are not read. -/
theorem withoutNewline_then_ok_fails
    {codec : RecordCodec M}
    (hcodec : codec.Lawful)
    (hjson : codec.WritesJson)
    (path : MetadataFile) (record record' : JobRecord M) (jobs loaded : JobMap M) :
    loadJobRecords codec path
        (some (logBytes [ByteAppend.withoutNewline codec record, .ok record'])) jobs ≠
      .ok loaded := by
  intro hload
  have hclean : ∀ append ∈ ([] : List (ByteAppend codec)), ¬ append.Torn :=
    List.forall_mem_nil _
  have hnothing := (torn_line_of_load hcodec hjson hclean
    (ByteAppend.withoutNewline_torn hcodec record) hload).2
  have hok := okRecords_eq_nil hnothing
  cases hok

/-- The second result was written but for its newline, then the process died. -/
theorem log_survives_iff_sample :
    let codec := textCodec [timedOut 1 8, timedOut 2 9]
    SurvivesFailedAppends .results
      [.ok (timedOut 1 8), ByteAppend.withoutNewline codec (timedOut 2 9)] ∅ := by
  intro codec
  refine (log_survives_iff (textCodec_lawful timedOut_texts_differ)
    (textCodec_writesJson timedOut_texts_differ) .results _ ∅).mpr ?_
  intro before record written after hsplit hne
  match before with
  | [] => cases hsplit
  | [first] =>
      obtain ⟨rfl, hrest⟩ := List.cons.inj hsplit
      obtain ⟨hlast, rfl⟩ := List.cons.inj hrest
      cases hlast
      refine ⟨(lineBytes_length codec _).symm, rfl, ?_⟩
      intro earlier hearlier
      cases hearlier
  | first :: second :: _ => simp at hsplit

/-- The append of a finished job lacks its newline, and the next job finishes:
the server no longer starts. -/
theorem glued_results_stop_the_load :
    let codec := textCodec [timedOut 1 8, timedOut 2 9]
    let appends := [ByteAppend.withoutNewline codec (timedOut 1 8), .ok (timedOut 2 9)]
    codec.Lawful ∧ codec.WritesJson ∧
      (∀ jobs loaded,
        loadJobRecords codec .results (some (logBytes appends)) jobs ≠ .ok loaded) ∧
      ¬ SurvivesFailedAppends .results appends ∅ := by
  intro codec appends
  have hcodec : codec.Lawful := textCodec_lawful timedOut_texts_differ
  have hjson : codec.WritesJson := textCodec_writesJson timedOut_texts_differ
  have hfails := withoutNewline_then_ok_fails hcodec hjson .results (timedOut 1 8) (timedOut 2 9)
  refine ⟨hcodec, hjson, hfails, ?_⟩
  rintro ⟨loaded, hload, -⟩
  exact hfails ∅ loaded hload

end Sample
end FlorenceServer
