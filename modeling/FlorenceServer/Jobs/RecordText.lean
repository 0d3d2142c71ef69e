import FlorenceServer.Api.Submit
import FlorenceServer.Jobs.Store
import FlorenceServer.Lib.JsonScan
import Mathlib.Data.Countable.Basic
import Mathlib.Tactic.DeriveCountable

/-!
# The text of a record

A codec that writes given records the way `serde_json` does, and every other
record as an object with nothing but a number.  It satisfies all that the job code relies on, so
concrete runs over files can be carried out with it.
-/

namespace FlorenceServer

section SampleText

def jsonText (text : String) : List Char :=
  '"' :: text.toList ++ ['"']

def jsonOption : Option String → List Char
  | some text => jsonText text
  | none => "null".toList

def jsonField (name : String) (value : List Char) : List Char :=
  jsonText name ++ ':' :: value

def JobStatus.json : JobStatus → List Char
  | .queued => jsonText "queued"
  | .running => jsonText "running"
  | .succeeded => jsonText "succeeded"
  | .failed => jsonText "failed"

/-- RFC 3339, for a time within the first second of 1970. -/
def firstSecondJson (time : OffsetDateTime) : List Char :=
  let digits := Nat.toDigits 10 time.toNat
  let fraction := List.replicate (9 - digits.length) '0' ++ digits
  "\"1970-01-01T00:00:00.".toList ++ fraction ++ "Z\"".toList

/-- `serde_json::to_vec` of a record without inference metadata whose strings
need no escapes and whose times lie in the first second of 1970. -/
def sampleJson (record : JobRecord String) : List Char :=
  '{' :: List.intercalate [',']
    [jsonField "id" (jsonText (uuidText record.id)),
      jsonField "status" record.status.json,
      jsonField "created_at" (firstSecondJson record.createdAt),
      jsonField "updated_at" (firstSecondJson record.updatedAt),
      jsonField "image_path" (jsonText ("/".intercalate record.imagePath)),
      jsonField "filename" (jsonOption record.filename),
      jsonField "content_type" (jsonOption record.contentType),
      jsonField "image_sha256" (jsonText record.imageSha256),
      jsonField "image_bytes" (toString record.imageBytes).toList,
      jsonField "input_kind" (jsonText record.inputKind),
      jsonField "source_path" (jsonOption (record.sourcePath.map "/".intercalate)),
      jsonField "task_type" (jsonText record.taskType),
      jsonField "task_prompt" (jsonText record.taskPrompt),
      jsonField "text_input" (jsonOption record.textInput),
      jsonField "webhook_url" (jsonOption record.webhookUrl),
      jsonField "result" (jsonOption record.result),
      jsonField "error" (jsonOption record.error)] ++ ['}']

end SampleText

section Numbers

instance countableChar : Countable Char :=
  Function.Injective.countable (f := Char.toNat)
    (fun _ _ h => Char.ext (UInt32.toNat_inj.mp h))

instance countableString : Countable String :=
  Function.Injective.countable (f := String.toList) (fun _ _ h => String.toList_inj.mp h)

instance : Countable Uuid :=
  Function.Injective.countable (f := BitVec.toNat) (fun _ _ h => BitVec.eq_of_toNat_eq h)

deriving instance Countable for JobStatus

instance : Countable (JobRecord String) :=
  Function.Injective.countable
    (f := fun r : JobRecord String =>
      ((r.id, r.status, r.createdAt, r.updatedAt, r.imagePath),
        (r.filename, r.contentType, r.imageSha256, r.imageBytes, r.inputKind),
        (r.sourcePath, r.taskType, r.taskPrompt, r.textInput, r.webhookUrl),
        (r.result, r.error)))
    (by
      rintro ⟨⟩ ⟨⟩ h
      simp only [Prod.mk.injEq] at h
      simp only [JobRecord.mk.injEq]
      tauto)

/-- A number for every record. -/
noncomputable def recordNumber : JobRecord String → Nat :=
  Classical.choose (exists_injective_nat (JobRecord String))

theorem recordNumber_injective : Function.Injective recordNumber :=
  Classical.choose_spec (exists_injective_nat (JobRecord String))

end Numbers

section Codec

/-- What the text of every record starts with. -/
def openedId : List Char :=
  '{' :: jsonText "id" ++ [':']

/-- An object whose id is the number zero, written with `n` digits. -/
def zerosJson (n : Nat) : List Char :=
  openedId ++ List.replicate n '0' ++ ['}']

/-- The text of a record: spelled out for the records listed. -/
noncomputable def recordText (listed : List (JobRecord String))
    (record : JobRecord String) : List Char :=
  if record ∈ listed then sampleJson record else zerosJson (recordNumber record)

open Classical in
/-- A codec with these texts. -/
noncomputable def textCodec (listed : List (JobRecord String)) : RecordCodec String where
  toJson := recordText listed
  fromStr := fun line =>
    if h : ∃ record, recordText listed record = line then some h.choose else none

/-- The text is one line with a JSON object whose id is a string. -/
def isObjectText (text : List Char) : Bool :=
  decide (text.take 7 = openedId ++ ['"']) && decide (text.getLast? = some '}') &&
    decide ('\n' ∉ text) && decide (jsonScan text = .closed)

/-- The texts of the listed records are objects and differ from each other. -/
def textsDiffer (listed : List (JobRecord String)) : Bool :=
  listed.all (fun record => isObjectText (sampleJson record)) &&
    decide ((listed.map sampleJson).Nodup)

variable {listed : List (JobRecord String)}

theorem textsDiffer_object
    (hlisted : textsDiffer listed = true)
    {record : JobRecord String} (hrecord : record ∈ listed) :
    (sampleJson record).take 7 = openedId ++ ['"'] ∧
      (sampleJson record).getLast? = some '}' ∧
      '\n' ∉ sampleJson record ∧ jsonScan (sampleJson record) = .closed := by
  have hall := (Bool.and_eq_true_iff.mp hlisted).1
  have hobject := List.all_eq_true.mp hall record hrecord
  simp only [isObjectText, Bool.and_eq_true, decide_eq_true_eq] at hobject
  obtain ⟨⟨⟨htake, hlast⟩, hnewline⟩, hscan⟩ := hobject
  exact ⟨htake, hlast, hnewline, hscan⟩

/-- A number does not start like a string. -/
theorem zerosJson_take_ne (n : Nat) :
    (zerosJson n).take 7 ≠ openedId ++ ['"'] := by
  cases n <;> simp [zerosJson, openedId, jsonText, List.replicate_succ]

theorem jsonScan_zerosJson (n : Nat) :
    jsonScan (zerosJson n) = .closed := by
  have hzeros : JsonScan.run (.inside 0) (List.replicate n '0') = .inside 0 := by
    induction n with
    | zero => rfl
    | succ n ih => exact ih
  have hopened : jsonScan openedId = .inside 0 := by decide
  unfold jsonScan at hopened ⊢
  rw [zerosJson, JsonScan.run_append, JsonScan.run_append, hopened, hzeros]
  rfl

theorem recordText_injective
    (hlisted : textsDiffer listed = true) :
    Function.Injective (recordText listed) := by
  have hnodup := of_decide_eq_true (Bool.and_eq_true_iff.mp hlisted).2
  have hnumber : ∀ r ∈ listed, ∀ n : Nat, sampleJson r ≠ zerosJson n := by
    intro r hr n h
    have htake := (textsDiffer_object hlisted hr).1
    rw [h] at htake
    exact zerosJson_take_ne n htake
  intro r r' h
  unfold recordText at h
  by_cases hr : r ∈ listed
  · by_cases hr' : r' ∈ listed
    · rw [if_pos hr, if_pos hr'] at h
      exact List.inj_on_of_nodup_map hnodup hr hr' h
    · rw [if_pos hr, if_neg hr'] at h
      exact absurd h (hnumber r hr _)
  · by_cases hr' : r' ∈ listed
    · rw [if_neg hr, if_pos hr'] at h
      exact absurd h.symm (hnumber r' hr' _)
    · rw [if_neg hr, if_neg hr'] at h
      have hlength := congrArg List.length h
      simp only [zerosJson, List.length_append, List.length_replicate] at hlength
      exact recordNumber_injective (by omega)

theorem recordText_opensId
    (hlisted : textsDiffer listed = true) (record : JobRecord String) :
    openedId <+: recordText listed record := by
  unfold recordText
  split
  · have htake := (textsDiffer_object hlisted ‹_›).1
    rw [← List.take_append_drop 7 (sampleJson record), htake, List.append_assoc]
    exact List.prefix_append openedId _
  · rw [zerosJson, List.append_assoc]
    exact List.prefix_append openedId _

theorem jsonScan_recordText
    (hlisted : textsDiffer listed = true) (record : JobRecord String) :
    jsonScan (recordText listed record) = .closed := by
  unfold recordText
  split
  · exact (textsDiffer_object hlisted ‹_›).2.2.2
  · exact jsonScan_zerosJson _

theorem textCodec_lawful
    (hlisted : textsDiffer listed = true) :
    (textCodec listed).Lawful := by
  refine ⟨?_, ?_, ?_, ?_⟩
  · intro record
    have hexists : ∃ r, recordText listed r = recordText listed record := ⟨record, rfl⟩
    simp only [textCodec, dif_pos hexists, Option.some.injEq]
    exact recordText_injective hlisted hexists.choose_spec
  · intro record
    simp only [textCodec, recordText]
    split
    · exact (textsDiffer_object hlisted ‹_›).2.2.1
    · simp [zerosJson, openedId, jsonText]
  · intro record
    obtain ⟨rest, hrest⟩ := recordText_opensId hlisted record
    simp only [textCodec, ← hrest]
    rfl
  · intro record
    simp only [textCodec, recordText]
    split
    · exact (textsDiffer_object hlisted ‹_›).2.1
    · exact List.getLast?_concat

end Codec
end FlorenceServer
