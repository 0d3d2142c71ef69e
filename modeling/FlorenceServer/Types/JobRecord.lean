import FlorenceServer.Lib.UnorderedMap
import Mathlib.Tactic

/-!
# Job records

The record of `types/job.rs` with every field the job code stores, the map of
records that the handlers and the workers share, and the field updates that the
job code performs on a record.

Inference metadata is a type parameter: the job code stores it and hands it out
again, and never looks inside.  Times are integers, read from a wall clock that
may jump, so no step assumes that a later reading is a larger one.
-/

namespace FlorenceServer

/-- `uuid::Uuid`. -/
abbrev Uuid := BitVec 128

/-- `time::OffsetDateTime`, in nanoseconds. -/
abbrev OffsetDateTime := Int

/-- `std::path::PathBuf`, as its components. -/
abbrev PathBuf := List String

inductive JobStatus where
  | queued
  | running
  | succeeded
  | failed
deriving DecidableEq, Repr

/-- The test `matches!(status, Queued | Running)` of the job code. -/
def JobStatus.isUnfinished : JobStatus → Bool
  | .queued | .running => true
  | .succeeded | .failed => false

structure JobRecord (M : Type) where
  id : Uuid
  status : JobStatus
  createdAt : OffsetDateTime
  updatedAt : OffsetDateTime
  imagePath : PathBuf
  filename : Option String
  contentType : Option String
  imageSha256 : String
  imageBytes : Nat
  inputKind : String
  sourcePath : Option PathBuf
  taskType : String
  taskPrompt : String
  textInput : Option String
  webhookUrl : Option String
  result : Option M
  error : Option String
deriving DecidableEq

/-- The shared map `jobs: HashMap<Uuid, JobRecord>`. -/
abbrev JobMap (M : Type) := HashMap Uuid (JobRecord M)

namespace JobRecord

variable {M : Type}

/-- The update made by `mark_running`. -/
def markedRunning (record : JobRecord M) (now : OffsetDateTime) : JobRecord M :=
  { record with status := .running, updatedAt := now }

/-- The update shared by the failing arm of `finish_job`, the rollback of an
unqueued record and the recovery at startup; `result` is left alone. -/
def failedWith (record : JobRecord M) (now : OffsetDateTime)
    (error : String) : JobRecord M :=
  { record with status := .failed, updatedAt := now, error := some error }

/-- The succeeding arm of `finish_job`. -/
def succeededWith (record : JobRecord M) (now : OffsetDateTime)
    (metadata : M) : JobRecord M :=
  { record with
    status := .succeeded
    updatedAt := now
    result := some metadata
    error := none }

/-- The update of `finish_job`, by the outcome of the inference. -/
def finishedWith (record : JobRecord M) (now : OffsetDateTime) :
    Except String M → JobRecord M
  | .ok metadata => record.succeededWith now metadata
  | .error err => record.failedWith now err

/-- The job has reached a final status. -/
def Terminal (record : JobRecord M) : Prop :=
  record.status = .succeeded ∨ record.status = .failed

/-- Everything but `status`, `updated_at`, `result` and `error` agrees. -/
structure SameSubmission (record submitted : JobRecord M) : Prop where
  id : record.id = submitted.id
  createdAt : record.createdAt = submitted.createdAt
  imagePath : record.imagePath = submitted.imagePath
  filename : record.filename = submitted.filename
  contentType : record.contentType = submitted.contentType
  imageSha256 : record.imageSha256 = submitted.imageSha256
  imageBytes : record.imageBytes = submitted.imageBytes
  inputKind : record.inputKind = submitted.inputKind
  sourcePath : record.sourcePath = submitted.sourcePath
  taskType : record.taskType = submitted.taskType
  taskPrompt : record.taskPrompt = submitted.taskPrompt
  textInput : record.textInput = submitted.textInput
  webhookUrl : record.webhookUrl = submitted.webhookUrl

/-- Status, result and error fit together. -/
structure WellFormed (record : JobRecord M) : Prop where
  unfinished : record.status = .queued ∨ record.status = .running →
    record.result = none ∧ record.error = none
  succeeded : record.status = .succeeded →
    record.result.isSome ∧ record.error = none
  failed : record.status = .failed →
    record.result = none ∧ record.error.isSome

instance (record : JobRecord M) : Decidable record.Terminal :=
  inferInstanceAs (Decidable (_ ∨ _))

theorem isUnfinished_eq_false_iff (record : JobRecord M) :
    record.status.isUnfinished = false ↔ record.Terminal := by
  unfold Terminal
  cases record.status <;> simp [JobStatus.isUnfinished]

theorem not_terminal_iff (record : JobRecord M) :
    ¬ record.Terminal ↔ record.status = .queued ∨ record.status = .running := by
  unfold Terminal
  cases record.status <;> simp

section Updates

variable (record : JobRecord M) (now : OffsetDateTime)

@[simp] theorem markedRunning_id : (record.markedRunning now).id = record.id := rfl

@[simp] theorem markedRunning_status :
    (record.markedRunning now).status = .running := rfl

@[simp] theorem failedWith_id (error : String) :
    (record.failedWith now error).id = record.id := rfl

@[simp] theorem failedWith_status (error : String) :
    (record.failedWith now error).status = .failed := rfl

@[simp] theorem succeededWith_id (metadata : M) :
    (record.succeededWith now metadata).id = record.id := rfl

@[simp] theorem succeededWith_status (metadata : M) :
    (record.succeededWith now metadata).status = .succeeded := rfl

@[simp] theorem finishedWith_id (result : Except String M) :
    (record.finishedWith now result).id = record.id := by
  cases result <;> rfl

theorem finishedWith_terminal (result : Except String M) :
    (record.finishedWith now result).Terminal := by
  cases result with
  | ok metadata => exact Or.inl rfl
  | error err => exact Or.inr rfl

end Updates

/-- A final version of a submitted record. -/
def FinalOf (record submitted : JobRecord M) : Prop :=
  ∃ now : OffsetDateTime, ∃ result : Except String M,
    record = submitted.finishedWith now result

/-- The record as a submit handler builds it. -/
structure Unstarted (record : JobRecord M) : Prop where
  queued : record.status = .queued
  result : record.result = none
  error : record.error = none

namespace FinalOf

variable {record submitted : JobRecord M}

theorem of_failedWith (now : OffsetDateTime) (err : String) :
    FinalOf (submitted.failedWith now err) submitted :=
  ⟨now, .error err, rfl⟩

/-- Finishing a running record forgets when it was marked running. -/
theorem of_markedRunning (started now : OffsetDateTime) (result : Except String M) :
    FinalOf ((submitted.markedRunning started).finishedWith now result) submitted := by
  refine ⟨now, result, ?_⟩
  cases result <;> rfl

theorem id (h : FinalOf record submitted) : record.id = submitted.id := by
  obtain ⟨now, result, rfl⟩ := h
  simp

theorem terminal (h : FinalOf record submitted) : record.Terminal := by
  obtain ⟨now, result, rfl⟩ := h
  exact finishedWith_terminal submitted now result

theorem sameSubmission (h : FinalOf record submitted) :
    record.SameSubmission submitted := by
  obtain ⟨now, result, rfl⟩ := h
  cases result <;> constructor <;> rfl

theorem wellFormed (h : FinalOf record submitted)
    (hsubmitted : submitted.Unstarted) :
    record.WellFormed := by
  obtain ⟨now, result, rfl⟩ := h
  cases result with
  | ok metadata =>
      constructor <;> simp [finishedWith, succeededWith]
  | error err =>
      constructor <;> simp [finishedWith, failedWith, hsubmitted.result]

end FinalOf

/-- A state that the record of a submission passes through. -/
inductive VersionOf (record submitted : JobRecord M) : Prop where
  | submitted (h : record = submitted)
  | running (now : OffsetDateTime) (h : record = submitted.markedRunning now)
  | final (h : FinalOf record submitted)

theorem SameSubmission.refl (record : JobRecord M) :
    record.SameSubmission record := by
  constructor <;> rfl

theorem markedRunning_sameSubmission (record : JobRecord M) (now : OffsetDateTime) :
    (record.markedRunning now).SameSubmission record := by
  constructor <;> rfl

theorem VersionOf.sameSubmission {record submitted : JobRecord M}
    (h : record.VersionOf submitted) :
    record.SameSubmission submitted := by
  cases h with
  | submitted h => exact h ▸ SameSubmission.refl record
  | running now h => exact h ▸ markedRunning_sameSubmission submitted now
  | final h => exact h.sameSubmission

theorem Unstarted.wellFormed {record : JobRecord M}
    (h : record.Unstarted) : record.WellFormed := by
  constructor <;> simp [h.queued, h.result, h.error]

theorem Unstarted.markedRunning_wellFormed {record : JobRecord M}
    (h : record.Unstarted) (now : OffsetDateTime) :
    (record.markedRunning now).WellFormed := by
  constructor <;> simp [markedRunning, h.result, h.error]

theorem VersionOf.wellFormed {record submitted : JobRecord M}
    (h : record.VersionOf submitted)
    (hsubmitted : submitted.Unstarted) :
    record.WellFormed := by
  cases h with
  | submitted h => exact h ▸ hsubmitted.wellFormed
  | running now h => exact h ▸ hsubmitted.markedRunning_wellFormed now
  | final h => exact h.wellFormed hsubmitted

end JobRecord
end FlorenceServer
