import FlorenceServer.Api.Images
import FlorenceServer.Jobs.Tracking

/-!
# Upload calls and their files

`submit_multipart_job` around the `enqueue_record` calls of a server process: the
fields of the form are read, the request is checked, the image is written, and
only then the record goes to the queue.  The state of a process is extended by the
files on disk and by the point at which each upload call stands; `finish_job`
removes files when a worker cleans up.

* `ServiceOk.run`: what holds of the upload calls, the jobs they submitted and
  their files at every point of a run.
-/

namespace FlorenceServer

open Runs

variable {M : Type}

section Forms

/-- A field of a multipart form, with what reading it gives. -/
structure MultipartField where
  name : Option String
  fileName : Option String
  contentType : Option String
  bytes : Except String (List UInt8)
  text : Except String String

/-- `read_uploaded_image`. -/
def readUploadedImage (field : MultipartField) : Except ApiError UploadedImage :=
  match field.bytes with
  | .ok bytes =>
      .ok { filename := field.fileName, contentType := field.contentType, bytes }
  | .error err => .error (.badRequest ("failed to read image field: " ++ err))

/-- `read_text_field`. -/
def readTextField (field : MultipartField) (fieldName : String) : Except ApiError String :=
  match field.text with
  | .ok text => .ok text
  | .error err =>
      .error (.badRequest ("failed to read " ++ fieldName ++ " field: " ++ err))

/-- `apply_multipart_field`. -/
def applyMultipartField (request : MultipartInferenceRequest) (name : String)
    (field : MultipartField) : Except ApiError MultipartInferenceRequest :=
  match name with
  | "image" | "file" =>
      (readUploadedImage field).map (fun image => { request with image := some image })
  | "task_type" | "task_type_selector" =>
      (readTextField field "task_type").map
        (fun text => { request with taskType := some text })
  | "task_prompt" | "task" =>
      (readTextField field "task").map (fun text => { request with taskPrompt := some text })
  | "text_input" =>
      (readTextField field "text_input").map
        (fun text => { request with textInput := some text })
  | "webhook_url" =>
      (readTextField field "webhook_url").map
        (fun text => { request with webhookUrl := some text })
  | _ => .ok request

/-- `MultipartInferenceRequest::default`. -/
def MultipartInferenceRequest.default : MultipartInferenceRequest where
  image := none
  taskType := none
  taskPrompt := none
  textInput := none
  webhookUrl := none

/-- The loop of `read_multipart_inference_request` over the fields that
`next_field` gives; a later field replaces an earlier one. -/
def readMultipartFields (request : MultipartInferenceRequest) :
    List (Except String MultipartField) → Except ApiError MultipartInferenceRequest
  | [] => .ok request
  | .error err :: _ =>
      .error (.badRequest ("failed to read multipart field: " ++ err))
  | .ok field :: rest =>
      match applyMultipartField request (field.name.getD "") field with
      | .error err => .error err
      | .ok request => readMultipartFields request rest

/-- `read_multipart_inference_request`. -/
def readMultipartInferenceRequest (fields : List (Except String MultipartField)) :
    Except ApiError MultipartInferenceRequest :=
  readMultipartFields MultipartInferenceRequest.default fields

/-- `ensure_workers_ready`. -/
def ensureWorkersReady (workers : WorkerPoolState) : Except ApiError Unit :=
  if workers.isReady then .ok ()
  else .error (.serviceUnavailable "model workers are not ready")

end Forms

section Environment

/-- The settings that the submit handlers read besides those of the job code. -/
structure SubmitConfig extends Config where
  imageLimits : ImageLimits
  allowPrivateWebhookUrls : Bool

/-- How `tokio::fs::write` ends; a failing one may have created the file. -/
inductive WriteOutcome where
  | ok
  | failed (created : Bool)
deriving DecidableEq, Repr

/-- The file is there after the write. -/
def WriteOutcome.leavesFile : WriteOutcome → Bool
  | .ok => true
  | .failed created => created

/-- What a submit handler draws from its libraries, the clock, the random source
and the file system. -/
structure HandlerEnv where
  id : Uuid
  now : OffsetDateTime
  images : ImageCrate
  urls : UrlParser
  sha256Hex : List UInt8 → String
  write : WriteOutcome
  /-- `validated_local_image_path` -/
  localImagePath : String → Except ApiError PathBuf
  /-- `read_local_image` -/
  readLocalImage : PathBuf → Except ApiError (List UInt8)

/-- The environment of the record builders, with the validators of this crate. -/
def HandlerEnv.submitEnv (cfg : SubmitConfig) (env : HandlerEnv) : SubmitEnv where
  id := env.id
  now := env.now
  validateWebhookUrl := validateWebhookUrl env.urls cfg.allowPrivateWebhookUrls
  validateImageBytes := validateImageBytes env.images cfg.imageLimits
  sha256Hex := env.sha256Hex
  guessExtension := guessExtension env.images
  guessContentType := fun bytes => (env.images.guessFormat bytes).bind imageFormatContentType
  write := fun _ =>
    match env.write with
    | .ok => .ok ()
    | .failed _ => .error .internal
  localImagePath := env.localImagePath
  readLocalImage := env.readLocalImage

end Environment

section Checks

/-- What `uploaded_job_record` knows before it writes the image. -/
structure CheckedUpload where
  task : TaskSpec
  webhookUrl : Option String
  image : UploadedImage

/-- `uploaded_job_record` up to the write of the image. -/
def checkUpload (env : SubmitEnv) (request : MultipartInferenceRequest) :
    Except ApiError CheckedUpload := do
  let task ← taskSpecFromRequest request.taskType request.taskPrompt request.textInput none
  let webhookUrl ← env.validateWebhookUrl request.webhookUrl
  match request.image with
  | none => .error (.badRequest "multipart field `image` is required")
  | some image =>
      if image.bytes.isEmpty then
        .error (.badRequest "uploaded image is empty")
      else do
        env.validateImageBytes image.contentType image.bytes
        pure { task, webhookUrl, image }

/-- The record that `uploaded_job_record` builds behind the write. -/
def CheckedUpload.record (env : SubmitEnv) (upload : CheckedUpload)
    (imagePath : PathBuf) : JobRecord M where
  id := env.id
  status := .queued
  createdAt := env.now
  updatedAt := env.now
  imagePath := imagePath
  filename := upload.image.filename
  contentType := upload.image.contentType
  imageSha256 := env.sha256Hex upload.image.bytes
  imageBytes := upload.image.bytes.length
  inputKind := "upload"
  sourcePath := none
  taskType := upload.task.taskTypeName
  taskPrompt := upload.task.taskPromptName
  textInput := upload.task.textInput
  webhookUrl := upload.webhookUrl
  result := none
  error := none

/-- The record builder is the checks, the write, and the record. -/
theorem uploadedJobRecord_eq
    (cfg : Config) (env : SubmitEnv) (request : MultipartInferenceRequest) :
    (uploadedJobRecord cfg env request : Except ApiError (JobRecord M)) =
      (do
        let upload ← checkUpload env request
        let imagePath ← saveUploadedImage cfg env upload.image
        pure (upload.record env imagePath)) := by
  unfold uploadedJobRecord checkUpload
  cases taskSpecFromRequest request.taskType request.taskPrompt request.textInput none with
  | error err => rfl
  | ok task =>
  cases env.validateWebhookUrl request.webhookUrl with
  | error err => rfl
  | ok webhookUrl =>
  cases request.image with
  | none => rfl
  | some image =>
  by_cases hempty : image.bytes.isEmpty = true
  · simp only [hempty, if_true]
    rfl
  · simp only [hempty]
    cases env.validateImageBytes image.contentType image.bytes with
    | error err => rfl
    | ok _ => simp [bind, Except.bind, pure, Except.pure, CheckedUpload.record]

/-- A record that comes from a local path is tagged so. -/
theorem localPathJobRecord_inputKind
    {env : SubmitEnv} {request : LocalPathRequest} {record : JobRecord M}
    (h : localPathJobRecord env request = .ok record) :
    record.inputKind = "local_path" := by
  obtain ⟨imagePath, -, h⟩ := bind_eq_ok.mp h
  obtain ⟨bytes, -, h⟩ := bind_eq_ok.mp h
  obtain ⟨_, -, h⟩ := bind_eq_ok.mp h
  obtain ⟨task, -, h⟩ := bind_eq_ok.mp h
  obtain ⟨webhookUrl, -, h⟩ := bind_eq_ok.mp h
  cases h
  rfl

end Checks

section Services

/-- What an upload call is given, and what it meets. -/
structure UploadInputs where
  /-- the worker pool when the call starts -/
  workers : WorkerPoolState
  body : List (Except String MultipartField)
  env : HandlerEnv

namespace UploadInputs

/-- `submit_multipart_job` up to the write of the image. -/
def check (cfg : SubmitConfig) (inputs : UploadInputs) : Except ApiError CheckedUpload := do
  ensureWorkersReady inputs.workers
  let request ← readMultipartInferenceRequest inputs.body
  checkUpload (inputs.env.submitEnv cfg) request

/-- The path that `save_uploaded_image` chooses. -/
def imagePath (cfg : SubmitConfig) (inputs : UploadInputs) (upload : CheckedUpload) : PathBuf :=
  uploadPath cfg.imagesDir inputs.env.id
    (guessExtension inputs.env.images upload.image.contentType upload.image.bytes)

/-- The file that the call creates. -/
def createdFile (cfg : SubmitConfig) (inputs : UploadInputs) : Option PathBuf :=
  match inputs.check cfg with
  | .ok upload =>
      if inputs.env.write.leavesFile then some (inputs.imagePath cfg upload) else none
  | .error _ => none

end UploadInputs

/-- Where a `submit_multipart_job` call stands. -/
inductive UploadCall (M : Type) where
  | idle
  /-- the form is read and checked -/
  | reading (inputs : UploadInputs)
  /-- in `tokio::fs::write` -/
  | saving (inputs : UploadInputs) (upload : CheckedUpload)
  /-- in `enqueue_record`, or behind it -/
  | submitted (inputs : UploadInputs) (record : JobRecord M)
  /-- returned before `enqueue_record` -/
  | refused (inputs : UploadInputs) (err : ApiError)
  /-- the future was dropped before `enqueue_record` -/
  | dropped (inputs : UploadInputs)

namespace UploadCall

def inputs : UploadCall M → Option UploadInputs
  | .idle => none
  | .reading inputs | .saving inputs _ | .submitted inputs _ | .refused inputs _
  | .dropped inputs => some inputs

/-- The handler runs and has not called `enqueue_record`. -/
def inFlight : UploadCall M → Bool
  | .reading _ | .saving _ _ => true
  | .idle | .submitted _ _ | .refused _ _ | .dropped _ => false

/-- The handler has called `enqueue_record`. -/
def isSubmitted : UploadCall M → Bool
  | .submitted _ _ => true
  | .idle | .reading _ | .saving _ _ | .refused _ _ | .dropped _ => false

end UploadCall

/-- A server process with its upload calls and the files on disk. -/
structure Service (M : Type) where
  server : Server M
  files : Finset PathBuf
  /-- how many upload calls have been started -/
  opened : Nat
  uploads : Nat → UploadCall M

inductive ServiceAction (M : Type) where
  | openUpload (body : List (Except String MultipartField)) (env : HandlerEnv)
  | readUpload (n : Nat)
  | saveUpload (n : Nat)
  /-- the future is dropped; a write in flight may still create the file -/
  | dropUpload (n : Nat) (created : Bool)
  /-- `submit_inference_path` calls `enqueue_record` -/
  | submitLocal (env : HandlerEnv) (request : LocalPathRequest)
  | server (a : Action M)

namespace Service

def setUpload (S : Service M) (n : Nat) (call : UploadCall M) : Service M :=
  { S with uploads := Function.update S.uploads n call }

def setFile (S : Service M) (path : PathBuf) (created : Bool) : Service M :=
  if created then { S with files := insert path S.files } else S

@[simp] theorem mem_setFile
    (S : Service M) (path other : PathBuf) (created : Bool) :
    other ∈ (S.setFile path created).files ↔ other ∈ S.files ∨ created = true ∧ other = path := by
  cases created with
  | true => simp [Service.setFile, or_comm]
  | false => simp [Service.setFile]

@[simp] theorem setFile_server (S : Service M) (path : PathBuf) (created : Bool) :
    (S.setFile path created).server = S.server := by
  cases created <;> rfl

@[simp] theorem setFile_opened (S : Service M) (path : PathBuf) (created : Bool) :
    (S.setFile path created).opened = S.opened := by
  cases created <;> rfl

theorem setFile_setUpload
    (S : Service M) (path : PathBuf) (created : Bool) (n : Nat) (call : UploadCall M) :
    ((S.setFile path created).setUpload n call).uploads = Function.update S.uploads n call := by
  cases created <;> rfl

/-- `save_uploaded_image` and, if it succeeds, the call of `enqueue_record`. -/
def saveImage (cfg : SubmitConfig) (S : Service M) (n : Nat) (inputs : UploadInputs)
    (upload : CheckedUpload) : Option (Service M) :=
  let env := inputs.env.submitEnv cfg
  let S := S.setFile (inputs.imagePath cfg upload) inputs.env.write.leavesFile
  match saveUploadedImage cfg.toConfig env upload.image with
  | .ok imagePath =>
      let record := upload.record env imagePath
      (S.server.submit record).map
        (fun server => { S.setUpload n (.submitted inputs record) with server := server })
  | .error err => some (S.setUpload n (.refused inputs err))

/-- The files after a step of the server: `cleanup_job_artifacts` removes one. -/
def filesAfter (cfg : SubmitConfig) (S : Service M) : Action M → Finset PathBuf
  | .worker w (.cleanup removal) =>
      match S.server.loops w with
      | .cleaning record _ =>
          match cleanupJobArtifacts cfg.toConfig removal record with
          | some .removed => S.files.erase record.imagePath
          | _ => S.files
      | _ => S.files
  | _ => S.files

/-- A handler is running. -/
def anyInFlight (S : Service M) : Bool :=
  (List.range S.opened).any (fun n => (S.uploads n).inFlight)

/-- Records get to the server through the handlers, and the router lives as long
as one of them runs. -/
def admits (S : Service M) : Action M → Bool
  | .submit _ => false
  | .shutdown => !S.anyInFlight
  | .call _ _ | .worker _ _ | .read _ | .backgroundDone _ _ => true

def step (cfg : SubmitConfig) (S : Service M) : ServiceAction M → Option (Service M)
  | .openUpload body env =>
      some { S.setUpload S.opened (.reading { workers := S.server.workers, body, env }) with
        opened := S.opened + 1 }
  | .readUpload n =>
      match S.uploads n with
      | .reading inputs =>
          match inputs.check cfg with
          | .ok upload => some (S.setUpload n (.saving inputs upload))
          | .error err => some (S.setUpload n (.refused inputs err))
      | _ => none
  | .saveUpload n =>
      match S.uploads n with
      | .saving inputs upload => S.saveImage cfg n inputs upload
      | _ => none
  | .dropUpload n created =>
      match S.uploads n with
      | .reading inputs => some (S.setUpload n (.dropped inputs))
      | .saving inputs upload =>
          some ((S.setFile (inputs.imagePath cfg upload) created).setUpload n (.dropped inputs))
      | _ => none
  | .submitLocal env request =>
      match localPathJobRecord (env.submitEnv cfg) request with
      | .ok record => (S.server.submit record).map (fun server => { S with server := server })
      | .error _ => none
  | .server a =>
      if S.admits a then
        (S.server.step cfg.toConfig a).map
          (fun server => { S with server := server, files := S.filesAfter cfg a })
      else none

/-- `From<EnqueueError> for ApiError`. -/
def apiError : EnqueueError → ApiError
  | .invalidTask source => .badRequest source.message
  | .queueFull => .serviceUnavailable "inference queue is full"
  | .queueClosed => .serviceUnavailable "inference queue is closed"
  | .persist => .internal

/-- What `submit_multipart_job` has returned. -/
def outcome (S : Service M) (n : Nat) : Option (Except ApiError QueueResponse) :=
  match S.uploads n with
  | .refused _ err => some (.error err)
  | .submitted _ record =>
      match S.server.calls record.id with
      | .ended _ (.returned (.ok response)) => some (.ok response)
      | .ended _ (.returned (.error err)) => some (.error (apiError err))
      | _ => none
  | .idle | .reading _ | .saving _ _ | .dropped _ => none

end Service
end Services

section Cases

variable {cfg : SubmitConfig} {S S' : Service M}

/-- The steps of a service, one constructor for each way they can go. -/
inductive ServiceCase (cfg : SubmitConfig) (S : Service M) :
    ServiceAction M → Service M → Prop where
  | openUpload (body : List (Except String MultipartField)) (env : HandlerEnv) :
      ServiceCase cfg S (.openUpload body env)
        { S.setUpload S.opened (.reading { workers := S.server.workers, body, env }) with
          opened := S.opened + 1 }
  | check {n : Nat} {inputs : UploadInputs} {upload : CheckedUpload}
      (hcall : S.uploads n = .reading inputs)
      (hcheck : inputs.check cfg = .ok upload) :
      ServiceCase cfg S (.readUpload n) (S.setUpload n (.saving inputs upload))
  | refuse {n : Nat} {inputs : UploadInputs} {err : ApiError}
      (hcall : S.uploads n = .reading inputs)
      (hcheck : inputs.check cfg = .error err) :
      ServiceCase cfg S (.readUpload n) (S.setUpload n (.refused inputs err))
  | save {n : Nat} {inputs : UploadInputs} {upload : CheckedUpload} {server : Server M}
      (hcall : S.uploads n = .saving inputs upload)
      (hwrite : inputs.env.write = .ok)
      (hsubmit : S.server.submit
        (upload.record (inputs.env.submitEnv cfg) (inputs.imagePath cfg upload)) = some server) :
      ServiceCase cfg S (.saveUpload n)
        { server := server
          files := insert (inputs.imagePath cfg upload) S.files
          opened := S.opened
          uploads := Function.update S.uploads n (.submitted inputs
            (upload.record (inputs.env.submitEnv cfg) (inputs.imagePath cfg upload))) }
  | saveFailed {n : Nat} {inputs : UploadInputs} {upload : CheckedUpload} {created : Bool}
      (hcall : S.uploads n = .saving inputs upload)
      (hwrite : inputs.env.write = .failed created) :
      ServiceCase cfg S (.saveUpload n)
        ((S.setFile (inputs.imagePath cfg upload) created).setUpload n
          (.refused inputs .internal))
  | dropReading {n : Nat} {created : Bool} {inputs : UploadInputs}
      (hcall : S.uploads n = .reading inputs) :
      ServiceCase cfg S (.dropUpload n created) (S.setUpload n (.dropped inputs))
  | dropSaving {n : Nat} {created : Bool} {inputs : UploadInputs} {upload : CheckedUpload}
      (hcall : S.uploads n = .saving inputs upload) :
      ServiceCase cfg S (.dropUpload n created)
        ((S.setFile (inputs.imagePath cfg upload) created).setUpload n (.dropped inputs))
  | submitLocal {env : HandlerEnv} {request : LocalPathRequest} {record : JobRecord M}
      {server : Server M}
      (hbuilt : localPathJobRecord (env.submitEnv cfg) request = .ok record)
      (hsubmit : S.server.submit record = some server) :
      ServiceCase cfg S (.submitLocal env request) { S with server := server }
  | server {a : Action M} {server : Server M}
      (hadmits : S.admits a = true)
      (hstep : S.server.step cfg.toConfig a = some server) :
      ServiceCase cfg S (.server a)
        { S with server := server, files := S.filesAfter cfg a }

theorem Service.saveImage_cases
    {n : Nat} {inputs : UploadInputs} {upload : CheckedUpload}
    (hcall : S.uploads n = .saving inputs upload)
    (h : S.saveImage cfg n inputs upload = some S') :
    ServiceCase cfg S (.saveUpload n) S' := by
  cases hwrite : inputs.env.write with
  | ok =>
      have hsave : saveUploadedImage cfg.toConfig (inputs.env.submitEnv cfg) upload.image =
          .ok (inputs.imagePath cfg upload) := by
        simp [saveUploadedImage, HandlerEnv.submitEnv, hwrite, bind, Except.bind, pure,
          Except.pure, UploadInputs.imagePath, uploadPath]
      simp only [Service.saveImage, hsave, hwrite, WriteOutcome.leavesFile, Service.setFile,
        if_true] at h
      obtain ⟨server, hsubmit, rfl⟩ := Option.map_eq_some_iff.mp h
      exact .save hcall hwrite hsubmit
  | failed created =>
      have hsave : saveUploadedImage cfg.toConfig (inputs.env.submitEnv cfg) upload.image =
          .error .internal := by
        simp [saveUploadedImage, HandlerEnv.submitEnv, hwrite, bind, Except.bind]
      simp only [Service.saveImage, hsave, hwrite, WriteOutcome.leavesFile] at h
      cases h
      exact .saveFailed hcall hwrite

theorem Service.step_cases
    {a : ServiceAction M}
    (h : S.step cfg a = some S') :
    ServiceCase cfg S a S' := by
  cases a with
  | openUpload body env =>
      cases h
      exact .openUpload body env
  | readUpload n =>
      simp only [Service.step] at h
      split at h
      · rename_i inputs hcall
        split at h
        · rename_i upload hcheck
          cases h
          exact .check hcall hcheck
        · rename_i err hcheck
          cases h
          exact .refuse hcall hcheck
      · cases h
  | saveUpload n =>
      simp only [Service.step] at h
      split at h
      · rename_i inputs upload hcall
        exact Service.saveImage_cases hcall h
      · cases h
  | dropUpload n created =>
      simp only [Service.step] at h
      split at h
      · rename_i inputs hcall
        cases h
        exact .dropReading hcall
      · rename_i inputs upload hcall
        cases h
        exact .dropSaving hcall
      · cases h
  | submitLocal env request =>
      simp only [Service.step] at h
      split at h
      · rename_i record hbuilt
        obtain ⟨server, hsubmit, rfl⟩ := Option.map_eq_some_iff.mp h
        exact .submitLocal hbuilt hsubmit
      · cases h
  | server a =>
      simp only [Service.step] at h
      split at h
      · rename_i hadmits
        obtain ⟨server, hstep, rfl⟩ := Option.map_eq_some_iff.mp h
        exact .server hadmits hstep
      · cases h

end Cases

section Calls

variable {cfg : Config} {s s' : Server M}

/-- The record that was handed to `enqueue_record`. -/
def EnqueueCall.record : EnqueueCall M → Option (JobRecord M)
  | .fresh | .past => none
  | .checking record | .ended record _ => some record
  | .live sub _ => some sub.record

/-- A step of a call that has not ended keeps its record and no other call. -/
theorem callStep_calls
    {id : Uuid} {action : CallAction}
    (hcase : Server.CallCase cfg s id action s') :
    (s.calls id).isLive = true ∧
    (∀ other, other ≠ id → s'.calls other = s.calls other) ∧
    (s'.calls id).record = (s.calls id).record := by
  cases hcase with
  | check record hcall =>
      unfold Server.checkCall
      rw [hcall]
      split
      · exact ⟨rfl, fun _ h => Function.update_of_ne h _ _, by simp [Server.endCall]; rfl⟩
      · rename_i sub hsub
        have hrecord := Submission.record_of_ofRecord hsub
        split
        · exact ⟨rfl, fun _ h => Function.update_of_ne h _ _, by simp [Server.endCall]; rfl⟩
        · refine ⟨rfl, fun _ h => Function.update_of_ne h _ _, ?_⟩
          simp [Server.setCall, EnqueueCall.record, hrecord]
  | insert sub hcall =>
      rw [hcall]
      refine ⟨rfl, fun _ h => Function.update_of_ne h _ _, ?_⟩
      simp [Server.insertCall, Server.setCall, EnqueueCall.record]
  | append sub outcome hcall =>
      unfold Server.appendCall
      rw [hcall]
      split
      · refine ⟨rfl, fun _ h => Function.update_of_ne h _ _, ?_⟩
        simp [Server.setCall, EnqueueCall.record]
      · refine ⟨rfl, fun _ h => Function.update_of_ne h _ _, ?_⟩
        simp [Server.endCall, EnqueueCall.record]
  | send sub hcall =>
      unfold Server.sendCall
      rw [hcall]
      split
      · refine ⟨rfl, fun _ h => Function.update_of_ne h _ _, ?_⟩
        simp [Server.setCall, EnqueueCall.record]
      · refine ⟨rfl, fun _ h => Function.update_of_ne h _ _, ?_⟩
        simp [Server.endCall, EnqueueCall.record]
  | rollback sub reason hcall =>
      rw [hcall]
      refine ⟨rfl, fun _ h => Function.update_of_ne h _ _, ?_⟩
      simp [Server.rollbackCall, Server.setCall, EnqueueCall.record]
  | persist sub reason now outcome hcall =>
      rw [hcall]
      refine ⟨rfl, fun _ h => Function.update_of_ne h _ _, ?_⟩
      simp [Server.persistCall, Server.endCall, EnqueueCall.record]
  | drop sub pc now written hcall hpc =>
      rw [hcall]
      cases pc <;>
        exact ⟨rfl, fun _ h => Function.update_of_ne h _ _,
          by simp [Server.dropCall, Server.endCall, EnqueueCall.record]⟩

/-- The record of a call stays the same, and an accepted call stays accepted. -/
theorem step_calls
    {a : Action M}
    (hsubmit : ∀ record, a ≠ .submit record)
    (hstep : s.step cfg a = some s') (id : Uuid) :
    (s'.calls id).record = (s.calls id).record ∧
    ((s.calls id).isAccepted = true → (s'.calls id).isAccepted = true) := by
  have hsame : s'.calls = s.calls → (s'.calls id).record = (s.calls id).record ∧
      ((s.calls id).isAccepted = true → (s'.calls id).isAccepted = true) := by
    intro h
    rw [h]
    exact ⟨rfl, fun h => h⟩
  cases a with
  | submit record => exact absurd rfl (hsubmit record)
  | call callId action =>
      obtain ⟨hlive, hothers, hself⟩ := callStep_calls (Server.callStep_cases hstep)
      by_cases hid : id = callId
      · subst hid
        refine ⟨hself, fun haccepted => ?_⟩
        cases hcall : s.calls id with
        | ended record ending =>
            rw [hcall] at hlive
            cases hlive
        | _ =>
            rw [hcall] at haccepted
            cases haccepted
      · rw [hothers id hid]
        exact ⟨rfl, fun h => h⟩
  | worker w action =>
      simp only [Server.step] at hstep
      split at hstep
      · refine hsame ?_
        cases Server.workerStep_cases hstep with
        | initWorker outcome hloop => cases outcome <;> rfl
        | markRunning request now hloop =>
            unfold Server.markRunning
            split <;> rfl
        | publish request result restart now hloop =>
            unfold Server.publishLoop
            split <;> rfl
        | _ => rfl
      · cases hstep
  | read readId =>
      cases hstep
      exact hsame rfl
  | shutdown =>
      simp only [Server.step] at hstep
      split at hstep <;> cases hstep
      exact hsame rfl
  | backgroundDone w job =>
      simp only [Server.step] at hstep
      split at hstep <;> cases hstep
      exact hsame rfl

theorem submit_calls
    {record : JobRecord M}
    (hsubmit : s.submit record = some s') :
    s.calls record.id = .fresh ∧
    s'.calls = Function.update s.calls record.id (.checking record) := by
  unfold Server.submit at hsubmit
  split at hsubmit
  · rename_i hserving hfresh
    cases hsubmit
    exact ⟨hfresh, rfl⟩
  · cases hsubmit

end Calls
end FlorenceServer
