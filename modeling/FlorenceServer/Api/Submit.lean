import FlorenceServer.Lib.Fallible
import FlorenceServer.Jobs.Queue
import FlorenceServer.Types.Config

/-!
# Building job records

The two submit handlers of `api/submit.rs`, as far as they decide which record
is handed to `enqueue_record`.  The validators and the file system are
parameters of a handler, so what is proved of a built record holds whatever they
answer.
-/

namespace FlorenceServer

variable {M : Type}

inductive ApiError where
  | badRequest (message : String)
  | notFound
  | forbidden (message : String)
  | serviceUnavailable (message : String)
  | internal
deriving DecidableEq

/-- `get_job`. -/
def getJob (jobs : JobMap M) (id : Uuid) : Except ApiError (JobRecord M) :=
  match jobs.get id with
  | some record => .ok record
  | none => .error .notFound

section Handlers

/-- The display form of a task error. -/
def TaskSpecError.message : TaskSpecError → String
  | .unsupportedTaskType taskType =>
      "unsupported task_type `" ++ taskType ++
        "`; expected `Single task`, `Cascased task`, or `Cascaded task`"
  | .unsupportedTaskPrompt taskType taskPrompt =>
      "unsupported task_prompt `" ++ taskPrompt ++ "` for task_type `" ++
        taskType.asStr ++ "`"

/-- `task_spec_from_request`. -/
def taskSpecFromRequest (taskType taskPrompt textInput taskAlias : Option String) :
    Except ApiError TaskSpec :=
  match TaskSpec.fromStrings taskType (taskPrompt.or taskAlias) textInput with
  | .ok task => .ok task
  | .error err => .error (.badRequest err.message)

structure UploadedImage where
  filename : Option String
  contentType : Option String
  bytes : List UInt8

structure MultipartInferenceRequest where
  image : Option UploadedImage
  taskType : Option String
  taskPrompt : Option String
  textInput : Option String
  webhookUrl : Option String

structure LocalPathRequest where
  /-- as it is spelled, for the file system to read -/
  imagePath : String
  taskType : Option String
  taskPrompt : Option String
  textInput : Option String
  webhookUrl : Option String
  task : Option String

/-- What a submit handler draws from the validators, the file system, the clock
and the random source. -/
structure SubmitEnv where
  id : Uuid
  now : OffsetDateTime
  validateWebhookUrl : Option String → Except ApiError (Option String)
  validateImageBytes : Option String → List UInt8 → Except ApiError Unit
  sha256Hex : List UInt8 → String
  guessExtension : Option String → List UInt8 → String
  /-- `image::guess_format` and `image_format_content_type` -/
  guessContentType : List UInt8 → Option String
  /-- the write in `save_uploaded_image` -/
  write : PathBuf → Except ApiError Unit
  /-- `validated_local_image_path` -/
  localImagePath : String → Except ApiError PathBuf
  /-- `read_local_image` -/
  readLocalImage : PathBuf → Except ApiError (List UInt8)

/-- `save_uploaded_image`. -/
def saveUploadedImage (cfg : Config) (env : SubmitEnv) (image : UploadedImage) :
    Except ApiError PathBuf := do
  let extension := env.guessExtension image.contentType image.bytes
  let imagePath := cfg.imagesDir ++ [uuidText env.id ++ "." ++ extension]
  env.write imagePath
  pure imagePath

/-- `uploaded_job_record`. -/
def uploadedJobRecord (cfg : Config) (env : SubmitEnv)
    (request : MultipartInferenceRequest) : Except ApiError (JobRecord M) := do
  let task ← taskSpecFromRequest request.taskType request.taskPrompt request.textInput none
  let webhookUrl ← env.validateWebhookUrl request.webhookUrl
  match request.image with
  | none => .error (.badRequest "multipart field `image` is required")
  | some image =>
      if image.bytes.isEmpty then
        .error (.badRequest "uploaded image is empty")
      else do
        env.validateImageBytes image.contentType image.bytes
        let imagePath ← saveUploadedImage cfg env image
        pure
          { id := env.id
            status := .queued
            createdAt := env.now
            updatedAt := env.now
            imagePath := imagePath
            filename := image.filename
            contentType := image.contentType
            imageSha256 := env.sha256Hex image.bytes
            imageBytes := image.bytes.length
            inputKind := "upload"
            sourcePath := none
            taskType := task.taskTypeName
            taskPrompt := task.taskPromptName
            textInput := task.textInput
            webhookUrl := webhookUrl
            result := none
            error := none }

/-- `local_path_job_record`. -/
def localPathJobRecord (env : SubmitEnv) (request : LocalPathRequest) :
    Except ApiError (JobRecord M) := do
  let imagePath ← env.localImagePath request.imagePath
  let bytes ← env.readLocalImage imagePath
  let contentType := env.guessContentType bytes
  env.validateImageBytes contentType bytes
  let task ← taskSpecFromRequest request.taskType request.taskPrompt request.textInput
    request.task
  let webhookUrl ← env.validateWebhookUrl request.webhookUrl
  pure
    { id := env.id
      status := .queued
      createdAt := env.now
      updatedAt := env.now
      imagePath := imagePath
      filename := imagePath.getLast?
      contentType := contentType
      imageSha256 := env.sha256Hex bytes
      imageBytes := bytes.length
      inputKind := "local_path"
      sourcePath := some imagePath
      taskType := task.taskTypeName
      taskPrompt := task.taskPromptName
      textInput := task.textInput
      webhookUrl := webhookUrl
      result := none
      error := none }

/-- One of the two submit handlers produced the record. -/
def BuiltBySubmitHandler (record : JobRecord M) : Prop :=
  (∃ cfg env request, uploadedJobRecord cfg env request = .ok record) ∨
    (∃ env request, localPathJobRecord env request = .ok record)

end Handlers

section BuiltRecords

theorem uploadedJobRecord_unstarted
    {cfg : Config} {env : SubmitEnv} {request : MultipartInferenceRequest}
    {record : JobRecord M}
    (h : uploadedJobRecord cfg env request = .ok record) :
    record.Unstarted := by
  obtain ⟨task, -, h⟩ := bind_eq_ok.mp h
  obtain ⟨webhookUrl, -, h⟩ := bind_eq_ok.mp h
  split at h
  · cases h
  · split at h
    · cases h
    · obtain ⟨_, -, h⟩ := bind_eq_ok.mp h
      obtain ⟨imagePath, -, h⟩ := bind_eq_ok.mp h
      cases h
      constructor <;> rfl

theorem localPathJobRecord_unstarted
    {env : SubmitEnv} {request : LocalPathRequest}
    {record : JobRecord M}
    (h : localPathJobRecord env request = .ok record) :
    record.Unstarted := by
  obtain ⟨imagePath, -, h⟩ := bind_eq_ok.mp h
  obtain ⟨bytes, -, h⟩ := bind_eq_ok.mp h
  obtain ⟨_, -, h⟩ := bind_eq_ok.mp h
  obtain ⟨task, -, h⟩ := bind_eq_ok.mp h
  obtain ⟨webhookUrl, -, h⟩ := bind_eq_ok.mp h
  cases h
  constructor <;> rfl

/-- A submit handler hands over a queued record without result and error. -/
theorem BuiltBySubmitHandler.unstarted
    {record : JobRecord M}
    (h : BuiltBySubmitHandler record) :
    record.Unstarted := by
  rcases h with ⟨cfg, env, request, h⟩ | ⟨env, request, h⟩
  · exact uploadedJobRecord_unstarted h
  · exact localPathJobRecord_unstarted h

end BuiltRecords

section SampleUpload

/-- A bitmap of one pixel. -/
def sampleImage : List UInt8 :=
  [66, 77, 58, 0, 0, 0, 0, 0, 0, 0, 54, 0, 0, 0, 40, 0, 0, 0, 1, 0, 0, 0, 1, 0, 0, 0,
    1, 0, 24, 0, 0, 0, 0, 0, 4, 0, 0, 0, 19, 11, 0, 0, 19, 11, 0, 0, 0, 0, 0, 0, 0, 0,
    0, 0, 0, 0, 255, 0]

/-- The environment of an upload of that bitmap. -/
def sampleEnv (id : Uuid) (now : OffsetDateTime) : SubmitEnv where
  id := id
  now := now
  validateWebhookUrl := Except.ok
  validateImageBytes := fun _ _ => .ok ()
  sha256Hex := fun _ => "f7cbd816abfb19030d23b8de5435d0141443665a81ed5ba12114c70b5f53b610"
  guessExtension := fun _ _ => "bmp"
  guessContentType := fun _ => some "image/bmp"
  write := fun _ => .ok ()
  localImagePath := fun _ => .ok ["/", "srv", "inputs", "pixel.bmp"]
  readLocalImage := fun _ => .ok sampleImage

/-- The record of an upload with the default task. -/
def sampleRecord (id : Uuid) (now : OffsetDateTime) (webhookUrl : Option String) :
    JobRecord String where
  id := id
  status := .queued
  createdAt := now
  updatedAt := now
  imagePath := ["data", "images", uuidText id ++ "." ++ "bmp"]
  filename := some "pixel.bmp"
  contentType := some "image/bmp"
  imageSha256 := "f7cbd816abfb19030d23b8de5435d0141443665a81ed5ba12114c70b5f53b610"
  imageBytes := 58
  inputKind := "upload"
  sourcePath := none
  taskType := "Single task"
  taskPrompt := "Caption"
  textInput := none
  webhookUrl := webhookUrl
  result := none
  error := none

/-- The request that uploads the bitmap. -/
def sampleRequest (webhookUrl : Option String) : MultipartInferenceRequest where
  image := some
    { filename := some "pixel.bmp"
      contentType := some "image/bmp"
      bytes := sampleImage }
  taskType := none
  taskPrompt := none
  textInput := none
  webhookUrl := webhookUrl

theorem sampleRecord_built (id : Uuid) (now : OffsetDateTime) (webhookUrl : Option String) :
    BuiltBySubmitHandler (sampleRecord id now webhookUrl) :=
  Or.inl ⟨Config.default, sampleEnv id now, sampleRequest webhookUrl, rfl⟩

/-- The record is one of the samples. -/
def isSampleRecord (record : JobRecord String) : Bool :=
  decide (record = sampleRecord record.id record.createdAt record.webhookUrl)

theorem isSampleRecord_built
    {record : JobRecord String}
    (h : isSampleRecord record = true) :
    BuiltBySubmitHandler record := by
  rw [of_decide_eq_true h]
  exact sampleRecord_built _ _ _

end SampleUpload
end FlorenceServer
