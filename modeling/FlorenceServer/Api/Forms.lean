import FlorenceServer.Api.UploadFiles

/-!
# Reading a form

`submit_multipart_job` up to the queue, as a function of the whole form.  The loop over the
fields overwrites what an earlier field of the same meaning has set, ignores fields that it
does not know, and ends at the first one that it cannot read.

* `readMultipartInferenceRequest_eq`: the request that a form stands for.
* `uploaded_record_iff`: which forms become a job record, and which record that is.
* `refused_upload_iff`: a form that gets as far as no image being written has the error of
  the first check that fails.
-/

namespace FlorenceServer

variable {M : Type}

section LastValues

variable {α β : Type}

/-- The value of the last entry that has one. -/
def lastOf (value : α → Option β) (entries : List α) : Option β :=
  entries.reverse.findSome? value

@[simp] theorem lastOf_nil (value : α → Option β) :
    lastOf value [] = none :=
  rfl

theorem lastOf_cons (value : α → Option β) (entry : α) (entries : List α) :
    lastOf value (entry :: entries) = (lastOf value entries).or (value entry) := by
  rw [lastOf, List.reverse_cons, List.findSome?_append, ← lastOf]
  cases hvalue : value entry <;> simp [hvalue]

end LastValues

section Fields

/-- The parts of a request that a form can fill. -/
inductive FormPart where
  | image | taskType | taskPrompt | textInput | webhookUrl
deriving DecidableEq, Repr

/-- The part that a field of this name fills. -/
def formPart : String → Option FormPart
  | "image" | "file" => some .image
  | "task_type" | "task_type_selector" => some .taskType
  | "task_prompt" | "task" => some .taskPrompt
  | "text_input" => some .textInput
  | "webhook_url" => some .webhookUrl
  | _ => none

/-- The name that an error gives the part. -/
def FormPart.fieldName : FormPart → String
  | .image => "image"
  | .taskType => "task_type"
  | .taskPrompt => "task"
  | .textInput => "text_input"
  | .webhookUrl => "webhook_url"

namespace MultipartField

def part (field : MultipartField) : Option FormPart :=
  formPart (field.name.getD "")

/-- The image in the field. -/
def uploadedImage (field : MultipartField) : Option UploadedImage :=
  if field.part = some .image then
    field.bytes.toOption.map (fun bytes =>
      { filename := field.fileName, contentType := field.contentType, bytes })
  else none

/-- The text that the field has for the part. -/
def textOf (part : FormPart) (field : MultipartField) : Option String :=
  if field.part = some part then field.text.toOption else none

/-- Why the field cannot be read as this part. -/
def partError (field : MultipartField) : FormPart → Option String
  | .image => errorOf field.bytes
  | .taskType | .taskPrompt | .textInput | .webhookUrl => errorOf field.text

/-- Why the field cannot be read; one that fills no part is not read. -/
def readError (field : MultipartField) : Option ApiError :=
  field.part.bind (fun part => (field.partError part).map (fun err =>
    .badRequest ("failed to read " ++ part.fieldName ++ " field: " ++ err)))

end MultipartField

/-- Why the entry cannot be read. -/
def entryError : Except String MultipartField → Option ApiError
  | .error err => some (.badRequest ("failed to read multipart field: " ++ err))
  | .ok field => field.readError

/-- The fields overwrite what the request has. -/
def MultipartInferenceRequest.filledBy (request : MultipartInferenceRequest)
    (fields : List MultipartField) : MultipartInferenceRequest where
  image := (lastOf MultipartField.uploadedImage fields).or request.image
  taskType := (lastOf (MultipartField.textOf .taskType) fields).or request.taskType
  taskPrompt := (lastOf (MultipartField.textOf .taskPrompt) fields).or request.taskPrompt
  textInput := (lastOf (MultipartField.textOf .textInput) fields).or request.textInput
  webhookUrl := (lastOf (MultipartField.textOf .webhookUrl) fields).or request.webhookUrl

variable {request : MultipartInferenceRequest} {field : MultipartField}

/-- One field overwrites its part. -/
theorem applyMultipartField_eq :
    applyMultipartField request (field.name.getD "") field =
      field.readError.elim (.ok (request.filledBy [field])) .error := by
  unfold applyMultipartField
  split
  case h_9 =>
      have hpart : field.part = none := by
        unfold MultipartField.part formPart
        split <;> simp_all
      simp [MultipartField.readError, MultipartInferenceRequest.filledBy, lastOf_cons,
        MultipartField.uploadedImage, MultipartField.textOf, hpart]
  all_goals
    rename_i hname
    have hpart : field.part = formPart _ := congrArg formPart hname
    simp only [formPart] at hpart
    simp only [MultipartField.readError, MultipartInferenceRequest.filledBy, lastOf_cons,
      MultipartField.uploadedImage, MultipartField.textOf, hpart, MultipartField.partError,
      readUploadedImage, readTextField]
  case h_1 | h_2 => cases field.bytes <;> rfl
  all_goals cases field.text <;> rfl

theorem filledBy_filledBy
    {fields : List MultipartField} :
    (request.filledBy [field]).filledBy fields = request.filledBy (field :: fields) := by
  simp only [MultipartInferenceRequest.filledBy, lastOf_cons, lastOf_nil, Option.none_or,
    Option.or_assoc]

/-- What has been read so far is overwritten by the rest of the form. -/
theorem readMultipartFields_eq
    (request : MultipartInferenceRequest)
    (entries : List (Except String MultipartField)) :
    readMultipartFields request entries =
      (entries.findSome? entryError).elim
        (.ok (request.filledBy (entries.filterMap Except.toOption))) .error := by
  induction entries generalizing request with
  | nil =>
      simp [readMultipartFields, MultipartInferenceRequest.filledBy]
  | cons entry entries ih =>
      cases entry with
      | error err =>
          rfl
      | ok field =>
          have hentry : entryError (.ok field) = field.readError := rfl
          have hfields : (Except.ok field :: entries).filterMap Except.toOption =
              field :: entries.filterMap Except.toOption := rfl
          rw [readMultipartFields, applyMultipartField_eq, List.findSome?_cons, hentry]
          cases field.readError with
          | some err =>
              rfl
          | none =>
              have hrest := ih (request.filledBy [field])
              rw [filledBy_filledBy] at hrest
              rw [hfields]
              exact hrest

/--
The first entry that cannot be read decides.  If there is none, each part of the request
comes from the last field with one of its names.
-/
theorem readMultipartInferenceRequest_eq
    (entries : List (Except String MultipartField)) :
    readMultipartInferenceRequest entries =
      (entries.findSome? entryError).elim
        (.ok (MultipartInferenceRequest.default.filledBy (entries.filterMap Except.toOption)))
        .error :=
  readMultipartFields_eq _ entries

end Fields

section Acceptance

/-- What `validate_image_bytes` asks of an image. -/
structure AcceptableImage (crate : ImageCrate) (limits : ImageLimits)
    (contentType : Option String) (bytes : List UInt8) : Prop where
  contentType : ∀ text ∈ contentType, "image/".toList <+: text.toList
  format : ∃ format, crate.guessFormat bytes = some format ∧
    (imageFormatContentType format).isSome = true
  reader : crate.withGuessedFormat bytes = .ok ()
  dimensions : ∃ width height, crate.intoDimensions bytes = .ok (width, height) ∧
    width ≤ limits.maxImageWidth ∧ height ≤ limits.maxImageHeight

variable {crate : ImageCrate} {limits : ImageLimits} {contentType : Option String}
variable {bytes : List UInt8}

theorem checkBytes_eq_ok_iff :
    validateImageBytes.checkBytes crate limits bytes = .ok () ↔
      AcceptableImage crate limits none bytes := by
  constructor
  · intro hcheck
    have hvalid : validateImageBytes crate limits none bytes = .ok () := hcheck
    obtain ⟨format, width, height, hformat, hcontent, hsize, hwidth, hheight⟩ :=
      validateImageBytes_ok hvalid
    have hreader : crate.withGuessedFormat bytes = .ok () := by
      cases hguessed : crate.withGuessedFormat bytes with
      | ok u => rfl
      | error err =>
          have hsome := Option.isNone_eq_false_iff.mpr hcontent
          simp [validateImageBytes.checkBytes, hformat, hsome, hguessed] at hcheck
    exact ⟨nofun, ⟨format, hformat, hcontent⟩, hreader, width, height, hsize, hwidth, hheight⟩
  · rintro ⟨-, ⟨format, hformat, hcontent⟩, hreader, width, height, hsize, hwidth, hheight⟩
    have hfits : ¬ (limits.maxImageWidth < width ∨ limits.maxImageHeight < height) := by omega
    have hsome := Option.isNone_eq_false_iff.mpr hcontent
    simp [validateImageBytes.checkBytes, hformat, hsome, hreader, hsize, hfits]

/-- The content type is looked at only if the client gives one. -/
theorem validateImageBytes_eq_ok_iff :
    validateImageBytes crate limits contentType bytes = .ok () ↔
      AcceptableImage crate limits contentType bytes := by
  cases contentType with
  | none => exact checkBytes_eq_ok_iff
  | some text =>
      have hrest : AcceptableImage crate limits (some text) bytes ↔
          "image/".toList <+: text.toList ∧ AcceptableImage crate limits none bytes := by
        constructor
        · rintro ⟨htype, hformat, hreader, hsize⟩
          exact ⟨htype text rfl, nofun, hformat, hreader, hsize⟩
        · rintro ⟨htype, -, hformat, hreader, hsize⟩
          exact ⟨fun other hother => Option.some.inj hother ▸ htype, hformat, hreader, hsize⟩
      rw [hrest, ← checkBytes_eq_ok_iff, validateImageBytes]
      split <;> simp_all

variable {cfg : SubmitConfig} {inputs : UploadInputs} {record : JobRecord M}

/-- The fields of a form that could be taken apart. -/
def UploadInputs.fields (inputs : UploadInputs) : List MultipartField :=
  inputs.body.filterMap Except.toOption

/-- The text that the form has for a part. -/
def UploadInputs.text (inputs : UploadInputs) (part : FormPart) : Option String :=
  lastOf (MultipartField.textOf part) inputs.fields

/-- The image that the form has. -/
def UploadInputs.image (inputs : UploadInputs) : Option UploadedImage :=
  lastOf MultipartField.uploadedImage inputs.fields

/-- The request that the form stands for. -/
def UploadInputs.request (inputs : UploadInputs) : MultipartInferenceRequest where
  image := inputs.image
  taskType := inputs.text .taskType
  taskPrompt := inputs.text .taskPrompt
  textInput := inputs.text .textInput
  webhookUrl := inputs.text .webhookUrl

/-- What the checks of an upload make of the form. -/
structure UploadInputs.Accepted (cfg : SubmitConfig) (inputs : UploadInputs)
    (upload : CheckedUpload) : Prop where
  ready : inputs.workers.isReady = true
  readable : ∀ entry ∈ inputs.body, entryError entry = none
  task : taskSpecFromRequest (inputs.text .taskType) (inputs.text .taskPrompt)
    (inputs.text .textInput) none = .ok upload.task
  webhookUrl : validateWebhookUrl inputs.env.urls cfg.allowPrivateWebhookUrls
    (inputs.text .webhookUrl) = .ok upload.webhookUrl
  image : inputs.image = some upload.image
  nonempty : upload.image.bytes ≠ []
  acceptable : AcceptableImage inputs.env.images cfg.imageLimits upload.image.contentType
    upload.image.bytes

theorem readMultipartInferenceRequest_body :
    readMultipartInferenceRequest inputs.body =
      (inputs.body.findSome? entryError).elim (.ok inputs.request) .error := by
  rw [readMultipartInferenceRequest_eq]
  simp [MultipartInferenceRequest.filledBy, MultipartInferenceRequest.default,
    UploadInputs.request, UploadInputs.image, UploadInputs.text, UploadInputs.fields]

theorem ensureWorkersReady_eq_ok_iff
    {workers : WorkerPoolState} {u : Unit} :
    ensureWorkersReady workers = .ok u ↔ workers.isReady = true := by
  unfold ensureWorkersReady
  split <;> simp_all

theorem checkUpload_eq_ok_iff
    {env : SubmitEnv} {request : MultipartInferenceRequest} {upload : CheckedUpload} :
    checkUpload env request = .ok upload ↔
      taskSpecFromRequest request.taskType request.taskPrompt request.textInput none =
        .ok upload.task ∧
      env.validateWebhookUrl request.webhookUrl = .ok upload.webhookUrl ∧
      request.image = some upload.image ∧ upload.image.bytes ≠ [] ∧
      env.validateImageBytes upload.image.contentType upload.image.bytes = .ok () := by
  simp only [checkUpload, bind_eq_ok]
  constructor
  · rintro ⟨task, htask, webhookUrl, hurl, h⟩
    split at h
    · cases h
    · rename_i image himage
      split at h
      · cases h
      · rename_i hbytes
        obtain ⟨_, hvalid, h⟩ := bind_eq_ok.mp h
        cases h
        exact ⟨htask, hurl, himage, by simpa using hbytes, hvalid⟩
  · rintro ⟨htask, hurl, himage, hbytes, hvalid⟩
    refine ⟨upload.task, htask, upload.webhookUrl, hurl, ?_⟩
    have hnonempty : upload.image.bytes.isEmpty = false := by simpa using hbytes
    simp only [himage, hnonempty, hvalid, Bool.false_eq_true, if_false]
    rfl

/-- The checks of an upload pass exactly on the accepted forms. -/
theorem check_eq_ok_iff
    {upload : CheckedUpload} :
    inputs.check cfg = .ok upload ↔ inputs.Accepted cfg upload := by
  simp only [UploadInputs.check, bind_eq_ok, ensureWorkersReady_eq_ok_iff,
    readMultipartInferenceRequest_body, checkUpload_eq_ok_iff]
  constructor
  · rintro ⟨-, hready, request, hrequest, htask, hurl, himage, hbytes, hvalid⟩
    cases hread : inputs.body.findSome? entryError with
    | some err =>
        rw [hread] at hrequest
        cases hrequest
    | none =>
        rw [hread] at hrequest
        cases hrequest
        exact ⟨hready, List.findSome?_eq_none_iff.mp hread, htask, hurl, himage, hbytes,
          validateImageBytes_eq_ok_iff.mp hvalid⟩
  · intro h
    have hread := List.findSome?_eq_none_iff.mpr h.readable
    have hvalid := validateImageBytes_eq_ok_iff.mpr h.acceptable
    exact ⟨(), h.ready, inputs.request, by rw [hread]; rfl, h.task, h.webhookUrl, h.image,
      h.nonempty, hvalid⟩

/--
The record that an upload call hands to `enqueue_record`, in terms of its form: there is one
exactly if workers are ready, every field that is read can be read, the last values of the
form pass the checks and the image could be written.
-/
theorem uploaded_record_iff :
    inputs.Built cfg record ↔
      inputs.env.write = .ok ∧ ∃ upload, inputs.Accepted cfg upload ∧
        record =
          { id := inputs.env.id
            status := .queued
            createdAt := inputs.env.now
            updatedAt := inputs.env.now
            imagePath := uploadPath cfg.imagesDir inputs.env.id
              (guessExtension inputs.env.images upload.image.contentType upload.image.bytes)
            filename := upload.image.filename
            contentType := upload.image.contentType
            imageSha256 := inputs.env.sha256Hex upload.image.bytes
            imageBytes := upload.image.bytes.length
            inputKind := "upload"
            sourcePath := none
            taskType := upload.task.taskTypeName
            taskPrompt := upload.task.taskPromptName
            textInput := upload.task.textInput
            webhookUrl := upload.webhookUrl
            result := none
            error := none } := by
  unfold UploadInputs.Built
  simp only [check_eq_ok_iff]
  constructor
  · rintro ⟨upload, hupload, hwrite, hrecord⟩
    exact ⟨hwrite, upload, hupload, hrecord⟩
  · rintro ⟨hwrite, upload, hupload, hrecord⟩
    exact ⟨upload, hupload, hwrite, hrecord⟩

end Acceptance

section Refusals

variable {env : SubmitEnv} {request : MultipartInferenceRequest} {err : ApiError}
variable {cfg : SubmitConfig} {inputs : UploadInputs}

/-- The refusals of a request, in the order of the checks. -/
def MultipartInferenceRequest.refusals (request : MultipartInferenceRequest)
    (env : SubmitEnv) : List (Option ApiError) :=
  [errorOf (taskSpecFromRequest request.taskType request.taskPrompt request.textInput none),
    errorOf (env.validateWebhookUrl request.webhookUrl),
    if request.image.isNone then
      some (.badRequest "multipart field `image` is required") else none,
    if request.image.any (fun image => image.bytes.isEmpty) then
      some (.badRequest "uploaded image is empty") else none,
    request.image.bind (fun image =>
      errorOf (env.validateImageBytes image.contentType image.bytes))]

/-- The refusals of an upload: those of its request come last. -/
def UploadInputs.refusals (cfg : SubmitConfig) (inputs : UploadInputs) :
    List (Option ApiError) :=
  errorOf (ensureWorkersReady inputs.workers) :: inputs.body.findSome? entryError ::
    inputs.request.refusals (inputs.env.submitEnv cfg)

theorem checkUpload_eq_error_iff :
    checkUpload env request = .error err ↔ (request.refusals env).findSome? id = some err := by
  unfold checkUpload MultipartInferenceRequest.refusals
  cases taskSpecFromRequest request.taskType request.taskPrompt request.textInput none with
  | error refusal => simp [bind, Except.bind, errorOf]
  | ok task =>
  cases env.validateWebhookUrl request.webhookUrl with
  | error refusal => simp [bind, Except.bind, errorOf]
  | ok webhookUrl =>
  cases request.image with
  | none => simp [bind, Except.bind, errorOf]
  | some image =>
  cases hbytes : image.bytes.isEmpty with
  | true => simp [bind, Except.bind, errorOf, hbytes]
  | false =>
  cases hvalid : env.validateImageBytes image.contentType image.bytes with
  | error refusal => simp [bind, Except.bind, errorOf, hbytes, hvalid]
  | ok _ => simp [bind, Except.bind, errorOf, hbytes, hvalid, pure, Except.pure]

/--
Before the image is written, the first check that fails decides what a client is told.  A
write that fails, and a queue that is full or closed, are met after all of these checks.
-/
theorem refused_upload_iff :
    inputs.check cfg = .error err ↔ (inputs.refusals cfg).findSome? id = some err := by
  unfold UploadInputs.check UploadInputs.refusals
  rw [readMultipartInferenceRequest_body]
  cases ensureWorkersReady inputs.workers with
  | error refusal => simp [bind, Except.bind, errorOf]
  | ok _ =>
  cases inputs.body.findSome? entryError with
  | some refusal => simp [bind, Except.bind, errorOf]
  | none => exact checkUpload_eq_error_iff

/-- A field that nothing reads does no harm, and of two prompts the last one counts. -/
example :
    (UploadInputs.mk ⟨1, 1, 0⟩
      [.ok ⟨some "csrf", none, none, .error "reset", .error "reset"⟩,
        .ok ⟨some "task", none, none, .ok [], .ok "Caption"⟩,
        .ok ⟨some "task_prompt", none, none, .ok [], .ok "OCR"⟩,
        .ok ⟨some "file", none, none, .ok sampleImage, .error "utf-8"⟩]
      (bitmapHandler 1)).text .taskPrompt = some "OCR" := by
  decide

end Refusals

end FlorenceServer
