import FlorenceServer.Inference.Generations
import FlorenceServer.Inference.ImageLayout
import FlorenceServer.Types.ModelVariant

/-!
# From an image to the metadata of its inference

`infer` of `inference.rs`: the image is decoded, resized and normalised, the vision
encoder makes features of it, the generations of the task are run on them, and their
results are combined.  Decoding and resizing are those of the `image` crate and enter as
the bytes they return; the graphs and the tokenizer are those of the worker.

* `infer_answers_task`: metadata belongs to its task.  Its generations are those of the
  task's plan, one after the other on the features of this image, the caption of a
  cascaded task is the text of its grounding, and the result has one entry for each.
* `infer_hangs_iff`: an inference returns, with metadata or with an error, unless its
  task is `OCR_WITH_REGION` and its text has an opening `<loc_` without a token.  It then
  never returns.
-/

namespace FlorenceServer

section Metadata

/-- `TensorElementType`, as far as `run_vision_encoder` tells the types apart. -/
inductive TensorElementType where
  | float32
  | float16
  /-- with the text that it is shown as -/
  | other (name : String)
deriving DecidableEq, Repr

def TensorElementType.name : TensorElementType → String
  | .float32 => "f32"
  | .float16 => "f16"
  | .other name => name

structure ImageInput where
  inputName : String
  inputDtype : TensorElementType
deriving DecidableEq, Repr

/-- `TensorMetadata`, without the statistics of the values. -/
structure TensorMetadata where
  name : String
  shape : List Int64
  elements : Nat
deriving DecidableEq, Repr

structure InferenceMetadata where
  backend : String
  modelPath : PathBuf
  modelVariant : ModelVariant
  inputName : String
  inputDtype : String
  originalWidth : Nat
  originalHeight : Nat
  processedWidth : Nat
  processedHeight : Nat
  elapsedMs : Nat
  taskToken : String
  promptText : String
  generatedText : List Char
  generatedTokens : Nat
  result : JsonValue
  generations : List Generation
  outputs : List TensorMetadata

/-- An image that was read, and the bytes of its copy of the size of the model's input. -/
structure DecodedImage where
  width : Nat
  height : Nat
  resized : List UInt8
deriving DecidableEq, Repr

/-- How `ImageReader` gets on with a file. -/
inductive ImageRead where
  | notOpened
  | unknownFormat (err : String)
  | notDecoded
  | decoded (image : DecodedImage)
deriving DecidableEq, Repr

/-- The first statement of `infer`. -/
def decodeImage (imagePath : PathBuf) : ImageRead → Except InferenceFailure DecodedImage
  | .notOpened => .error (.message ("failed to open image " ++ displayPath imagePath))
  | .unknownFormat err => .error (.message err)
  | .notDecoded => .error (.message "failed to decode image")
  | .decoded image => .ok image

end Metadata

/-- `FlorenceWorker`, with all that `infer` reads. -/
structure InferenceWorker (F : Type) extends FlorenceWorker F where
  visionEncoder : Option (Session F)
  imageInput : ImageInput
  backend : String
  visionEncoderPath : PathBuf
  modelVariant : ModelVariant

/-- A tensor of `f16`. -/
def DynValue.ofHalves {F : Type} (shape : List Int64) (data : List F) : DynValue F :=
  .float16 { shape, data }

/-- The text of a step that has returned; a step that has not is not asked for it. -/
def stepText (step : Option Generation) : String :=
  (step.map generationTextForInput).getD ""

/-- The generations of a plan, once all of its steps have returned. -/
def returnedSteps (steps : List (Option Generation)) : Option (List Generation) :=
  steps.mapM id

section Definitions

/- `f16::from_f32` is seen through `f16::to_f32`. -/
variable {F : Type} (ops : FloatOps F) (fromF32 : F → F)

namespace InferenceWorker

variable (worker : InferenceWorker F)

/-- The input tensor of `run_vision_encoder`. -/
def imageValue (input : List F) : Except InferenceFailure (DynValue F) :=
  match worker.imageInput.inputDtype with
  | .float32 =>
      worker.runtime.fromArray "f32 image input" .ofFloats (imageTensor input).shape input
  | .float16 =>
      worker.runtime.fromArray "f16 image input" .ofHalves (imageTensor input).shape
        (input.map fromF32)
  | .other name =>
      .error (.message ("unsupported image input dtype `" ++ name ++ "` for model " ++
        displayPath worker.visionEncoderPath ++ "; expected f32 or f16"))

/-- `run_vision_encoder`. -/
def runVisionEncoder (input : List F) : Except InferenceFailure (TensorData F) := do
  let session ← worker.session "vision encoder" worker.visionEncoder
  let value ← worker.imageValue fromF32 input
  let outputs ← runSession "vision encoder" session [(worker.imageInput.inputName, value)]
  let output ← firstOutput outputs
  extractOutputTensor worker.runtime output "image_features"

variable [LinearOrder F]

/-- The value that `infer` returns for its generations. -/
def metadata (image : DecodedImage) (imageFeatures : TensorData F) (elapsedMs : Nat)
    (generations : List Generation) (finalGeneration : Generation) : InferenceMetadata where
  backend := worker.backend
  modelPath := worker.visionEncoderPath
  modelVariant := worker.modelVariant
  inputName := worker.imageInput.inputName
  inputDtype := worker.imageInput.inputDtype.name
  originalWidth := image.width
  originalHeight := image.height
  processedWidth := imageSide.toNat
  processedHeight := imageSide.toNat
  elapsedMs := elapsedMs
  taskToken := finalGeneration.taskToken
  promptText := finalGeneration.promptText
  generatedText := finalGeneration.generatedText
  generatedTokens := finalGeneration.generatedTokens
  result := combineGenerationResults generations
  generations := generations
  outputs :=
    [{ name := "image_features"
       shape := imageFeatures.shape
       elements := imageFeatures.data.length },
      { name := "generated_token_ids"
        shape := [1, Int64.ofNat finalGeneration.generatedTokens]
        elements := finalGeneration.generatedTokens }]

/-- `infer` behind the vision encoder. -/
def inferFeatures (image : DecodedImage) (task : TaskSpec) (elapsedMs rounds : Nat)
    (imageFeatures : TensorData F) : Except InferenceFailure (Option InferenceMetadata) := do
  let steps ← runTaskPlan
    (worker.generate imageFeatures (image.width, image.height) rounds) stepText task
  match returnedSteps steps with
  | none => .ok none
  | some generations => do
      let finalGeneration ← okOr generations.getLast? "task produced no generations"
      .ok (some (worker.metadata image imageFeatures elapsedMs generations finalGeneration))

/-- The image features of an image. -/
def imageFeatures (imagePath : PathBuf) (read : ImageRead) :
    Except InferenceFailure (DecodedImage × TensorData F) := do
  let image ← decodeImage imagePath read
  let input ← preprocessImage ops image.resized
  let imageFeatures ← worker.runVisionEncoder fromF32 input
  .ok (image, imageFeatures)

/-- `infer`, with so many loop conditions of `parse_ocr_regions`; it is `none` if it has
not returned by then. -/
def infer (imagePath : PathBuf) (read : ImageRead) (task : TaskSpec)
    (elapsedMs rounds : Nat) : Except InferenceFailure (Option InferenceMetadata) := do
  let features ← worker.imageFeatures ops fromF32 imagePath read
  worker.inferFeatures features.1 task elapsedMs rounds features.2

end InferenceWorker

end Definitions

section Plans

/-- The tokens of a task's generations, in order. -/
def TaskSpec.planTokens (task : TaskSpec) : List String :=
  match task.taskType with
  | .single => task.taskPrompt.singleTaskToken.toList
  | .cascaded => task.taskPrompt.cascadedCaptionToken.toList ++ ["<CAPTION_TO_PHRASE_GROUNDING>"]

theorem ResolvedTask.taskToken_of_new
    {taskToken : String} {textInput : Option String} {resolved : ResolvedTask}
    (hnew : ResolvedTask.new taskToken textInput = .ok resolved) :
    resolved.taskToken = taskToken := by
  obtain ⟨promptText, -, hnew⟩ := bind_eq_ok.mp hnew
  cases hnew
  rfl

theorem ResolvedTask.singleTaskToken_of_fromTaskSpec
    {task : TaskSpec} {resolved : ResolvedTask}
    (hresolved : ResolvedTask.fromTaskSpec task = .ok resolved) :
    task.taskPrompt.singleTaskToken = some resolved.taskToken := by
  obtain ⟨token, htoken, hnew⟩ := bind_eq_ok.mp hresolved
  rw [taskToken_of_new hnew]
  exact okOr_eq_ok htoken

theorem TaskPrompt.captionToken_ne
    {prompt : TaskPrompt} {token : String}
    (htoken : prompt.cascadedCaptionToken = some token) :
    token ≠ ocrWithRegionToken ∧ token ≠ "<CAPTION_TO_PHRASE_GROUNDING>" := by
  cases prompt <;> cases htoken <;> decide

variable {F : Type} [LinearOrder F]

/-- The generations are those of the task's plan. -/
inductive FlorenceWorker.Answers (worker : FlorenceWorker F) (imageFeatures : TensorData F)
    (imageSize : Nat × Nat) (task : TaskSpec) : List Generation → Prop where
  | single (resolved : ResolvedTask) (generation : Generation)
      (htype : task.taskType = .single)
      (hresolved : ResolvedTask.fromTaskSpec task = .ok resolved)
      (hgenerated : worker.Generated imageFeatures imageSize resolved generation) :
      Answers worker imageFeatures imageSize task [generation]
  /-- the text of the first generation is the text of the second one's instruction -/
  | cascaded (captionToken : String) (caption grounding : ResolvedTask)
      (first second : Generation)
      (htype : task.taskType = .cascaded)
      (htoken : task.taskPrompt.cascadedCaptionToken = some captionToken)
      (hcaption : ResolvedTask.new captionToken none = .ok caption)
      (hfirst : worker.Generated imageFeatures imageSize caption first)
      (hgrounding : ResolvedTask.new "<CAPTION_TO_PHRASE_GROUNDING>"
        (some (String.ofList first.generatedText)) = .ok grounding)
      (hsecond : worker.Generated imageFeatures imageSize grounding second) :
      Answers worker imageFeatures imageSize task [first, second]

variable
  {worker : FlorenceWorker F}
  {imageFeatures : TensorData F}
  {imageSize : Nat × Nat}
  {task : TaskSpec}

/-- A plan whose steps have all returned. -/
theorem FlorenceWorker.answers_of_runTaskPlan
    {rounds : Nat} {steps : List (Option Generation)} {generations : List Generation}
    (hplan : runTaskPlan (worker.generate imageFeatures imageSize rounds) stepText task =
      .ok steps)
    (hsteps : returnedSteps steps = some generations) :
    worker.Answers imageFeatures imageSize task generations := by
  unfold runTaskPlan at hplan
  split at hplan
  case h_1 htype =>
      obtain ⟨captionToken, htoken, hplan⟩ := bind_eq_ok.mp hplan
      obtain ⟨caption, hcaption, hplan⟩ := bind_eq_ok.mp hplan
      obtain ⟨firstStep, hfirst, hplan⟩ := bind_eq_ok.mp hplan
      obtain ⟨grounding, hgrounding, hplan⟩ := bind_eq_ok.mp hplan
      obtain ⟨secondStep, hsecond, hplan⟩ := bind_eq_ok.mp hplan
      cases hplan
      have hcaptionToken := okOr_eq_ok htoken
      have hother : caption.taskToken ≠ ocrWithRegionToken := by
        rw [ResolvedTask.taskToken_of_new hcaption]
        exact (TaskPrompt.captionToken_ne hcaptionToken).1
      obtain ⟨first, rfl⟩ := generate_of_other_token hother hfirst
      have hfirstGenerated := generated_of_generate hfirst
      cases secondStep with
      | none =>
          simp [returnedSteps] at hsteps
      | some second =>
          simp only [returnedSteps, List.mapM_cons, List.mapM_nil, id_eq, Option.pure_def,
            Option.bind_eq_bind, Option.bind_some, Option.some.injEq] at hsteps
          subst hsteps
          rw [stepText, Option.map_some, Option.getD_some, hfirstGenerated.textForInput_eq]
            at hgrounding
          exact .cascaded captionToken caption grounding first second htype hcaptionToken
            hcaption hfirstGenerated hgrounding (generated_of_generate hsecond)
  case h_2 htype =>
      obtain ⟨resolved, hresolved, hplan⟩ := bind_eq_ok.mp hplan
      obtain ⟨step, hstep, hplan⟩ := bind_eq_ok.mp hplan
      cases hplan
      cases step with
      | none =>
          simp [returnedSteps] at hsteps
      | some generation =>
          simp only [returnedSteps, List.mapM_cons, List.mapM_nil, id_eq, Option.pure_def,
            Option.bind_eq_bind, Option.bind_some, Option.some.injEq] at hsteps
          subst hsteps
          exact .single resolved generation htype hresolved (generated_of_generate hstep)

namespace FlorenceWorker.Answers

variable {generations : List Generation}

theorem tokens_eq
    (hanswers : worker.Answers imageFeatures imageSize task generations) :
    generations.map (fun generation => generation.taskToken) = task.planTokens := by
  cases hanswers with
  | single resolved generation htype hresolved hgenerated =>
      simp only [TaskSpec.planTokens, htype, List.map_cons, List.map_nil,
        ResolvedTask.singleTaskToken_of_fromTaskSpec hresolved, Option.toList_some,
        hgenerated.decoded.taskToken]
  | cascaded captionToken caption grounding first second htype htoken hcaption hfirst
      hgrounding hsecond =>
      simp only [TaskSpec.planTokens, htype, htoken, List.map_cons, List.map_nil,
        Option.toList_some, hfirst.decoded.taskToken, hsecond.decoded.taskToken,
        ResolvedTask.taskToken_of_new hcaption, ResolvedTask.taskToken_of_new hgrounding,
        List.singleton_append]

theorem nodup
    (hanswers : worker.Answers imageFeatures imageSize task generations) :
    (generations.map (fun generation => generation.taskToken)).Nodup := by
  rw [hanswers.tokens_eq, TaskSpec.planTokens]
  split
  · rename_i htype
    cases task.taskPrompt.singleTaskToken <;> simp
  · cases htoken : task.taskPrompt.cascadedCaptionToken with
    | none => simp
    | some token => simpa using (TaskPrompt.captionToken_ne htoken).2

/-- Each of them is the generation of some resolved task. -/
theorem exists_generated
    (hanswers : worker.Answers imageFeatures imageSize task generations)
    {generation : Generation} (hmem : generation ∈ generations) :
    ∃ resolved, worker.Generated imageFeatures imageSize resolved generation := by
  cases hanswers with
  | single resolved other htype hresolved hgenerated =>
      rw [List.mem_singleton.mp hmem]
      exact ⟨resolved, hgenerated⟩
  | cascaded captionToken caption grounding first second htype htoken hcaption hfirst
      hgrounding hsecond =>
      rcases List.mem_cons.mp hmem with rfl | hmem
      · exact ⟨caption, hfirst⟩
      · rw [List.mem_singleton.mp hmem]
        exact ⟨grounding, hsecond⟩

/-- The instruction of the second generation quotes the whole text of the first one. -/
theorem grounding_prompt
    {first second : Generation}
    (hanswers : worker.Answers imageFeatures imageSize task [first, second]) :
    first.generatedText ≠ [] ∧
      second.promptText =
        "Locate the phrases in the caption: " ++ String.ofList first.generatedText := by
  cases hanswers with
  | cascaded captionToken caption grounding _ _ htype htoken hcaption hfirst hgrounding hsecond =>
      have htrim := hfirst.decoded.trim_text
      obtain ⟨promptText, hprompt, hgrounding⟩ := bind_eq_ok.mp hgrounding
      cases hgrounding
      rw [promptTextForTask_grounding] at hprompt
      obtain ⟨text, htext, hprompt⟩ := bind_eq_ok.mp hprompt
      cases hprompt
      by_cases hblank : trim (String.ofList first.generatedText) = ""
      · rw [requiredTextInput_blank hblank] at htext
        cases htext
      · rw [requiredTextInput_some hblank, htrim] at htext
        cases htext
        refine ⟨fun hnil => hblank ?_, hsecond.decoded.promptText⟩
        rw [hnil]
        decide

end FlorenceWorker.Answers

end Plans

section Settling

open Filter

variable {F : Type} [LinearOrder F]

/-- The one generation of the task has a text that the parser does not get through. -/
def FlorenceWorker.PlanHangs (worker : FlorenceWorker F) (imageFeatures : TensorData F)
    (task : TaskSpec) : Prop :=
  ∃ resolved metadata, task.taskType = .single ∧
    ResolvedTask.fromTaskSpec task = .ok resolved ∧
    worker.generateOnce imageFeatures resolved = .ok metadata ∧ metadata.Hangs

/-- A plan that has come to an end: with a failure, or with all of its steps. -/
def PlanReturned (answer : Except InferenceFailure (List (Option Generation))) : Prop :=
  ∀ steps, answer = .ok steps → ∃ generation generations,
    returnedSteps steps = some (generation :: generations)

variable
  {worker : FlorenceWorker F}
  {imageFeatures : TensorData F}
  {task : TaskSpec}

theorem planReturned_error (failure : InferenceFailure) :
    PlanReturned (.error failure) :=
  nofun

theorem FlorenceWorker.plan_settles_of_single
    (imageSize : Nat × Nat)
    (htype : task.taskType = .single) :
    (worker.PlanHangs imageFeatures task ∧
      ∀ rounds, runTaskPlan (worker.generate imageFeatures imageSize rounds) stepText task =
        .ok [none]) ∨
    (¬ worker.PlanHangs imageFeatures task ∧ ∃ answer, PlanReturned answer ∧
      ∀ᶠ rounds in atTop,
        runTaskPlan (worker.generate imageFeatures imageSize rounds) stepText task = answer) := by
  have hplan : ∀ rounds,
      runTaskPlan (worker.generate imageFeatures imageSize rounds) stepText task =
        ResolvedTask.fromTaskSpec task >>= fun resolved =>
          worker.generate imageFeatures imageSize rounds resolved >>= fun step => .ok [step] := by
    intro rounds
    rw [runTaskPlan, htype]
  cases hresolved : ResolvedTask.fromTaskSpec task with
  | error failure =>
      refine Or.inr ⟨?_, .error failure, planReturned_error failure, .of_forall fun rounds => ?_⟩
      · rintro ⟨resolved, metadata, -, hother, -⟩
        rw [hresolved] at hother
        cases hother
      · rw [hplan, hresolved]
        rfl
  | ok resolved =>
      rcases worker.generate_settles imageFeatures imageSize resolved with
        ⟨failure, hfailed, hgenerate⟩ | ⟨metadata, hmetadata, hhangs, hgenerate⟩ |
        ⟨metadata, result, rounds, hmetadata, hreturns, hgenerate⟩
      · refine Or.inr ⟨?_, .error failure, planReturned_error failure,
          .of_forall fun rounds => ?_⟩
        · rintro ⟨other, metadata, -, hother, hmetadata, -⟩
          rw [hresolved] at hother
          cases hother
          rw [hfailed] at hmetadata
          cases hmetadata
        · rw [hplan, hresolved, ok_bind, hgenerate]
          rfl
      · refine Or.inl ⟨⟨resolved, metadata, htype, hresolved, hmetadata, hhangs⟩, ?_⟩
        intro rounds
        rw [hplan, hresolved, ok_bind, hgenerate]
        rfl
      · refine Or.inr ⟨?_, .ok [some (Generation.mk metadata result)], ?_,
          eventually_atTop.mpr ⟨rounds, fun later hle => ?_⟩⟩
        · rintro ⟨other, metadata', -, hother, hmetadata', hhangs⟩
          rw [hresolved] at hother
          cases hother
          rw [hmetadata] at hmetadata'
          cases hmetadata'
          exact hreturns hhangs
        · intro steps hsteps
          cases hsteps
          exact ⟨_, _, rfl⟩
        · rw [hplan, hresolved, ok_bind, hgenerate later hle]
          rfl

/-- A generation of another task fails or returns. -/
theorem FlorenceWorker.generate_settles_of_other_token
    (imageSize : Nat × Nat) {resolved : ResolvedTask}
    (htoken : resolved.taskToken ≠ ocrWithRegionToken) :
    (∃ failure, ∀ rounds,
      worker.generate imageFeatures imageSize rounds resolved = .error failure) ∨
    ∃ generation, ∀ᶠ rounds in atTop,
      worker.generate imageFeatures imageSize rounds resolved = .ok (some generation) := by
  rcases worker.generate_settles imageFeatures imageSize resolved with
    ⟨failure, -, hgenerate⟩ | ⟨metadata, hmetadata, hhangs, -⟩ |
    ⟨metadata, result, rounds, -, -, hgenerate⟩
  · exact Or.inl ⟨failure, hgenerate⟩
  · have hsame := (decoded_of_generateOnce hmetadata).taskToken
    exact absurd (hsame.symm.trans hhangs.1) htoken
  · exact Or.inr ⟨_, eventually_atTop.mpr ⟨rounds, hgenerate⟩⟩

/-- A cascaded plan does not ask for regions. -/
theorem FlorenceWorker.plan_settles_of_cascaded
    (imageSize : Nat × Nat)
    (htype : task.taskType = .cascaded) :
    ∃ answer, PlanReturned answer ∧ ∀ᶠ rounds in atTop,
      runTaskPlan (worker.generate imageFeatures imageSize rounds) stepText task = answer := by
  have hplan : ∀ rounds,
      runTaskPlan (worker.generate imageFeatures imageSize rounds) stepText task =
        okOr task.taskPrompt.cascadedCaptionToken
          ("unsupported cascaded task prompt `" ++ task.taskPromptName ++ "`") >>=
        fun captionToken => ResolvedTask.new captionToken none >>= fun caption =>
        worker.generate imageFeatures imageSize rounds caption >>= fun first =>
        ResolvedTask.new "<CAPTION_TO_PHRASE_GROUNDING>" (some (stepText first)) >>=
        fun grounding =>
        worker.generate imageFeatures imageSize rounds grounding >>= fun second =>
        .ok [first, second] := by
    intro rounds
    rw [runTaskPlan, htype]
  simp only [hplan]
  cases htoken : task.taskPrompt.cascadedCaptionToken with
  | none =>
      exact ⟨.error _, planReturned_error _, .of_forall fun rounds => rfl⟩
  | some captionToken =>
      simp only [okOr_some, ok_bind]
      cases hcaption : ResolvedTask.new captionToken none with
      | error failure =>
          exact ⟨.error failure, planReturned_error failure, .of_forall fun rounds => rfl⟩
      | ok caption =>
          simp only [ok_bind]
          have hother : caption.taskToken ≠ ocrWithRegionToken := by
            rw [ResolvedTask.taskToken_of_new hcaption]
            exact (TaskPrompt.captionToken_ne htoken).1
          rcases worker.generate_settles_of_other_token imageSize hother with
            ⟨failure, hfirst⟩ | ⟨first, hfirst⟩
          · refine ⟨.error failure, planReturned_error failure, .of_forall fun rounds => ?_⟩
            rw [hfirst]
            rfl
          · cases hgrounding : ResolvedTask.new "<CAPTION_TO_PHRASE_GROUNDING>"
                (some (stepText (some first))) with
            | error failure =>
                refine ⟨.error failure, planReturned_error failure, ?_⟩
                filter_upwards [hfirst] with rounds hfirst
                rw [hfirst, ok_bind, hgrounding]
                rfl
            | ok grounding =>
                have hsecondToken : grounding.taskToken ≠ ocrWithRegionToken := by
                  rw [ResolvedTask.taskToken_of_new hgrounding]
                  decide
                rcases worker.generate_settles_of_other_token imageSize hsecondToken with
                  ⟨failure, hsecond⟩ | ⟨second, hsecond⟩
                · refine ⟨.error failure, planReturned_error failure, ?_⟩
                  filter_upwards [hfirst] with rounds hfirst
                  rw [hfirst, ok_bind, hgrounding, ok_bind, hsecond]
                  rfl
                · refine ⟨.ok [some first, some second], ?_, ?_⟩
                  · intro steps hsteps
                    cases hsteps
                    exact ⟨_, _, rfl⟩
                  · filter_upwards [hfirst, hsecond] with rounds hfirst hsecond
                    rw [hfirst, ok_bind, hgrounding, ok_bind, hsecond]
                    rfl

end Settling

section Results

open Filter

variable
  {F : Type}
  [LinearOrder F]
  {ops : FloatOps F}
  {fromF32 : F → F}
  {worker : InferenceWorker F}
  {imagePath : PathBuf}
  {read : ImageRead}
  {task : TaskSpec}
  {elapsedMs : Nat}

/-- The metadata is the one of the task, for an image with these features. -/
structure InferenceWorker.AnswersTask (worker : InferenceWorker F) (image : DecodedImage)
    (imageFeatures : TensorData F) (task : TaskSpec) (metadata : InferenceMetadata) :
    Prop where
  size : metadata.originalWidth = image.width ∧ metadata.originalHeight = image.height
  answers : worker.Answers imageFeatures (image.width, image.height) task metadata.generations
  tokens : metadata.generations.map (fun generation => generation.taskToken) = task.planTokens
  tokens_mem : ∀ generation ∈ metadata.generations,
    1 ≤ generation.generatedTokens ∧ generation.generatedTokens ≤ worker.maxNewTokens + 1
  /-- the second generation of a cascaded task is about the text of the first one -/
  grounded : ∀ first second, metadata.generations = [first, second] →
    first.generatedText ≠ [] ∧ second.promptText =
      "Locate the phrases in the caption: " ++ String.ofList first.generatedText
  last : ∃ generation, metadata.generations.getLast? = some generation ∧
    metadata.taskToken = generation.taskToken ∧
    metadata.promptText = generation.promptText ∧
    metadata.generatedText = generation.generatedText ∧
    metadata.generatedTokens = generation.generatedTokens
  result_get : ∀ generation ∈ metadata.generations, ∃ value,
    generation.result = .object [(generation.taskToken, value)] ∧
      metadata.result.get generation.taskToken = some value
  result_only : ∀ key, key ∉ task.planTokens → metadata.result.get key = none

theorem InferenceWorker.answersTask_of_answers
    {image : DecodedImage} {imageFeatures : TensorData F} {generations : List Generation}
    {finalGeneration : Generation}
    (hanswers : worker.Answers imageFeatures (image.width, image.height) task generations)
    (hlast : generations.getLast? = some finalGeneration) :
    worker.AnswersTask image imageFeatures task
      (worker.metadata image imageFeatures elapsedMs generations finalGeneration) where
  size := ⟨rfl, rfl⟩
  answers := hanswers
  tokens := hanswers.tokens_eq
  tokens_mem := by
    intro generation hmem
    obtain ⟨resolved, hgenerated⟩ := hanswers.exists_generated hmem
    exact hgenerated.decoded.tokens_mem
  grounded := by
    intro first second hsteps
    have hgenerations : generations = [first, second] := hsteps
    rw [hgenerations] at hanswers
    exact hanswers.grounding_prompt
  last := ⟨finalGeneration, hlast, rfl, rfl, rfl, rfl⟩
  result_get := by
    intro generation hmem
    obtain ⟨resolved, hgenerated⟩ := hanswers.exists_generated hmem
    obtain ⟨value, hvalue, -⟩ := hgenerated.result.exists_field
    refine ⟨value, hvalue, (combineGenerationResults_get hanswers.nodup).1 _ hmem value ?_⟩
    rw [hvalue, JsonValue.get, List.lookup_cons, beq_self_eq_true]
  result_only := by
    intro key hkey
    rw [← hanswers.tokens_eq] at hkey
    exact (combineGenerationResults_get hanswers.nodup).2 key hkey

/--
Metadata that `infer` returns belongs to the image and the task it was called with: the
generations are those of the task's plan on the features of this image, the grounding of
a cascaded task is about the text of its caption, the result has one entry for each
generation and no other, and the fields outside are those of the last generation.
-/
theorem infer_answers_task
    {rounds : Nat} {metadata : InferenceMetadata}
    (hinfer : worker.infer ops fromF32 imagePath read task elapsedMs rounds =
      .ok (some metadata)) :
    ∃ image imageFeatures, read = .decoded image ∧
      worker.imageFeatures ops fromF32 imagePath read = .ok (image, imageFeatures) ∧
      worker.AnswersTask image imageFeatures task metadata := by
  obtain ⟨⟨image, imageFeatures⟩, hfeatures, hinfer⟩ := bind_eq_ok.mp hinfer
  have hread : read = .decoded image := by
    obtain ⟨decoded, hdecoded, hrest⟩ := bind_eq_ok.mp hfeatures
    obtain ⟨input, -, hrest⟩ := bind_eq_ok.mp hrest
    obtain ⟨other, -, hrest⟩ := bind_eq_ok.mp hrest
    cases hrest
    cases read with
    | decoded image =>
        cases hdecoded
        rfl
    | notOpened => cases hdecoded
    | unknownFormat err => cases hdecoded
    | notDecoded => cases hdecoded
  refine ⟨image, imageFeatures, hread, hfeatures, ?_⟩
  obtain ⟨steps, hplan, hinfer⟩ := bind_eq_ok.mp hinfer
  cases hsteps : returnedSteps steps with
  | none =>
      rw [hsteps] at hinfer
      cases hinfer
  | some generations =>
      rw [hsteps] at hinfer
      obtain ⟨finalGeneration, hfinal, hinfer⟩ := bind_eq_ok.mp hinfer
      cases hinfer
      exact InferenceWorker.answersTask_of_answers
        (FlorenceWorker.answers_of_runTaskPlan hplan hsteps) (okOr_eq_ok hfinal)

/-- The inference gets to a text that the parser of regions does not get through. -/
def InferenceWorker.Hangs (worker : InferenceWorker F) (ops : FloatOps F) (fromF32 : F → F)
    (imagePath : PathBuf) (read : ImageRead) (task : TaskSpec) : Prop :=
  ∃ image imageFeatures,
    worker.imageFeatures ops fromF32 imagePath read = .ok (image, imageFeatures) ∧
      worker.PlanHangs imageFeatures task

/-- Behind the vision encoder an inference is at work for ever, or comes to an end. -/
theorem InferenceWorker.inferFeatures_settles
    (worker : InferenceWorker F) (image : DecodedImage) (imageFeatures : TensorData F)
    (task : TaskSpec) (elapsedMs : Nat) :
    (worker.PlanHangs imageFeatures task ∧
      ∀ rounds, worker.inferFeatures image task elapsedMs rounds imageFeatures = .ok none) ∨
    (¬ worker.PlanHangs imageFeatures task ∧ ∃ answer, answer ≠ .ok none ∧
      ∀ᶠ rounds in atTop,
        worker.inferFeatures image task elapsedMs rounds imageFeatures = answer) := by
  have hsettles :
      (worker.PlanHangs imageFeatures task ∧
        ∀ rounds, runTaskPlan
          (worker.generate imageFeatures (image.width, image.height) rounds) stepText task =
            .ok [none]) ∨
      (¬ worker.PlanHangs imageFeatures task ∧ ∃ answer, PlanReturned answer ∧
        ∀ᶠ rounds in atTop, runTaskPlan
          (worker.generate imageFeatures (image.width, image.height) rounds) stepText task =
            answer) := by
    cases htype : task.taskType with
    | single => exact FlorenceWorker.plan_settles_of_single _ htype
    | cascaded =>
        refine Or.inr ⟨?_, FlorenceWorker.plan_settles_of_cascaded _ htype⟩
        rintro ⟨resolved, metadata, hsingle, -⟩
        rw [htype] at hsingle
        cases hsingle
  rcases hsettles with ⟨hhangs, hplan⟩ | ⟨hreturns, answer, hreturned, hplan⟩
  · refine Or.inl ⟨hhangs, fun rounds => ?_⟩
    rw [inferFeatures, hplan]
    rfl
  · refine Or.inr ⟨hreturns, ?_⟩
    cases answer with
    | error failure =>
        refine ⟨.error failure, nofun, ?_⟩
        filter_upwards [hplan] with rounds hplan
        rw [inferFeatures, hplan]
        rfl
    | ok steps =>
        obtain ⟨generation, generations, hsteps⟩ := hreturned steps rfl
        refine ⟨.ok (some (worker.metadata image imageFeatures elapsedMs
          (generation :: generations)
          ((generation :: generations).getLast (List.cons_ne_nil _ _)))), nofun, ?_⟩
        filter_upwards [hplan] with rounds hplan
        rw [inferFeatures, hplan, ok_bind, hsteps]
        simp only [List.getLast?_eq_some_getLast (List.cons_ne_nil generation generations),
          okOr_some]
        rfl

/--
An inference that gets to a text with an opening `<loc_` without a token, under the task
`OCR_WITH_REGION`, never returns.  Every other one returns, with metadata or with an
error.
-/
theorem infer_hangs_iff
    (worker : InferenceWorker F) (ops : FloatOps F) (fromF32 : F → F)
    (imagePath : PathBuf) (read : ImageRead) (task : TaskSpec) (elapsedMs : Nat) :
    ((∀ rounds, worker.infer ops fromF32 imagePath read task elapsedMs rounds = .ok none) ↔
      worker.Hangs ops fromF32 imagePath read task) ∧
    (¬ worker.Hangs ops fromF32 imagePath read task →
      ∃ answer, answer ≠ .ok none ∧ ∀ᶠ rounds in atTop,
        worker.infer ops fromF32 imagePath read task elapsedMs rounds = answer) := by
  have hsettles :
      (worker.Hangs ops fromF32 imagePath read task ∧
        ∀ rounds, worker.infer ops fromF32 imagePath read task elapsedMs rounds = .ok none) ∨
      (¬ worker.Hangs ops fromF32 imagePath read task ∧ ∃ answer, answer ≠ .ok none ∧
        ∀ᶠ rounds in atTop,
          worker.infer ops fromF32 imagePath read task elapsedMs rounds = answer) := by
    cases hfeatures : worker.imageFeatures ops fromF32 imagePath read with
    | error failure =>
        refine Or.inr ⟨?_, .error failure, nofun, .of_forall fun rounds => ?_⟩
        · rintro ⟨image, imageFeatures, hother, -⟩
          rw [hfeatures] at hother
          cases hother
        · rw [InferenceWorker.infer, hfeatures]
          rfl
    | ok features =>
        obtain ⟨image, imageFeatures⟩ := features
        have hinfer : ∀ rounds,
            worker.infer ops fromF32 imagePath read task elapsedMs rounds =
              worker.inferFeatures image task elapsedMs rounds imageFeatures := by
          intro rounds
          rw [InferenceWorker.infer, hfeatures]
          rfl
        simp only [hinfer]
        rcases worker.inferFeatures_settles image imageFeatures task elapsedMs with
          ⟨hhangs, hnone⟩ | ⟨hreturns, hanswer⟩
        · exact Or.inl ⟨⟨image, imageFeatures, hfeatures, hhangs⟩, hnone⟩
        · refine Or.inr ⟨?_, hanswer⟩
          rintro ⟨other, otherFeatures, hother, hhangs⟩
          rw [hfeatures] at hother
          cases hother
          exact hreturns hhangs
  rcases hsettles with ⟨hhangs, hnone⟩ | ⟨hreturns, answer, hne, hanswer⟩
  · exact ⟨⟨fun _ => hhangs, fun _ => hnone⟩, fun hreturns => absurd hhangs hreturns⟩
  · refine ⟨⟨fun hnone => ?_, fun hhangs => absurd hhangs hreturns⟩,
      fun _ => ⟨answer, hne, hanswer⟩⟩
    obtain ⟨rounds, hrounds⟩ := hanswer.exists
    exact absurd (hrounds.symm.trans (hnone rounds)) hne

end Results

section Samples

/-- The worker of the sample decoders, with a tokenizer that always decodes to `text`. -/
def sampleInference (text : String) : InferenceWorker Nat :=
  { sampleWorker with
    tokenizer := { encode := fun _ => .ok [7], decode := fun _ => .ok text }
    visionEncoder := some (fun _ => .ok [("image_features", .float32 sampleFeatures)])
    imageInput := { inputName := "pixel_values", inputDtype := .float32 }
    backend := "ort:execution_providers=auto;detected_devices=none_reported"
    visionEncoderPath := defaultVisionEncoder
    modelVariant := .fp32 }

def sampleOps : FloatOps Nat where
  literal := fun value => value.num.toNat
  ofU8 := UInt8.toNat
  sub := fun left right => left - right
  div := fun left right => left / right

/-- A black image. -/
def sampleDecoded : DecodedImage where
  width := 640
  height := 480
  resized := List.replicate (3 * 768 * 768) 0

theorem sampleInference_imageFeatures (text : String) (imagePath : PathBuf) :
    (sampleInference text).imageFeatures sampleOps id imagePath (.decoded sampleDecoded) =
      .ok (sampleDecoded, sampleFeatures) := by
  have hside : sampleDecoded.resized.length = 3 * imageSide.toNat * imageSide.toNat :=
    List.length_replicate
  obtain ⟨chw, hrun, -, hplanes⟩ := exists_fillPlanes sampleOps hside
  have hinput : preprocessImage sampleOps sampleDecoded.resized = .ok chw.cells := by
    rw [preprocessImage, plane_eq, hrun]
    rfl
  have hlength : chw.cells.length = 3 * 768 * 768 := hplanes.length_eq
  have hvalue : (sampleInference text).imageValue id chw.cells =
      .ok (.ofFloats (imageTensor chw.cells).shape chw.cells) := by
    have hprod : ((imageTensor chw.cells).shape.map Int64.toInt).prod =
        (chw.cells.length : Int) := by
      rw [hlength]
      rfl
    simp only [InferenceWorker.imageValue, sampleInference, sampleWorker, OrtRuntime.fromArray,
      hprod, if_true]
  rw [InferenceWorker.imageFeatures, decodeImage, ok_bind, hinput, ok_bind,
    InferenceWorker.runVisionEncoder, hvalue]
  rfl

/-- A caption, and the phrases of that caption. -/
def sampleCascade : TaskSpec where
  taskType := .cascaded
  taskPrompt := .captionGrounding
  textInput := none

theorem exists_sampleCascade_metadata :
    ∃ metadata, (sampleInference "</s><s>a cat</s>").infer sampleOps id ["cat.png"]
      (.decoded sampleDecoded) sampleCascade 12 0 = .ok (some metadata) := by
  have hreturns : ((sampleInference "</s><s>a cat</s>").inferFeatures sampleDecoded
      sampleCascade 12 0 sampleFeatures).toOption.any Option.isSome = true := by
    decide +kernel
  rw [InferenceWorker.infer, sampleInference_imageFeatures, ok_bind]
  cases hinfer : (sampleInference "</s><s>a cat</s>").inferFeatures sampleDecoded sampleCascade 12 0
      sampleFeatures with
  | error failure =>
      rw [hinfer] at hreturns
      cases hreturns
  | ok answer =>
      cases answer with
      | none =>
          rw [hinfer] at hreturns
          cases hreturns
      | some metadata => exact ⟨metadata, rfl⟩

theorem infer_answers_task_sample :
    ∃ metadata, (sampleInference "</s><s>a cat</s>").infer sampleOps id ["cat.png"]
        (.decoded sampleDecoded) sampleCascade 12 0 = .ok (some metadata) ∧
      metadata.generations.map (fun generation => generation.taskToken) =
        ["<CAPTION>", "<CAPTION_TO_PHRASE_GROUNDING>"] ∧
      ∀ key, key ∉ ["<CAPTION>", "<CAPTION_TO_PHRASE_GROUNDING>"] →
        metadata.result.get key = none := by
  obtain ⟨metadata, hinfer⟩ := exists_sampleCascade_metadata
  obtain ⟨image, imageFeatures, -, -, hanswers⟩ := infer_answers_task hinfer
  exact ⟨metadata, hinfer, hanswers.tokens, hanswers.result_only⟩

def sampleRegions : TaskSpec where
  taskType := .single
  taskPrompt := .ocrWithRegion
  textInput := none

theorem sampleInference_generateOnce (text : String) (task : ResolvedTask)
    (hids : (sampleInference text).generatedIds sampleFeatures task.promptText =
      .ok [2, 5, 2]) :
    (sampleInference text).generateOnce sampleFeatures task =
      .ok
        { taskToken := task.taskToken
          promptText := task.promptText
          generatedText := cleanGeneratedText text.toList
          generatedTokens := 3 } := by
  rw [FlorenceWorker.generateOnce, hids]
  rfl

/-- A text that ends in an opening `<loc_` keeps the inference at work. -/
theorem infer_hangs_iff_sample :
    ∀ rounds, (sampleInference "total<loc_").infer sampleOps id ["scan.png"]
      (.decoded sampleDecoded) sampleRegions 12 rounds = .ok none := by
  refine (infer_hangs_iff (sampleInference "total<loc_") sampleOps id ["scan.png"]
    (.decoded sampleDecoded) sampleRegions 12).1.mpr ?_
  refine ⟨sampleDecoded, sampleFeatures, sampleInference_imageFeatures _ _,
    ⟨"<OCR_WITH_REGION>", "What is the text in the image, with regions?"⟩, _, rfl, rfl,
    sampleInference_generateOnce _ _ (by decide +kernel), rfl, ?_⟩
  intro hparses
  obtain ⟨token, htoken⟩ := hparses "total".toList [] (by decide)
  have hnone : parseLocTokenAt (cleanGeneratedText "total<loc_".toList)
      (byteLength "total".toList) = .ok none := by
    decide
  rw [hnone] at htoken
  cases htoken

end Samples

end FlorenceServer
