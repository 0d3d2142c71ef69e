import FlorenceServer.Lib.Fallible
import FlorenceServer.Types.CanonicalTask
import FlorenceServer.Inference.Decoding

/-!
# From a task to its generations

A task prompt is resolved to the task token of the model and to the text of its
instruction.  A cascaded task generates a caption first and then looks for the
phrases of that caption in the image.  The generation itself is a parameter.

* `runTaskPlan_outcome`: a canonical task is never unsupported.  Its plan ends
  with one generation, or with two for a cascaded task, unless a generation
  fails or the text that an instruction needs is missing.
-/

namespace FlorenceServer

namespace TaskPrompt

/-- `single_task_token`. -/
def singleTaskToken : TaskPrompt → Option String
  | .caption => some "<CAPTION>"
  | .detailedCaption => some "<DETAILED_CAPTION>"
  | .moreDetailedCaption => some "<MORE_DETAILED_CAPTION>"
  | .objectDetection => some "<OD>"
  | .denseRegionCaption => some "<DENSE_REGION_CAPTION>"
  | .regionProposal => some "<REGION_PROPOSAL>"
  | .captionToPhraseGrounding => some "<CAPTION_TO_PHRASE_GROUNDING>"
  | .referringExpressionSegmentation => some "<REFERRING_EXPRESSION_SEGMENTATION>"
  | .regionToSegmentation => some "<REGION_TO_SEGMENTATION>"
  | .openVocabularyDetection => some "<OPEN_VOCABULARY_DETECTION>"
  | .regionToCategory => some "<REGION_TO_CATEGORY>"
  | .regionToDescription => some "<REGION_TO_DESCRIPTION>"
  | .ocr => some "<OCR>"
  | .ocrWithRegion => some "<OCR_WITH_REGION>"
  | .captionGrounding | .detailedCaptionGrounding | .moreDetailedCaptionGrounding => none

/-- `cascaded_caption_token`. -/
def cascadedCaptionToken : TaskPrompt → Option String
  | .captionGrounding => some "<CAPTION>"
  | .detailedCaptionGrounding => some "<DETAILED_CAPTION>"
  | .moreDetailedCaptionGrounding => some "<MORE_DETAILED_CAPTION>"
  | _ => none

end TaskPrompt

section Resolution

/-- `required_text_input`. -/
def requiredTextInput (taskToken : String) (textInput : Option String) :
    Except InferenceFailure String :=
  okOr ((textInput.map trim).filter (fun value => !value.isEmpty))
    ("task " ++ taskToken ++ " requires text_input")

/-- `prompt_text_for_task`. -/
def promptTextForTask (taskToken : String) (textInput : Option String) :
    Except InferenceFailure String :=
  match taskToken with
  | "<OCR>" => .ok "What is the text in the image?"
  | "<OCR_WITH_REGION>" => .ok "What is the text in the image, with regions?"
  | "<CAPTION>" => .ok "What does the image describe?"
  | "<DETAILED_CAPTION>" => .ok "Describe in detail what is shown in the image."
  | "<MORE_DETAILED_CAPTION>" =>
      .ok "Describe with a paragraph what is shown in the image."
  | "<OD>" => .ok "Locate the objects with category name in the image."
  | "<DENSE_REGION_CAPTION>" =>
      .ok "Locate the objects in the image, with their descriptions."
  | "<REGION_PROPOSAL>" => .ok "Locate the region proposals in the image."
  | "<CAPTION_TO_PHRASE_GROUNDING>" => do
      let text ← requiredTextInput taskToken textInput
      .ok ("Locate the phrases in the caption: " ++ text)
  | "<REFERRING_EXPRESSION_SEGMENTATION>" => do
      let text ← requiredTextInput taskToken textInput
      .ok ("Locate " ++ text ++ " in the image with mask")
  | "<REGION_TO_SEGMENTATION>" => do
      let text ← requiredTextInput taskToken textInput
      .ok ("What is the polygon mask of region " ++ text)
  | "<OPEN_VOCABULARY_DETECTION>" => do
      let text ← requiredTextInput taskToken textInput
      .ok ("Locate " ++ text ++ " in the image.")
  | "<REGION_TO_CATEGORY>" => do
      let text ← requiredTextInput taskToken textInput
      .ok ("What is the region " ++ text ++ "?")
  | "<REGION_TO_DESCRIPTION>" => do
      let text ← requiredTextInput taskToken textInput
      .ok ("What does the region " ++ text ++ " describe?")
  | other => .error (.message ("unsupported Florence task token `" ++ other ++ "`"))

namespace ResolvedTask

/-- `ResolvedTask::new`. -/
def new (taskToken : String) (textInput : Option String) :
    Except InferenceFailure ResolvedTask := do
  let promptText ← promptTextForTask taskToken textInput
  .ok { taskToken, promptText }

/-- `ResolvedTask::from_task_spec`. -/
def fromTaskSpec (task : TaskSpec) : Except InferenceFailure ResolvedTask := do
  let taskToken ← okOr task.taskPrompt.singleTaskToken
    ("unsupported single task prompt `" ++ task.taskPromptName ++ "`")
  new taskToken task.textInput

end ResolvedTask

variable {G : Type}

/-- `run_task_plan`; a generation is turned into text by `generation_text_for_input`. -/
def runTaskPlan (generateOnce : ResolvedTask → Except InferenceFailure G)
    (generationTextForInput : G → String) (task : TaskSpec) :
    Except InferenceFailure (List G) :=
  match task.taskType with
  | .cascaded => do
      let captionToken ← okOr task.taskPrompt.cascadedCaptionToken
        ("unsupported cascaded task prompt `" ++ task.taskPromptName ++ "`")
      let caption ← ResolvedTask.new captionToken none
      let first ← generateOnce caption
      let groundingInput := generationTextForInput first
      let grounding ← ResolvedTask.new "<CAPTION_TO_PHRASE_GROUNDING>" (some groundingInput)
      let second ← generateOnce grounding
      .ok [first, second]
  | .single => do
      let resolved ← ResolvedTask.fromTaskSpec task
      let step ← generateOnce resolved
      .ok [step]

end Resolution

section Tokens

variable {prompt : TaskPrompt} {token : String}

theorem exists_singleTaskToken
    (hoffered : prompt ∈ TaskType.single.prompts) :
    ∃ token, prompt.singleTaskToken = some token := by
  cases prompt <;>
    first
    | exact ⟨_, rfl⟩
    | simp [TaskType.prompts] at hoffered

/-- The instruction of a single task is a fixed text, or made of the required text. -/
theorem promptTextForTask_of_singleTaskToken
    (htoken : prompt.singleTaskToken = some token) :
    (∃ text, ∀ textInput, promptTextForTask token textInput = .ok text) ∨
    (∃ render : String → String, ∀ textInput,
      promptTextForTask token textInput =
        requiredTextInput token textInput >>= fun text => .ok (render text)) := by
  cases prompt <;> cases htoken <;>
    first
    | exact Or.inl ⟨_, fun _ => rfl⟩
    | exact Or.inr ⟨_, fun _ => rfl⟩

theorem promptTextForTask_grounding
    (textInput : Option String) :
    promptTextForTask "<CAPTION_TO_PHRASE_GROUNDING>" textInput =
      requiredTextInput "<CAPTION_TO_PHRASE_GROUNDING>" textInput >>= fun text =>
        .ok ("Locate the phrases in the caption: " ++ text) :=
  rfl

/-- The captions of the cascaded tasks need no text. -/
theorem exists_new_of_offered
    (hoffered : prompt ∈ TaskType.cascaded.prompts) :
    ∃ token caption, prompt.cascadedCaptionToken = some token ∧
      ResolvedTask.new token none = .ok caption := by
  cases prompt <;>
    first
    | exact ⟨_, _, rfl, rfl⟩
    | simp [TaskType.prompts] at hoffered

theorem requiredTextInput_some
    {text : String}
    (hne : trim text ≠ "") :
    requiredTextInput token (some text) = .ok (trim text) := by
  have hkept : (!(trim text).isEmpty) = true := by
    simpa [String.isEmpty_iff] using hne
  rw [requiredTextInput, Option.map_some, Option.filter_some, if_pos hkept]
  rfl

theorem requiredTextInput_blank
    {text : String}
    (hblank : trim text = "") :
    requiredTextInput token (some text) =
      .error (.message ("task " ++ token ++ " requires text_input")) := by
  rw [requiredTextInput, Option.map_some, hblank]
  rfl

end Tokens

section Plans

variable {G : Type}

/-- How the plan of a supported task ends. -/
inductive PlanOutcome (generateOnce : ResolvedTask → Except InferenceFailure G)
    (generationTextForInput : G → String) (task : TaskSpec) :
    Except InferenceFailure (List G) → Prop where
  | single (generation : G)
      (htype : task.taskType = .single) :
      PlanOutcome generateOnce generationTextForInput task (.ok [generation])
  | cascaded (first second : G)
      (htype : task.taskType = .cascaded) :
      PlanOutcome generateOnce generationTextForInput task (.ok [first, second])
  | failed (resolved : ResolvedTask) (failure : InferenceFailure)
      (hgenerate : generateOnce resolved = .error failure) :
      PlanOutcome generateOnce generationTextForInput task (.error failure)
  /-- the request came without the text that its instruction needs -/
  | withoutText (token : String)
      (htype : task.taskType = .single)
      (htext : task.textInput = none) :
      PlanOutcome generateOnce generationTextForInput task
        (.error (.message ("task " ++ token ++ " requires text_input")))
  /-- the generated caption is blank -/
  | withoutCaption (caption : ResolvedTask) (first : G)
      (htype : task.taskType = .cascaded)
      (hgenerate : generateOnce caption = .ok first)
      (hblank : trim (generationTextForInput first) = "") :
      PlanOutcome generateOnce generationTextForInput task
        (.error (.message
          ("task " ++ "<CAPTION_TO_PHRASE_GROUNDING>" ++ " requires text_input")))

variable {task : TaskSpec}

/-- A canonical single task is resolved, unless its text is missing. -/
theorem fromTaskSpec_cases
    (hcanonical : task.Canonical)
    (htype : task.taskType = .single) :
    (∃ resolved, ResolvedTask.fromTaskSpec task = .ok resolved) ∨
    ∃ token, task.textInput = none ∧
      ResolvedTask.fromTaskSpec task =
        .error (.message ("task " ++ token ++ " requires text_input")) := by
  obtain ⟨token, htoken⟩ := exists_singleTaskToken (htype ▸ hcanonical.offered)
  have hresolve : ResolvedTask.fromTaskSpec task =
      promptTextForTask token task.textInput >>= fun promptText =>
        .ok { taskToken := token, promptText := promptText } := by
    rw [ResolvedTask.fromTaskSpec, htoken]
    rfl
  rw [hresolve]
  rcases promptTextForTask_of_singleTaskToken htoken with
    ⟨text, hprompt⟩ | ⟨render, hprompt⟩
  · rw [hprompt]
    exact Or.inl ⟨_, rfl⟩
  · rw [hprompt]
    cases htext : task.textInput with
    | none =>
        exact Or.inr ⟨token, rfl, rfl⟩
    | some text =>
        obtain ⟨htrim, hne⟩ :=
          normalizeOptionalText_eq_some_iff.mp (hcanonical.normalized text htext)
        rw [requiredTextInput_some (htrim.symm ▸ hne)]
        exact Or.inl ⟨_, rfl⟩

/-- The second half of a cascaded plan: the caption becomes the text of the grounding. -/
theorem planOutcome_grounding
    (generateOnce : ResolvedTask → Except InferenceFailure G)
    (generationTextForInput : G → String)
    {caption : ResolvedTask} {first : G}
    (htype : task.taskType = .cascaded)
    (hgenerate : generateOnce caption = .ok first) :
    PlanOutcome generateOnce generationTextForInput task
      (ResolvedTask.new "<CAPTION_TO_PHRASE_GROUNDING>"
          (some (generationTextForInput first)) >>= fun grounding =>
        generateOnce grounding >>= fun second => .ok [first, second]) := by
  simp only [ResolvedTask.new, promptTextForTask_grounding]
  by_cases hblank : trim (generationTextForInput first) = ""
  · rw [requiredTextInput_blank hblank]
    exact .withoutCaption caption first htype hgenerate hblank
  · rw [requiredTextInput_some hblank]
    simp only [ok_bind]
    cases hgrounding : generateOnce _ with
    | error failure =>
        exact .failed _ failure hgrounding
    | ok second =>
        exact .cascaded first second htype

/-- The plan of a canonical task does not fail because the task is unsupported. -/
theorem runTaskPlan_outcome
    (generateOnce : ResolvedTask → Except InferenceFailure G)
    (generationTextForInput : G → String)
    (hcanonical : task.Canonical) :
    PlanOutcome generateOnce generationTextForInput task
      (runTaskPlan generateOnce generationTextForInput task) := by
  unfold runTaskPlan
  cases htype : task.taskType with
  | single =>
      rcases fromTaskSpec_cases hcanonical htype with
        ⟨resolved, hresolved⟩ | ⟨token, htext, hmissing⟩
      · rw [hresolved]
        simp only [ok_bind]
        cases hgenerate : generateOnce resolved with
        | error failure =>
            exact .failed resolved failure hgenerate
        | ok generation =>
            exact .single generation htype
      · rw [hmissing]
        exact .withoutText token htype htext
  | cascaded =>
      obtain ⟨token, caption, htoken, hcaption⟩ :=
        exists_new_of_offered (htype ▸ hcanonical.offered)
      simp only [htoken, okOr_some, ok_bind, hcaption]
      cases hgenerate : generateOnce caption with
      | error failure =>
          exact .failed caption failure hgenerate
      | ok first =>
          simp only [ok_bind]
          exact planOutcome_grounding generateOnce generationTextForInput htype hgenerate

end Plans
end FlorenceServer
