import Mathlib.Tactic

/-!
# Task specifications

The task fields of a submission: the two task types, the prompts each of them
offers, and the parsing of the request strings, as in `types/task.rs`.  The
submit handlers store the canonical names in the job record and
`job_request_from_record` parses them again when the job is queued.
-/

namespace FlorenceServer

section Text

/-- The characters with the Unicode property `White_Space`, as in `char::is_whitespace`. -/
def isWhitespace (c : Char) : Bool :=
  let n := c.toNat
  (9 ≤ n && n ≤ 13) || n == 0x20 || n == 0x85 || n == 0xA0 || n == 0x1680 ||
    (0x2000 ≤ n && n ≤ 0x200A) || n == 0x2028 || n == 0x2029 || n == 0x202F ||
    n == 0x205F || n == 0x3000

/-- `str::trim` on the characters of a text. -/
def trimChars (cs : List Char) : List Char :=
  ((cs.dropWhile isWhitespace).reverse.dropWhile isWhitespace).reverse

/-- `str::trim`. -/
def trim (text : String) : String :=
  String.ofList (trimChars text.toList)

end Text

inductive TaskType where
  | single
  | cascaded
deriving DecidableEq, Repr

inductive TaskPrompt where
  | caption
  | detailedCaption
  | moreDetailedCaption
  | objectDetection
  | denseRegionCaption
  | regionProposal
  | captionToPhraseGrounding
  | referringExpressionSegmentation
  | regionToSegmentation
  | openVocabularyDetection
  | regionToCategory
  | regionToDescription
  | ocr
  | ocrWithRegion
  | captionGrounding
  | detailedCaptionGrounding
  | moreDetailedCaptionGrounding
deriving DecidableEq, Repr

inductive TaskSpecError where
  | unsupportedTaskType (taskType : String)
  | unsupportedTaskPrompt (taskType : TaskType) (taskPrompt : String)
deriving DecidableEq, Repr

structure TaskSpec where
  taskType : TaskType
  taskPrompt : TaskPrompt
  textInput : Option String
deriving DecidableEq, Repr

/-- `TaskSpec::default`. -/
def TaskSpec.default : TaskSpec where
  taskType := .single
  taskPrompt := .caption
  textInput := none

namespace TaskType

def parse (value : String) : Except TaskSpecError TaskType :=
  let value := trim value
  if value = "Single task" then
    .ok .single
  else if value = "Cascased task" ∨ value = "Cascaded task" then
    -- the misspelled label is the one that `asStr` keeps writing
    .ok .cascaded
  else
    .error (.unsupportedTaskType value)

def asStr : TaskType → String
  | .single => "Single task"
  | .cascaded => "Cascased task"

def prompts : TaskType → List TaskPrompt
  | .single =>
      [.caption, .detailedCaption, .moreDetailedCaption, .objectDetection,
        .denseRegionCaption, .regionProposal, .captionToPhraseGrounding,
        .referringExpressionSegmentation, .regionToSegmentation,
        .openVocabularyDetection, .regionToCategory, .regionToDescription,
        .ocr, .ocrWithRegion]
  | .cascaded =>
      [.captionGrounding, .detailedCaptionGrounding,
        .moreDetailedCaptionGrounding]

end TaskType

namespace TaskPrompt

def asStr : TaskPrompt → String
  | .caption => "Caption"
  | .detailedCaption => "Detailed Caption"
  | .moreDetailedCaption => "More Detailed Caption"
  | .objectDetection => "Object Detection"
  | .denseRegionCaption => "Dense Region Caption"
  | .regionProposal => "Region Proposal"
  | .captionToPhraseGrounding => "Caption to Phrase Grounding"
  | .referringExpressionSegmentation => "Referring Expression Segmentation"
  | .regionToSegmentation => "Region to Segmentation"
  | .openVocabularyDetection => "Open Vocabulary Detection"
  | .regionToCategory => "Region to Category"
  | .regionToDescription => "Region to Description"
  | .ocr => "OCR"
  | .ocrWithRegion => "OCR with Region"
  | .captionGrounding => "Caption + Grounding"
  | .detailedCaptionGrounding => "Detailed Caption + Grounding"
  | .moreDetailedCaptionGrounding => "More Detailed Caption + Grounding"

def parseForType (taskType : TaskType) (value : String) :
    Except TaskSpecError TaskPrompt :=
  let value := trim value
  match taskType.prompts.find? (fun prompt => prompt.asStr == value) with
  | some prompt => .ok prompt
  | none => .error (.unsupportedTaskPrompt taskType value)

end TaskPrompt

/-- `normalize_optional_text`. -/
def normalizeOptionalText (text : String) : Option String :=
  let text := trim text
  if text.isEmpty then none else some text

namespace TaskSpec

/-- `TaskSpec::new`: the prompt must be one of the type's own prompts. -/
def new (taskType : TaskType) (taskPrompt : TaskPrompt)
    (textInput : Option String) : Except TaskSpecError TaskSpec :=
  if taskPrompt ∈ taskType.prompts then
    .ok { taskType, taskPrompt, textInput }
  else
    .error (.unsupportedTaskPrompt taskType taskPrompt.asStr)

/-- `TaskSpec::from_strings`; an absent field takes its default. -/
def fromStrings (taskType taskPrompt textInput : Option String) :
    Except TaskSpecError TaskSpec := do
  let taskType ←
    match taskType with
    | some value => TaskType.parse value
    | none => .ok TaskSpec.default.taskType
  let taskPrompt ←
    match taskPrompt with
    | some value => TaskPrompt.parseForType taskType value
    | none => .ok TaskSpec.default.taskPrompt
  let textInput := textInput.bind normalizeOptionalText
  TaskSpec.new taskType taskPrompt textInput

def taskTypeName (task : TaskSpec) : String :=
  task.taskType.asStr

def taskPromptName (task : TaskSpec) : String :=
  task.taskPrompt.asStr

example :
    fromStrings (some " Cascaded task ") (some "Caption + Grounding") (some "  ") =
      .ok { taskType := .cascaded, taskPrompt := .captionGrounding, textInput := none } := by
  decide

end TaskSpec
end FlorenceServer
