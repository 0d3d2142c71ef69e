import FlorenceServer.Inference.GeneratedTokens
import FlorenceServer.Inference.OcrCursors
import FlorenceServer.Inference.TaskPlan

/-!
# Generations and their results

What `generate_once` returns beside the text: `post_process_generation` makes a JSON
value of it, `generation_text_for_input` takes the text for a following generation out
of that value, and `combine_generation_results` collects the values of a plan.

The loops of `parse_ocr_regions` need not end.  They are run for so many rounds, and a
generation whose text is still being parsed then is `none`.

* `generate_settles`: a generation is `none` for ever only if its task is
  `OCR_WITH_REGION` and its text has an opening `<loc_` that no token follows.
* `Generated.textForInput_eq`: whatever the result looks like, the text handed on is the
  generated text.
-/

namespace FlorenceServer

section Values

/-- `serde_json::Value`; a number is its exact value, the order of the fields of an
object is left open. -/
inductive JsonValue where
  | null
  | bool (value : Bool)
  | number (value : ℚ)
  | string (text : String)
  | array (items : List JsonValue)
  | object (fields : List (String × JsonValue))

namespace JsonValue

/-- `Value::get`. -/
def get : JsonValue → String → Option JsonValue
  | .object fields, key => fields.lookup key
  | .null, _ | .bool _, _ | .number _, _ | .string _, _ | .array _, _ => none

/-- `Value::as_str`. -/
def asStr : JsonValue → Option String
  | .string text => some text
  | .null | .bool _ | .number _ | .array _ | .object _ => none

end JsonValue

/-- `Map::insert`: an older value of the key is replaced. -/
def insertField (fields : List (String × JsonValue)) (key : String) (value : JsonValue) :
    List (String × JsonValue) :=
  (key, value) :: fields.filter (fun field => field.1 != key)

theorem lookup_filter_ne
    {key other : String} (hother : other ≠ key) (fields : List (String × JsonValue)) :
    (fields.filter (fun field => field.1 != key)).lookup other = fields.lookup other := by
  induction fields with
  | nil =>
      rfl
  | cons field fields ih =>
      obtain ⟨name, value⟩ := field
      rw [List.filter_cons, List.lookup_cons]
      by_cases hname : name = key
      · have hne : (other == name) = false := by
          rw [hname]
          exact beq_eq_false_iff_ne.mpr hother
        rw [if_neg (by simp [hname]), ih, hne]
      · rw [if_pos (bne_iff_ne.mpr hname), List.lookup_cons, ih]

/-- The inserted value is found under its key, the others as before. -/
theorem lookup_insertField
    (fields : List (String × JsonValue)) (key other : String) (value : JsonValue) :
    (insertField fields key value).lookup other =
      if other = key then some value else fields.lookup other := by
  rw [insertField, List.lookup_cons]
  by_cases hother : other = key
  · rw [if_pos hother, beq_iff_eq.mpr hother]
  · rw [if_neg hother, beq_eq_false_iff_ne.mpr hother]
    exact lookup_filter_ne hother fields

/-- `json!({ "x": x, "y": y })`. -/
def pointValue (point : ℚ × ℚ) : JsonValue :=
  .object [("x", .number point.1), ("y", .number point.2)]

def BoundingBox.toValue (bbox : BoundingBox) : JsonValue :=
  .object
    [("x_min", .number bbox.xMin), ("y_min", .number bbox.yMin),
      ("x_max", .number bbox.xMax), ("y_max", .number bbox.yMax),
      ("width", .number bbox.width), ("height", .number bbox.height)]

/-- The value that `ocr_region_item` makes of a region. -/
def OcrRegionItem.toValue (item : OcrRegionItem) : JsonValue :=
  .object
    [("text", .string (String.ofList item.text)), ("bbox", item.bbox.toValue),
      ("bbox_xyxy", .array (item.bboxXyxy.map .number)),
      ("polygon", .array (item.polygon.map pointValue)),
      ("loc_tokens", .array (item.locTokens.map (fun loc => .number loc)))]

end Values

section PostProcessing

/-- The token of the task `OCR with Region`. -/
def ocrWithRegionToken : String :=
  "<OCR_WITH_REGION>"

/-- The result for a text that has no regions. -/
def plainResult (taskToken : String) (generatedText : List Char) : JsonValue :=
  .object [(taskToken, .string (String.ofList generatedText))]

/-- The result for a text with regions. -/
def regionResult (taskToken : String) (generatedText : List Char)
    (items : List OcrRegionItem) : JsonValue :=
  .object
    [(taskToken, .object
      [("raw", .string (String.ofList generatedText)),
        ("items", .array (items.map OcrRegionItem.toValue))])]

/-- `post_process_generation`, with so many loop conditions of `parse_ocr_regions`. -/
def postProcessGeneration (taskToken : String) (generatedText : List Char)
    (imageSize : Nat × Nat) (rounds : Nat) : Except InferenceFailure (Option JsonValue) :=
  if taskToken ≠ ocrWithRegionToken then
    .ok (some (plainResult taskToken generatedText))
  else
    match parseOcrRegions generatedText imageSize rounds with
    | .returned items =>
        if items.isEmpty then .ok (some (plainResult taskToken generatedText))
        else .ok (some (regionResult taskToken generatedText items))
    | .panicked => .error .panic
    | .searching _ _ | .collecting _ _ _ => .ok none

/-- What `post_process_generation` makes of a text. -/
inductive ResultOf (taskToken : String) (generatedText : List Char) (imageSize : Nat × Nat) :
    JsonValue → Prop where
  | text
      (htoken : taskToken ≠ ocrWithRegionToken) :
      ResultOf taskToken generatedText imageSize (plainResult taskToken generatedText)
  | noRegions (rounds : Nat)
      (htoken : taskToken = ocrWithRegionToken)
      (hparsed : parseOcrRegions generatedText imageSize rounds = .returned []) :
      ResultOf taskToken generatedText imageSize (plainResult taskToken generatedText)
  | regions (rounds : Nat) (items : List OcrRegionItem)
      (htoken : taskToken = ocrWithRegionToken)
      (hparsed : parseOcrRegions generatedText imageSize rounds = .returned items)
      (hne : items ≠ []) :
      ResultOf taskToken generatedText imageSize (regionResult taskToken generatedText items)

variable {taskToken : String} {generatedText : List Char} {imageSize : Nat × Nat}

/-- The result has one field, under the token of the task. -/
theorem ResultOf.exists_field
    {result : JsonValue}
    (hresult : ResultOf taskToken generatedText imageSize result) :
    ∃ value, result = .object [(taskToken, value)] ∧
      (value.asStr = none ∨ value.asStr = some (String.ofList generatedText)) := by
  cases hresult with
  | text htoken => exact ⟨_, rfl, Or.inr rfl⟩
  | noRegions rounds htoken hparsed => exact ⟨_, rfl, Or.inr rfl⟩
  | regions rounds items htoken hparsed hne => exact ⟨_, rfl, Or.inl rfl⟩

/-- Post-processing returns the result of the text, or is still at work on it. -/
theorem postProcessGeneration_cases
    (taskToken : String) (generatedText : List Char) (imageSize : Nat × Nat) (rounds : Nat) :
    (∃ result, ResultOf taskToken generatedText imageSize result ∧
      postProcessGeneration taskToken generatedText imageSize rounds = .ok (some result)) ∨
    (taskToken = ocrWithRegionToken ∧
      (∀ items, parseOcrRegions generatedText imageSize rounds ≠ .returned items) ∧
      postProcessGeneration taskToken generatedText imageSize rounds = .ok none) := by
  unfold postProcessGeneration
  by_cases htoken : taskToken ≠ ocrWithRegionToken
  · rw [if_pos htoken]
    exact Or.inl ⟨_, .text htoken, rfl⟩
  · rw [if_neg htoken]
    rw [ne_eq, not_not] at htoken
    have hstate := (parseOcrRegions_splits imageSize generatedText rounds).onBoundaries
    cases hparsed : parseOcrRegions generatedText imageSize rounds with
    | returned items =>
        left
        cases items with
        | nil => exact ⟨_, .noRegions rounds htoken hparsed, rfl⟩
        | cons item items => exact ⟨_, .regions rounds _ htoken hparsed (List.cons_ne_nil _ _), rfl⟩
    | panicked =>
        rw [hparsed] at hstate
        exact hstate.elim
    | searching items cursor => exact Or.inr ⟨htoken, nofun, rfl⟩
    | collecting items cursor run => exact Or.inr ⟨htoken, nofun, rfl⟩

/-- The parser has returned for good. -/
theorem parseOcrRegions_returned_later
    {rounds later : Nat} {items : List OcrRegionItem}
    (hparsed : parseOcrRegions generatedText imageSize rounds = .returned items)
    (hlater : rounds ≤ later) :
    parseOcrRegions generatedText imageSize later = .returned items := by
  obtain ⟨more, rfl⟩ := Nat.exists_eq_add_of_le' hlater
  unfold parseOcrRegions at hparsed ⊢
  rw [Function.iterate_add_apply, hparsed, ocrStep_returned]

/-- A text that the parser gets through has its result from some round on. -/
theorem exists_postProcessGeneration
    (imageSize : Nat × Nat)
    (hparses : taskToken = ocrWithRegionToken → EveryLocTokenParses generatedText) :
    ∃ rounds result, ResultOf taskToken generatedText imageSize result ∧
      ∀ later, rounds ≤ later →
        postProcessGeneration taskToken generatedText imageSize later = .ok (some result) := by
  by_cases htoken : taskToken = ocrWithRegionToken
  · obtain ⟨rounds, items, hparsed⟩ :=
      (OcrCursorAdvances.of_everyLocTokenParses imageSize (hparses htoken)).terminates imageSize
    have hlater : ∀ later, rounds ≤ later →
        postProcessGeneration taskToken generatedText imageSize later =
          if items.isEmpty then .ok (some (plainResult taskToken generatedText))
          else .ok (some (regionResult taskToken generatedText items)) := by
      intro later hle
      rw [postProcessGeneration, if_neg (not_not.mpr htoken),
        parseOcrRegions_returned_later hparsed hle]
    cases items with
    | nil => exact ⟨rounds, _, .noRegions rounds htoken hparsed, hlater⟩
    | cons item items =>
        exact ⟨rounds, _, .regions rounds _ htoken hparsed (List.cons_ne_nil _ _), hlater⟩
  · exact ⟨0, _, .text htoken, fun later _ => if_pos htoken⟩

/-- On any other text it is at work for ever. -/
theorem postProcessGeneration_of_malformed
    (hmalformed : ¬ EveryLocTokenParses generatedText) (rounds : Nat) :
    postProcessGeneration ocrWithRegionToken generatedText imageSize rounds = .ok none := by
  rcases postProcessGeneration_cases ocrWithRegionToken generatedText imageSize rounds with
    ⟨result, hresult, -⟩ | ⟨-, -, hnone⟩
  · have hends : OcrLoopTerminates generatedText imageSize := by
      cases hresult with
      | text htoken => exact absurd rfl htoken
      | noRegions rounds htoken hparsed => exact ⟨rounds, [], hparsed⟩
      | regions rounds items htoken hparsed hne => exact ⟨rounds, items, hparsed⟩
    exact absurd (hends.everyLocTokenParses imageSize) hmalformed
  · exact hnone

end PostProcessing

section Generating

/-- `GenerationMetadata`, with its `result`. -/
structure Generation extends GenerationMetadata where
  result : JsonValue

/-- `generation_text_for_input`. -/
def generationTextForInput (generation : Generation) : String :=
  ((generation.result.get generation.taskToken).bind JsonValue.asStr).getD
    (String.ofList generation.generatedText)

variable {F : Type} [LinearOrder F]

/-- `generate_once`, with so many loop conditions of `parse_ocr_regions`. -/
def FlorenceWorker.generate (worker : FlorenceWorker F) (imageFeatures : TensorData F)
    (imageSize : Nat × Nat) (rounds : Nat) (task : ResolvedTask) :
    Except InferenceFailure (Option Generation) := do
  let metadata ← worker.generateOnce imageFeatures task
  let result ← postProcessGeneration metadata.taskToken metadata.generatedText imageSize rounds
  .ok (result.map (Generation.mk metadata))

variable
  {worker : FlorenceWorker F}
  {imageFeatures : TensorData F}
  {imageSize : Nat × Nat}
  {task : ResolvedTask}

/-- What `generate_once` knows of a task before it looks at the text. -/
structure FlorenceWorker.Decoded (worker : FlorenceWorker F) (imageFeatures : TensorData F)
    (task : ResolvedTask) (metadata : GenerationMetadata) : Prop where
  taskToken : metadata.taskToken = task.taskToken
  promptText : metadata.promptText = task.promptText
  text : ∃ ids rawText, worker.generatedIds imageFeatures task.promptText = .ok ids ∧
    worker.tokenizer.decode (ids.filterMap u32TryFrom) = .ok rawText ∧
    metadata.generatedText = cleanGeneratedText rawText.toList ∧
    metadata.generatedTokens = ids.length

/-- The generation is the one of the task, and its result the one of its text. -/
structure FlorenceWorker.Generated (worker : FlorenceWorker F) (imageFeatures : TensorData F)
    (imageSize : Nat × Nat) (task : ResolvedTask) (generation : Generation) : Prop where
  decoded : worker.Decoded imageFeatures task generation.toGenerationMetadata
  result : ResultOf generation.taskToken generation.generatedText imageSize generation.result

theorem FlorenceWorker.decoded_of_generateOnce
    {metadata : GenerationMetadata}
    (hgenerate : worker.generateOnce imageFeatures task = .ok metadata) :
    worker.Decoded imageFeatures task metadata := by
  obtain ⟨ids, hids, hgenerate⟩ := bind_eq_ok.mp hgenerate
  split at hgenerate
  · cases hgenerate
  · rename_i rawText hdecode
    cases hgenerate
    exact ⟨rfl, rfl, ids, rawText, hids, hdecode, rfl, rfl⟩

/-- The start token is counted, and at most one token for each round of the loop. -/
theorem FlorenceWorker.Decoded.tokens_mem
    {metadata : GenerationMetadata}
    (hdecoded : worker.Decoded imageFeatures task metadata) :
    1 ≤ metadata.generatedTokens ∧ metadata.generatedTokens ≤ worker.maxNewTokens + 1 := by
  obtain ⟨ids, rawText, hids, -, -, hlength⟩ := hdecoded.text
  obtain ⟨inputs, -, hloop⟩ := bind_eq_ok.mp hids
  obtain ⟨added, hadded, hbound, -⟩ := FlorenceWorker.appended_of_decodeLoop hloop
  rw [hlength, hadded, List.length_append, List.length_singleton]
  omega

/-- The generated text has no blanks at its ends. -/
theorem FlorenceWorker.Decoded.trim_text
    {metadata : GenerationMetadata}
    (hdecoded : worker.Decoded imageFeatures task metadata) :
    trim (String.ofList metadata.generatedText) = String.ofList metadata.generatedText := by
  obtain ⟨ids, rawText, -, -, htext, -⟩ := hdecoded.text
  have htrimmed : trimChars metadata.generatedText = metadata.generatedText := by
    rw [htext]
    exact trimBlank_of_trimmed (trimmed_trimBlank isWhitespace _)
  rw [trim, String.toList_ofList, htrimmed]

theorem FlorenceWorker.generate_of_decoded
    {metadata : GenerationMetadata}
    (hgenerate : worker.generateOnce imageFeatures task = .ok metadata) (rounds : Nat) :
    worker.generate imageFeatures imageSize rounds task =
      postProcessGeneration metadata.taskToken metadata.generatedText imageSize rounds >>=
        fun result => .ok (result.map (Generation.mk metadata)) := by
  rw [generate, hgenerate]
  rfl

theorem FlorenceWorker.generated_of_generate
    {rounds : Nat} {generation : Generation}
    (hgenerate : worker.generate imageFeatures imageSize rounds task = .ok (some generation)) :
    worker.Generated imageFeatures imageSize task generation := by
  obtain ⟨metadata, hmetadata, hgenerate⟩ := bind_eq_ok.mp hgenerate
  obtain ⟨result, hresult, hgenerate⟩ := bind_eq_ok.mp hgenerate
  have hdecoded := decoded_of_generateOnce hmetadata
  rcases postProcessGeneration_cases metadata.taskToken metadata.generatedText imageSize rounds
    with ⟨value, hvalue, heq⟩ | ⟨-, -, heq⟩
  · rw [heq] at hresult
    cases hresult
    cases hgenerate
    exact ⟨hdecoded, hvalue⟩
  · rw [heq] at hresult
    cases hresult
    cases hgenerate

/-- A text that the parser does not get through. -/
def GenerationMetadata.Hangs (metadata : GenerationMetadata) : Prop :=
  metadata.taskToken = ocrWithRegionToken ∧ ¬ EveryLocTokenParses metadata.generatedText

/-- A generation fails at once, settles on a value, or is at work for ever. -/
theorem FlorenceWorker.generate_settles
    (worker : FlorenceWorker F) (imageFeatures : TensorData F) (imageSize : Nat × Nat)
    (task : ResolvedTask) :
    (∃ failure, worker.generateOnce imageFeatures task = .error failure ∧
      ∀ rounds, worker.generate imageFeatures imageSize rounds task = .error failure) ∨
    (∃ metadata, worker.generateOnce imageFeatures task = .ok metadata ∧ metadata.Hangs ∧
      ∀ rounds, worker.generate imageFeatures imageSize rounds task = .ok none) ∨
    ∃ metadata result rounds, worker.generateOnce imageFeatures task = .ok metadata ∧
      ¬ metadata.Hangs ∧
      ∀ later, rounds ≤ later →
        worker.generate imageFeatures imageSize later task =
          .ok (some (Generation.mk metadata result)) := by
  cases hgenerate : worker.generateOnce imageFeatures task with
  | error failure =>
      refine Or.inl ⟨failure, rfl, fun rounds => ?_⟩
      rw [generate, hgenerate]
      rfl
  | ok metadata =>
      right
      by_cases hhangs : metadata.Hangs
      · obtain ⟨htoken, hmalformed⟩ := hhangs
        refine Or.inl ⟨metadata, rfl, ⟨htoken, hmalformed⟩, fun rounds => ?_⟩
        rw [generate_of_decoded hgenerate, htoken, postProcessGeneration_of_malformed hmalformed]
        rfl
      · have hparses : metadata.taskToken = ocrWithRegionToken →
            EveryLocTokenParses metadata.generatedText := by
          intro htoken
          by_contra hmalformed
          exact hhangs ⟨htoken, hmalformed⟩
        obtain ⟨rounds, result, -, hlater⟩ :=
          exists_postProcessGeneration imageSize hparses
        refine Or.inr ⟨metadata, result, rounds, rfl, hhangs, fun later hle => ?_⟩
        rw [generate_of_decoded hgenerate, hlater later hle]
        rfl

/-- A generation of another task does not wait for the parser. -/
theorem FlorenceWorker.generate_of_other_token
    (htoken : task.taskToken ≠ ocrWithRegionToken)
    {rounds : Nat} {step : Option Generation}
    (hgenerate : worker.generate imageFeatures imageSize rounds task = .ok step) :
    ∃ generation, step = some generation := by
  obtain ⟨metadata, hmetadata, hgenerate⟩ := bind_eq_ok.mp hgenerate
  obtain ⟨result, hresult, hgenerate⟩ := bind_eq_ok.mp hgenerate
  have hdecoded := decoded_of_generateOnce hmetadata
  rw [hdecoded.taskToken, postProcessGeneration, if_pos htoken] at hresult
  cases hresult
  cases hgenerate
  exact ⟨_, rfl⟩

/-- The text handed on is the generated text, also where the result is no text. -/
theorem FlorenceWorker.Generated.textForInput_eq
    {generation : Generation}
    (hgenerated : worker.Generated imageFeatures imageSize task generation) :
    generationTextForInput generation = String.ofList generation.generatedText := by
  obtain ⟨value, hvalue, hstr⟩ := hgenerated.result.exists_field
  have hget : generation.result.get generation.taskToken = some value := by
    rw [hvalue, JsonValue.get, List.lookup_cons, beq_self_eq_true]
  rw [generationTextForInput, hget, Option.bind_some]
  rcases hstr with hnone | hsome
  · rw [hnone]
    rfl
  · rw [hsome]
    rfl

end Generating

section Combining

/-- One round of the loop of `combine_generation_results`. -/
def insertGeneration (output : List (String × JsonValue)) (generation : Generation) :
    List (String × JsonValue) :=
  match generation.result.get generation.taskToken with
  | some value => insertField output generation.taskToken value
  | none => output

/-- `combine_generation_results`. -/
def combineGenerationResults (generations : List Generation) : JsonValue :=
  .object (generations.foldl insertGeneration [])

theorem lookup_insertGeneration_of_ne
    {generation : Generation} {key : String} (hkey : key ≠ generation.taskToken)
    (output : List (String × JsonValue)) :
    (insertGeneration output generation).lookup key = output.lookup key := by
  unfold insertGeneration
  split
  · rw [lookup_insertField, if_neg hkey]
  · rfl

theorem lookup_foldl_of_not_mem
    {generations : List Generation} {key : String}
    (hkey : key ∉ generations.map (fun generation => generation.taskToken))
    (output : List (String × JsonValue)) :
    (generations.foldl insertGeneration output).lookup key = output.lookup key := by
  induction generations generalizing output with
  | nil =>
      rfl
  | cons generation generations ih =>
      rw [List.map_cons, List.mem_cons, not_or] at hkey
      rw [List.foldl_cons, ih hkey.2, lookup_insertGeneration_of_ne hkey.1]

/-- The loop keeps the value of each generation under its own token. -/
theorem lookup_foldl_of_mem
    {generations : List Generation}
    (hnodup : (generations.map (fun generation => generation.taskToken)).Nodup)
    {generation : Generation} (hmem : generation ∈ generations)
    {value : JsonValue} (hvalue : generation.result.get generation.taskToken = some value)
    (output : List (String × JsonValue)) :
    (generations.foldl insertGeneration output).lookup generation.taskToken = some value := by
  induction generations generalizing output with
  | nil =>
      cases hmem
  | cons other generations ih =>
      rw [List.map_cons, List.nodup_cons] at hnodup
      rw [List.foldl_cons]
      rcases List.mem_cons.mp hmem with rfl | hmem
      · rw [lookup_foldl_of_not_mem hnodup.1, insertGeneration, hvalue]
        exact (lookup_insertField output _ _ value).trans (if_pos rfl)
      · exact ih hnodup.2 hmem (insertGeneration output other)

/-- The combined result has the fields of the generations and no others. -/
theorem combineGenerationResults_get
    {generations : List Generation}
    (hnodup : (generations.map (fun generation => generation.taskToken)).Nodup) :
    (∀ generation ∈ generations, ∀ value,
      generation.result.get generation.taskToken = some value →
        (combineGenerationResults generations).get generation.taskToken = some value) ∧
    ∀ key, key ∉ generations.map (fun generation => generation.taskToken) →
      (combineGenerationResults generations).get key = none := by
  constructor
  · intro generation hmem value hvalue
    exact lookup_foldl_of_mem hnodup hmem hvalue []
  · intro key hkey
    exact lookup_foldl_of_not_mem hkey []

end Combining

end FlorenceServer
