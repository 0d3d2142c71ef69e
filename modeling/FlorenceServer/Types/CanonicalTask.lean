import FlorenceServer.Lib.Fallible
import FlorenceServer.Lib.Trimming
import FlorenceServer.Types.TaskSpec

/-!
# Task specifications that parse back

A task specification is stored as two names and a text and parsed from them
again.  The first parse takes aliases, blanks around the names and absent
fields; what it returns is canonical: the prompt is one of the type's own and
the text is normalised.

* `canonical_of_fromStrings`: what `TaskSpec::from_strings` accepts is canonical.
* `fromStrings_names_iff`: a specification is canonical exactly when its own
  names and text parse back to it.
-/

namespace FlorenceServer

section Names

variable {taskType : TaskType} {prompt : TaskPrompt} {value : String}

theorem trim_trim (text : String) : trim (trim text) = trim text := by
  have hchars : trimChars (trimChars text.toList) = trimChars text.toList :=
    trimBlank_of_trimmed (trimmed_trimBlank isWhitespace text.toList)
  rw [trim, trim, String.toList_ofList, hchars]

namespace TaskType

theorem trim_asStr (taskType : TaskType) : trim taskType.asStr = taskType.asStr := by
  cases taskType <;> decide

/-- The labels of a task type: its name, and the corrected spelling of the
misspelled one. -/
theorem parse_eq_ok_iff :
    parse value = .ok taskType ↔
      trim value = taskType.asStr ∨
        taskType = .cascaded ∧ trim value = "Cascaded task" := by
  simp only [parse]
  split
  · rename_i hsingle
    cases taskType <;> simp [hsingle, asStr]
  · rename_i hsingle
    split
    · rename_i hcascaded
      cases taskType <;> simp [hsingle, hcascaded, asStr]
    · rename_i hother
      obtain ⟨hold, hcorrected⟩ := not_or.mp hother
      cases taskType <;> simp [hsingle, hold, hcorrected, asStr]

theorem parse_asStr (taskType : TaskType) : parse taskType.asStr = .ok taskType :=
  parse_eq_ok_iff.mpr (Or.inl (trim_asStr taskType))

theorem nodup_prompt_names (taskType : TaskType) :
    (taskType.prompts.map TaskPrompt.asStr).Nodup := by
  cases taskType <;> decide

end TaskType

namespace TaskPrompt

theorem trim_asStr (prompt : TaskPrompt) : trim prompt.asStr = prompt.asStr := by
  cases prompt <;> decide

/-- A name finds the one prompt of the type that has it. -/
theorem parseForType_eq_ok_iff :
    parseForType taskType value = .ok prompt ↔
      prompt ∈ taskType.prompts ∧ trim value = prompt.asStr := by
  simp only [parseForType]
  split
  · rename_i found hfind
    have hmem := List.mem_of_find?_eq_some hfind
    have hname : found.asStr = trim value := by
      simpa using List.find?_some hfind
    constructor
    · intro h
      cases h
      exact ⟨hmem, hname.symm⟩
    · rintro ⟨hprompt, hvalue⟩
      have hsame : found = prompt :=
        List.inj_on_of_nodup_map taskType.nodup_prompt_names hmem hprompt
          (hname.trans hvalue)
      rw [hsame]
  · rename_i hfind
    constructor
    · intro h
      cases h
    · rintro ⟨hprompt, hvalue⟩
      have hnot := List.find?_eq_none.mp hfind prompt hprompt
      exact absurd (beq_iff_eq.mpr hvalue.symm) hnot

theorem parseForType_asStr
    (hoffered : prompt ∈ taskType.prompts) :
    parseForType taskType prompt.asStr = .ok prompt :=
  parseForType_eq_ok_iff.mpr ⟨hoffered, trim_asStr prompt⟩

end TaskPrompt

theorem normalizeOptionalText_eq_some_iff
    {text kept : String} :
    normalizeOptionalText text = some kept ↔ trim text = kept ∧ kept ≠ "" := by
  simp only [normalizeOptionalText]
  split
  · rename_i hempty
    rw [String.isEmpty_iff] at hempty
    simp only [hempty, reduceCtorEq, false_iff, not_and, not_not]
    exact Eq.symm
  · rename_i hempty
    rw [String.isEmpty_iff] at hempty
    constructor
    · intro h
      cases h
      exact ⟨rfl, hempty⟩
    · rintro ⟨rfl, -⟩
      rfl

/-- Normalised text is left as it is. -/
theorem normalizeOptionalText_idem
    {text kept : String}
    (h : normalizeOptionalText text = some kept) :
    normalizeOptionalText kept = some kept := by
  obtain ⟨rfl, hne⟩ := normalizeOptionalText_eq_some_iff.mp h
  exact normalizeOptionalText_eq_some_iff.mpr ⟨trim_trim text, hne⟩

end Names

section Specifications

namespace TaskSpec

/-- A specification as `from_strings` returns it. -/
structure Canonical (task : TaskSpec) : Prop where
  offered : task.taskPrompt ∈ task.taskType.prompts
  normalized : ∀ text ∈ task.textInput, normalizeOptionalText text = some text

variable {task : TaskSpec}

theorem new_eq_ok_iff
    {taskType : TaskType} {taskPrompt : TaskPrompt} {textInput : Option String} :
    new taskType taskPrompt textInput = .ok task ↔
      taskPrompt ∈ taskType.prompts ∧
        task = { taskType := taskType, taskPrompt := taskPrompt, textInput := textInput } := by
  unfold new
  by_cases hoffered : taskPrompt ∈ taskType.prompts
  · rw [if_pos hoffered]
    constructor
    · intro h
      cases h
      exact ⟨hoffered, rfl⟩
    · rintro ⟨-, rfl⟩
      rfl
  · rw [if_neg hoffered]
    constructor
    · intro h
      cases h
    · intro h
      exact absurd h.1 hoffered

/-- The last statement of the parser checks the prompt, also the default one. -/
theorem new_of_fromStrings
    {taskType taskPrompt textInput : Option String}
    (h : fromStrings taskType taskPrompt textInput = .ok task) :
    ∃ parsedType parsedPrompt,
      new parsedType parsedPrompt (textInput.bind normalizeOptionalText) = .ok task := by
  cases taskType <;> cases taskPrompt <;>
  · obtain ⟨parsedType, -, h⟩ := bind_eq_ok.mp h
    obtain ⟨parsedPrompt, -, h⟩ := bind_eq_ok.mp h
    exact ⟨parsedType, parsedPrompt, h⟩

/-- What the parser accepts is canonical, whatever the three fields hold. -/
theorem canonical_of_fromStrings
    {taskType taskPrompt textInput : Option String}
    (h : fromStrings taskType taskPrompt textInput = .ok task) :
    task.Canonical := by
  obtain ⟨parsedType, parsedPrompt, hnew⟩ := new_of_fromStrings h
  obtain ⟨hoffered, rfl⟩ := new_eq_ok_iff.mp hnew
  refine ⟨hoffered, fun text htext => ?_⟩
  obtain ⟨raw, -, hraw⟩ := Option.bind_eq_some_iff.mp htext
  exact normalizeOptionalText_idem hraw

theorem Canonical.bind_textInput
    (hcanonical : task.Canonical) :
    task.textInput.bind normalizeOptionalText = task.textInput := by
  cases htext : task.textInput with
  | none =>
      rfl
  | some text =>
      rw [Option.bind_some]
      exact hcanonical.normalized text htext

/-- A canonical specification is read back from its names and its text. -/
theorem Canonical.fromStrings_names
    (hcanonical : task.Canonical) :
    fromStrings (some task.taskTypeName) (some task.taskPromptName) task.textInput =
      .ok task := by
  refine bind_eq_ok.mpr ⟨task.taskType, TaskType.parse_asStr _, ?_⟩
  refine bind_eq_ok.mpr
    ⟨task.taskPrompt, TaskPrompt.parseForType_asStr hcanonical.offered, ?_⟩
  rw [hcanonical.bind_textInput]
  exact new_eq_ok_iff.mpr ⟨hcanonical.offered, rfl⟩

theorem fromStrings_names_iff :
    fromStrings (some task.taskTypeName) (some task.taskPromptName) task.textInput =
        .ok task ↔
      task.Canonical :=
  ⟨canonical_of_fromStrings, Canonical.fromStrings_names⟩

end TaskSpec

end Specifications
end FlorenceServer
