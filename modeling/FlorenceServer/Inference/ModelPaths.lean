import FlorenceServer.Lib.TextSlices
import FlorenceServer.Types.ConfigLoad

/-!
# The files of a model

`FlorenceModelPaths` of `inference/model.rs`: a model is named by its vision encoder, and
the other graphs and the tokenizer are looked for around it.  The graphs of one export
share the suffix of their file names.

* `validateModelArtifacts_eq_ok_iff`: which files a start of the server needs.
* `model_set_is_uniform_iff`: when the files that a loaded configuration selects belong to
  one export.  A variant that is named beside an explicit path is not compared with it.
-/

namespace FlorenceServer

section Paths

/-- `Path::parent`. -/
def parentPath : PathBuf → Option PathBuf
  | [] => none
  | ["/"] => none
  | path => some path.dropLast

/-- `Path::file_name`. -/
def fileNameOf (path : PathBuf) : Option String :=
  path.getLast?.filter (fun name => name != "/" && name != "." && name != "..")

/-- What stands before the last dot, unless that dot comes first. -/
def stemOf (name : String) : String :=
  let before := ((name.toList.reverse.dropWhile (fun c => c != '.')).drop 1).reverse
  if before.isEmpty then name else String.ofList before

/-- `Path::file_stem`. -/
def fileStem (path : PathBuf) : Option String :=
  (fileNameOf path).map stemOf

/-- The suffix of the variants that have their own. -/
def ModelVariant.suffix : ModelVariant → Option String
  | .fp32 => some ""
  | .fp16 => some "_fp16"
  | .int8 => some "_int8"
  | .uint8 => some "_uint8"
  | .quantized => some "_quantized"
  | .q4 => some "_q4"
  | .q4F16 => some "_q4f16"
  | .bnb4 => some "_bnb4"
  | .custom => none

/-- The suffix of a file name. -/
def suffixOfPath (visionEncoder : PathBuf) : Option String :=
  (fileStem visionEncoder).bind (fun stem =>
    (stripPrefix "vision_encoder".toList stem.toList).map String.ofList)

/-- `model_suffix`: a custom model has the suffix of its file name. -/
def modelSuffix (visionEncoder : PathBuf) (variant : ModelVariant) : String :=
  match variant.suffix with
  | some suffix => suffix
  | none => (suffixOfPath visionEncoder).getD ""

structure FlorenceModelPaths where
  modelDir : PathBuf
  visionEncoder : PathBuf
  embedTokens : PathBuf
  encoderModel : PathBuf
  decoderModel : PathBuf
  decoderModelMerged : PathBuf
deriving DecidableEq, Repr

namespace FlorenceModelPaths

/-- `FlorenceModelPaths::from_vision_path`. -/
def fromVisionPath (visionEncoder : PathBuf) (variant : ModelVariant) : FlorenceModelPaths :=
  let onnxDir := (parentPath visionEncoder).getD ["."]
  let suffix := modelSuffix visionEncoder variant
  { modelDir := (parentPath onnxDir).getD onnxDir
    visionEncoder := visionEncoder
    embedTokens := onnxDir ++ ["embed_tokens" ++ suffix ++ ".onnx"]
    encoderModel := onnxDir ++ ["encoder_model" ++ suffix ++ ".onnx"]
    decoderModel := onnxDir ++ ["decoder_model" ++ suffix ++ ".onnx"]
    decoderModelMerged := onnxDir ++ ["decoder_model_merged" ++ suffix ++ ".onnx"] }

def graphs (paths : FlorenceModelPaths) : List PathBuf :=
  [paths.visionEncoder, paths.embedTokens, paths.encoderModel, paths.decoderModel,
    paths.decoderModelMerged]

def tokenizer (paths : FlorenceModelPaths) : PathBuf :=
  paths.modelDir ++ ["tokenizer.json"]

/-- `FlorenceModelPaths::ensure_exists`, on a disk with these files. -/
def ensureExists (paths : FlorenceModelPaths) (exist : PathBuf → Bool) : Except String Unit :=
  match paths.graphs.find? (fun path => !exist path) with
  | some path => .error ("model file does not exist: " ++ displayPath path)
  | none =>
      if exist paths.tokenizer then .ok ()
      else .error ("tokenizer file does not exist: " ++ displayPath paths.tokenizer)

end FlorenceModelPaths

/-- `validate_model_artifacts`. -/
def validateModelArtifacts (exist : PathBuf → Bool) (modelPath : PathBuf)
    (variant : ModelVariant) : Except String Unit :=
  (FlorenceModelPaths.fromVisionPath modelPath variant).ensureExists exist

end Paths

section Exports

/-- The file of a graph in an export with the suffix. -/
def graphFile (directory : PathBuf) (graph suffix : String) : PathBuf :=
  directory ++ [graph ++ suffix ++ ".onnx"]

/-- The graphs are those of one export. -/
structure FlorenceModelPaths.Uniform (paths : FlorenceModelPaths) (directory : PathBuf)
    (suffix : String) : Prop where
  visionEncoder : paths.visionEncoder = graphFile directory "vision_encoder" suffix
  embedTokens : paths.embedTokens = graphFile directory "embed_tokens" suffix
  encoderModel : paths.encoderModel = graphFile directory "encoder_model" suffix
  decoderModel : paths.decoderModel = graphFile directory "decoder_model" suffix
  decoderModelMerged : paths.decoderModelMerged = graphFile directory "decoder_model_merged" suffix

variable {directory : PathBuf} {graph suffix : String} {variant : ModelVariant}

theorem graphName_ne
    {text : String} (htext : text.length < 5) :
    graph ++ suffix ++ ".onnx" ≠ text := by
  intro hname
  have hlength := congrArg String.length hname
  have hextension : ".onnx".length = 5 := rfl
  rw [String.length_append] at hlength
  omega

theorem parentPath_graphFile :
    parentPath (graphFile directory graph suffix) = some directory := by
  have hname : graph ++ suffix ++ ".onnx" ≠ "/" := graphName_ne (by decide)
  unfold parentPath graphFile
  split
  · simp_all
  · rename_i hroot
    cases directory <;> simp_all
  · rw [List.dropLast_concat]

/-- The last dot of the name is that of its extension. -/
theorem stemOf_onnx
    {stem : String} (hstem : stem ≠ "") :
    stemOf (stem ++ ".onnx") = stem := by
  have hbefore : (((stem ++ ".onnx").toList.reverse.dropWhile (fun c => c != '.')).drop 1).reverse =
      stem.toList := by
    simp
  rw [stemOf, hbefore, if_neg (by simpa using hstem), String.ofList_toList]

theorem fileNameOf_graphFile :
    fileNameOf (graphFile directory graph suffix) = some (graph ++ suffix ++ ".onnx") := by
  have hroot : graph ++ suffix ++ ".onnx" ≠ "/" := graphName_ne (by decide)
  have hdot : graph ++ suffix ++ ".onnx" ≠ "." := graphName_ne (by decide)
  have hdots : graph ++ suffix ++ ".onnx" ≠ ".." := graphName_ne (by decide)
  simp [fileNameOf, graphFile, hroot, hdot, hdots]

theorem suffixOfPath_visionEncoder :
    suffixOfPath (graphFile directory "vision_encoder" suffix) = some suffix := by
  have hstem : "vision_encoder" ++ suffix ≠ "" := by simp
  have hprefix : stripPrefix "vision_encoder".toList ("vision_encoder" ++ suffix).toList =
      some suffix.toList := by
    rw [stripPrefix_eq_some_iff, String.toList_append]
  rw [suffixOfPath, fileStem, fileNameOf_graphFile, Option.map_some, stemOf_onnx hstem,
    Option.bind_some, hprefix, Option.map_some, String.ofList_toList]

/-- A variant of its own suffix does not look at the path. -/
theorem modelSuffix_visionEncoder_iff :
    modelSuffix (graphFile directory "vision_encoder" suffix) variant = suffix ↔
      ∀ own ∈ variant.suffix, own = suffix := by
  unfold modelSuffix
  cases variant.suffix with
  | none => simp [suffixOfPath_visionEncoder]
  | some own => simp

/-- The directory of the vision encoder is that of the other graphs. -/
theorem uniform_iff
    {path : PathBuf} :
    (FlorenceModelPaths.fromVisionPath path variant).Uniform directory suffix ↔
      path = graphFile directory "vision_encoder" suffix ∧
        ∀ own ∈ variant.suffix, own = suffix := by
  constructor
  · intro huniform
    have hpath : path = graphFile directory "vision_encoder" suffix := huniform.visionEncoder
    have hembed : (parentPath path).getD ["."] ++
        ["embed_tokens" ++ modelSuffix path variant ++ ".onnx"] =
          directory ++ ["embed_tokens" ++ suffix ++ ".onnx"] := huniform.embedTokens
    rw [hpath, parentPath_graphFile, Option.getD_some] at hembed
    have hname := List.singleton_inj.mp (List.append_cancel_left hembed)
    have hsuffix : modelSuffix (graphFile directory "vision_encoder" suffix) variant = suffix := by
      simpa [String.append_assoc] using hname
    exact ⟨hpath, modelSuffix_visionEncoder_iff.mp hsuffix⟩
  · rintro ⟨rfl, hown⟩
    have hsuffix : modelSuffix (graphFile directory "vision_encoder" suffix) variant = suffix :=
      modelSuffix_visionEncoder_iff.mpr hown
    rw [FlorenceModelPaths.fromVisionPath, parentPath_graphFile, hsuffix, Option.getD_some]
    exact ⟨rfl, rfl, rfl, rfl, rfl⟩

theorem defaultModelPath_graphFile (variant : ModelVariant) :
    variant.defaultModelPath =
      graphFile ["Florence-2-base", "onnx"] "vision_encoder" (variant.suffix.getD "") := by
  cases variant <;> rfl

end Exports

section Startup

variable {exist : PathBuf → Bool} {modelPath : PathBuf} {variant : ModelVariant}

/-- A start needs each of the six files. -/
theorem validateModelArtifacts_eq_ok_iff :
    validateModelArtifacts exist modelPath variant = .ok () ↔
      let paths := FlorenceModelPaths.fromVisionPath modelPath variant
      (∀ path ∈ paths.graphs, exist path = true) ∧ exist paths.tokenizer = true := by
  dsimp only
  unfold validateModelArtifacts FlorenceModelPaths.ensureExists
  split
  · rename_i path hmissing
    have hmem := List.mem_of_find?_eq_some hmissing
    have habsent := List.find?_some hmissing
    simp only [reduceCtorEq, false_iff, not_and]
    intro hall
    simp [hall path hmem] at habsent
  · rename_i hfound
    have hall := List.find?_eq_none.mp hfound
    simp only [Bool.not_eq_true', Bool.not_eq_false] at hall
    split <;> simp_all

variable {env : Environment} {cores : Option UInt64} {file : FileConfig} {cfg : AppConfig}

theorem ofFile_model
    (hload : AppConfig.ofFile env cores file = .ok cfg) :
    let model := file.model.getD {}
    let modelPathOverride := ((env "MODEL_PATH").or model.path).map pathOfText
    parseModelVariant env model.variant (selectModelPath modelPathOverride) =
        .ok cfg.modelVariant ∧
      cfg.modelPath = modelPathOverride.getD cfg.modelVariant.defaultModelPath := by
  simp only [AppConfig.ofFile, bind_eq_ok] at hload
  obtain ⟨_, -, _, -, variant, hvariant, _, -, _, -, _, -, _, -, _, -, _, -, _, -, _, -, _, -,
    _, -, _, -, _, -, _, -, _, -, _, -, _, -, _, -, hcfg⟩ := hload
  cases hcfg
  exact ⟨hvariant, rfl⟩

/--
The configuration selects the graphs of one export exactly when no path is set, or the path
is that of a vision encoder and the variant, if one is named, has no other suffix.
-/
theorem model_set_is_uniform_iff
    (hload : AppConfig.ofFile env cores file = .ok cfg) :
    (∃ directory suffix,
      (FlorenceModelPaths.fromVisionPath cfg.modelPath cfg.modelVariant).Uniform
        directory suffix) ↔
      ∀ text, (env "MODEL_PATH").or (file.model.getD {}).path = some text →
        ∃ directory suffix, pathOfText text = graphFile directory "vision_encoder" suffix ∧
          ∀ name, (env "MODEL_VARIANT").or (file.model.getD {}).variant = some name →
            ∃ variant : ModelVariant, normalizedName name ∈ variant.aliases ∧
              ∀ own ∈ variant.suffix, own = suffix := by
  obtain ⟨hvariant, hpath⟩ := ofFile_model hload
  generalize (env "MODEL_PATH").or (file.model.getD {}).path = pathSet at hvariant hpath ⊢
  generalize hnames : (env "MODEL_VARIANT").or (file.model.getD {}).variant = nameSet
  simp only [parseModelVariant, hnames] at hvariant
  simp only [uniform_iff]
  cases pathSet with
  | none =>
      have hdefault : cfg.modelPath = cfg.modelVariant.defaultModelPath := hpath
      rw [hdefault, defaultModelPath_graphFile]
      refine iff_of_true ⟨_, _, rfl, fun own hown => ?_⟩ (by simp)
      rw [Option.mem_def.mp hown, Option.getD_some]
  | some text =>
      have hexplicit : cfg.modelPath = pathOfText text := hpath
      rw [hexplicit]
      cases nameSet with
      | none =>
          -- a path without a variant is that of a custom model
          have hcustom : ModelVariant.custom = cfg.modelVariant := Except.ok.inj hvariant
          simp [← hcustom, ModelVariant.suffix]
      | some name =>
          have hnamed : ∀ variant : ModelVariant,
              normalizedName name ∈ variant.aliases ↔ variant = cfg.modelVariant := by
            intro variant
            rw [← parseModelVariantValue_eq_ok_iff]
            constructor
            · intro hread
              exact Except.ok.inj (hread.symm.trans hvariant)
            · rintro rfl
              exact hvariant
          simp [hnamed]

/-- The fp16 vision encoder, with the graphs of the 4-bit export. -/
def mixedModelFile : FileConfig where
  model := some { variant := some "Q4", path := some "models/onnx/vision_encoder_fp16.onnx" }

theorem model_set_is_uniform_iff_mixed :
    ∃ cfg, AppConfig.ofFile (fun _ => none) none mixedModelFile = .ok cfg ∧
      ¬ ∃ directory suffix,
        (FlorenceModelPaths.fromVisionPath cfg.modelPath cfg.modelVariant).Uniform
          directory suffix := by
  have hok : (AppConfig.ofFile (fun _ => none) none mixedModelFile).toBool = true := by
    decide +kernel
  cases hload : AppConfig.ofFile (fun _ => none) none mixedModelFile with
  | error message =>
      rw [hload] at hok
      cases hok
  | ok cfg =>
      refine ⟨cfg, rfl, fun huniform => ?_⟩
      obtain ⟨directory, suffix, hpath, hvariant⟩ :=
        (model_set_is_uniform_iff hload).mp huniform _ rfl
      obtain ⟨variant, halias, hsuffix⟩ := hvariant "Q4" rfl
      have hq4 : variant = .q4 := by
        revert halias
        cases variant <;> decide +kernel
      have hfp16 : suffixOfPath (pathOfText "models/onnx/vision_encoder_fp16.onnx") =
          some "_fp16" := by
        decide +kernel
      rw [hpath, suffixOfPath_visionEncoder, ← hsuffix "_q4" (by rw [hq4]; rfl)] at hfp16
      exact absurd hfp16 (by decide)

end Startup

end FlorenceServer
