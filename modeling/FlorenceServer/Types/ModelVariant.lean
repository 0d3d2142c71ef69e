import FlorenceServer.Types.JobRecord
import FlorenceServer.Types.TaskSpec

/-!
# Model variants

`config/model_variant.rs`: the exported precisions of the model, the names under which
a configuration selects one, and the vision encoder that each of them loads by default.

* `parseModelVariantValue_eq_ok_iff`: a name selects a variant exactly when it is one of
  its aliases up to blanks around it, case and the separators `-` and `_`.
-/

namespace FlorenceServer

inductive ModelVariant where
  | fp32
  | fp16
  | int8
  | uint8
  | quantized
  | q4
  | q4F16
  | bnb4
  | custom
deriving DecidableEq, Repr

/-- `DEFAULT_MODEL_PATH`. -/
def defaultVisionEncoder : PathBuf :=
  ["Florence-2-base", "onnx", "vision_encoder.onnx"]

/-- `Path::display`. -/
def displayPath : PathBuf → String
  | "/" :: components => "/" ++ "/".intercalate components
  | components => "/".intercalate components

namespace ModelVariant

/-- `ModelVariant::default_model_path`. -/
def defaultModelPath : ModelVariant → PathBuf
  | .fp32 | .custom => defaultVisionEncoder
  | .fp16 => ["Florence-2-base", "onnx", "vision_encoder_fp16.onnx"]
  | .int8 => ["Florence-2-base", "onnx", "vision_encoder_int8.onnx"]
  | .uint8 => ["Florence-2-base", "onnx", "vision_encoder_uint8.onnx"]
  | .quantized => ["Florence-2-base", "onnx", "vision_encoder_quantized.onnx"]
  | .q4 => ["Florence-2-base", "onnx", "vision_encoder_q4.onnx"]
  | .q4F16 => ["Florence-2-base", "onnx", "vision_encoder_q4f16.onnx"]
  | .bnb4 => ["Florence-2-base", "onnx", "vision_encoder_bnb4.onnx"]

def asStr : ModelVariant → String
  | .fp32 => "fp32"
  | .fp16 => "fp16"
  | .int8 => "int8"
  | .uint8 => "uint8"
  | .quantized => "quantized"
  | .q4 => "q4"
  | .q4F16 => "q4f16"
  | .bnb4 => "bnb4"
  | .custom => "custom"

end ModelVariant

/-- `raw.trim().to_ascii_lowercase().replace(['-', '_'], "")`. -/
def normalizedName (raw : String) : String :=
  String.ofList (((trim raw).toList.map Char.toLower).filter
    (fun c => c != '-' && c != '_'))

inductive ModelPathSelection where
  | explicitPath
  | variantDefaultPath
deriving DecidableEq, Repr

/-- `parse_model_variant_value`. -/
def parseModelVariantValue (raw : String) : Except String ModelVariant :=
  match normalizedName raw with
  | "fp32" | "float32" | "f32" => .ok .fp32
  | "fp16" | "float16" | "f16" => .ok .fp16
  | "int8" | "i8" => .ok .int8
  | "uint8" | "u8" => .ok .uint8
  | "quantized" | "quant" => .ok .quantized
  | "q4" => .ok .q4
  | "q4f16" | "q4fp16" => .ok .q4F16
  | "bnb4" | "bitsandbytes4" => .ok .bnb4
  | "custom" => .ok .custom
  | _ => .error ("unsupported model variant `" ++ raw ++ "`; expected one of fp32, " ++
      "fp16, int8, uint8, quantized, q4, q4f16, bnb4, custom")

/-- The names of a variant, the one that is written first. -/
def ModelVariant.aliases : ModelVariant → List String
  | .fp32 => ["fp32", "float32", "f32"]
  | .fp16 => ["fp16", "float16", "f16"]
  | .int8 => ["int8", "i8"]
  | .uint8 => ["uint8", "u8"]
  | .quantized => ["quantized", "quant"]
  | .q4 => ["q4"]
  | .q4F16 => ["q4f16", "q4fp16"]
  | .bnb4 => ["bnb4", "bitsandbytes4"]
  | .custom => ["custom"]

/-- A name selects the variant that has it among its aliases. -/
theorem parseModelVariantValue_eq_ok_iff
    {raw : String} {variant : ModelVariant} :
    parseModelVariantValue raw = .ok variant ↔ normalizedName raw ∈ variant.aliases := by
  unfold parseModelVariantValue
  split <;> rename_i hname
  all_goals first
    | rw [hname]
      cases variant <;> simp [ModelVariant.aliases]
    | cases variant <;> simp_all [ModelVariant.aliases]

theorem normalizedName_asStr (variant : ModelVariant) :
    normalizedName variant.asStr = variant.asStr := by
  cases variant <;> decide

/-- The written name of a variant is read back. -/
theorem parseModelVariantValue_asStr (variant : ModelVariant) :
    parseModelVariantValue variant.asStr = .ok variant := by
  rw [parseModelVariantValue_eq_ok_iff, normalizedName_asStr]
  cases variant <;> exact List.mem_cons_self

end FlorenceServer
