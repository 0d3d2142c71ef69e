import FlorenceServer.Inference.Tensor
import FlorenceServer.Inference.CleanText

/-!
# Generating tokens

`generate_once` of `inference.rs` and what it calls.  An ONNX session is a function
from named inputs to named outputs.  The first step of the loop runs the decoder
on all tokens; each later one feeds the last token and the cache that the step
before has left.
-/

namespace FlorenceServer

/-- `HIDDEN_SIZE`. -/
def hiddenSize : Nat := 768

/-- `DECODER_LAYERS`. -/
def decoderLayers : Nat := 6

/-- `DECODER_START_TOKEN_ID`. -/
def decoderStartTokenId : Int64 := 2

/-- `EOS_TOKEN_ID`. -/
def eosTokenId : Int64 := 2

section Sessions

/-- `DynValue`, by its element type. -/
inductive DynValue (F : Type) where
  | float32 (tensor : TensorData F)
  /-- with its elements as `f16::to_f32` converts them -/
  | float16 (tensor : TensorData F)
  | int64 (shape : List Int64) (data : List Int64)
  | bool (shape : List Int64) (data : List Bool)
  | other (dtype : String)
deriving DecidableEq, Repr

/-- Values by the names of a graph's inputs or outputs. -/
abbrev NamedValues (F : Type) := List (String × DynValue F)

/-- `Session::run`, with the text of its error. -/
abbrev Session (F : Type) := NamedValues F → Except String (NamedValues F)

/-- What the ONNX runtime decides by itself. -/
structure OrtRuntime (F : Type) where
  /-- the error of `Tensor::from_array` for a shape and a number of elements -/
  fromArrayError : List Int64 → Nat → Option String
  /-- the type of a value as `{:?}` shows it -/
  debugDtype : DynValue F → String

variable {F : Type}

/-- `Tensor::from_array`, as a value of the type that `wrap` makes. -/
def OrtRuntime.fromArray {α : Type} (runtime : OrtRuntime F) (tensorName : String)
    (wrap : List Int64 → List α → DynValue F) (shape : List Int64) (data : List α) :
    Except InferenceFailure (DynValue F) :=
  match runtime.fromArrayError shape data.length with
  | none => .ok (wrap shape data)
  | some err =>
      .error (.message ("failed to create " ++ tensorName ++ " tensor: " ++ err))

/-- A tensor of `f32`. -/
def DynValue.ofFloats (shape : List Int64) (data : List F) : DynValue F :=
  .float32 { shape, data }

/-- `session.run(..)` with the context of its error. -/
def runSession (graph : String) (session : Session F) (inputs : NamedValues F) :
    Except InferenceFailure (NamedValues F) :=
  match session inputs with
  | .ok outputs => .ok outputs
  | .error err => .error (.message (graph ++ " ONNX inference failed: " ++ err))

/-- `&outputs[0]`, which panics if there is none. -/
def firstOutput (outputs : NamedValues F) : Except InferenceFailure (DynValue F) :=
  match outputs.head? with
  | some output => .ok output.2
  | none => .error .panic

/-- `extract_output_tensor`. -/
def extractOutputTensor (runtime : OrtRuntime F) (value : DynValue F) (name : String) :
    Except InferenceFailure (TensorData F) :=
  match value with
  | .float32 tensor | .float16 tensor => .ok tensor
  | .int64 _ _ | .bool _ _ | .other _ =>
      .error (.message
        ("output `" ++ name ++ "` has unsupported dtype: " ++ runtime.debugDtype value))

/-- `extract_named_output_tensor`. -/
def extractNamedOutputTensor (runtime : OrtRuntime F) (outputs : NamedValues F)
    (name : String) : Except InferenceFailure (TensorData F) := do
  let value ← okOr (outputs.lookup name) ("ONNX output `" ++ name ++ "` is missing")
  extractOutputTensor runtime value name

/-- `take_output_value`: the value is removed from the outputs. -/
def takeOutputValue (outputs : NamedValues F) (name : String) :
    Except InferenceFailure (DynValue F × NamedValues F) := do
  let value ← okOr (outputs.lookup name) ("ONNX output `" ++ name ++ "` is missing")
  .ok (value, outputs.eraseP (fun output => output.1 == name))

end Sessions

section Cache

/-- `CacheKind`. -/
inductive CacheKind where
  | decoderKey
  | decoderValue
  | encoderKey
  | encoderValue
deriving DecidableEq, Repr

/-- `cache_name_suffix`. -/
def cacheNameSuffix : CacheKind → String
  | .decoderKey => "decoder.key"
  | .decoderValue => "decoder.value"
  | .encoderKey => "encoder.key"
  | .encoderValue => "encoder.value"

/-- `present_cache_name`. -/
def presentCacheName (layerIndex : Nat) (kind : CacheKind) : String :=
  "present." ++ toString layerIndex ++ "." ++ cacheNameSuffix kind

/-- `past_cache_name`. -/
def pastCacheName (layerIndex : Nat) (kind : CacheKind) : String :=
  "past_key_values." ++ toString layerIndex ++ "." ++ cacheNameSuffix kind

/-- `DecoderLayerCache`. -/
structure DecoderLayerCache (F : Type) where
  decoderKey : DynValue F
  decoderValue : DynValue F
  encoderKey : DynValue F
  encoderValue : DynValue F
deriving DecidableEq, Repr

/-- `DecoderCache`. -/
structure DecoderCache (F : Type) where
  layers : List (DecoderLayerCache F)
deriving DecidableEq, Repr

/-- `DecoderRun`. -/
structure DecoderRun (F : Type) where
  logits : TensorData F
  cache : DecoderCache F
deriving DecidableEq, Repr

variable {F : Type}

namespace DecoderCache

/-- One round of the loop of `from_decoder_outputs`. -/
def takeLayer (layerIndex : Nat) (outputs : NamedValues F) :
    Except InferenceFailure (DecoderLayerCache F × NamedValues F) := do
  let decoderKey ← takeOutputValue outputs (presentCacheName layerIndex .decoderKey)
  let decoderValue ← takeOutputValue decoderKey.2 (presentCacheName layerIndex .decoderValue)
  let encoderKey ← takeOutputValue decoderValue.2 (presentCacheName layerIndex .encoderKey)
  let encoderValue ← takeOutputValue encoderKey.2 (presentCacheName layerIndex .encoderValue)
  .ok
    ({ decoderKey := decoderKey.1
       decoderValue := decoderValue.1
       encoderKey := encoderKey.1
       encoderValue := encoderValue.1 },
      encoderValue.2)

/-- The layers from `layerIndex` on. -/
def takeLayers : Nat → Nat → NamedValues F →
    Except InferenceFailure (List (DecoderLayerCache F))
  | 0, _, _ => .ok []
  | remaining + 1, layerIndex, outputs => do
      let layer ← takeLayer layerIndex outputs
      let layers ← takeLayers remaining (layerIndex + 1) layer.2
      .ok (layer.1 :: layers)

/-- `DecoderCache::from_decoder_outputs`. -/
def fromDecoderOutputs (outputs : NamedValues F) :
    Except InferenceFailure (DecoderCache F) := do
  let layers ← takeLayers decoderLayers 0 outputs
  .ok { layers }

/-- One round of the loop of `with_updated_decoder_outputs`: the encoder's keys and
values are carried over. -/
def updateLayer (layerIndex : Nat) (previous : DecoderLayerCache F) (outputs : NamedValues F) :
    Except InferenceFailure (DecoderLayerCache F × NamedValues F) := do
  let decoderKey ← takeOutputValue outputs (presentCacheName layerIndex .decoderKey)
  let decoderValue ← takeOutputValue decoderKey.2 (presentCacheName layerIndex .decoderValue)
  .ok
    ({ decoderKey := decoderKey.1
       decoderValue := decoderValue.1
       encoderKey := previous.encoderKey
       encoderValue := previous.encoderValue },
      decoderValue.2)

/-- The layers from `layerIndex` on. -/
def updateLayers : List (DecoderLayerCache F) → Nat → NamedValues F →
    Except InferenceFailure (List (DecoderLayerCache F))
  | [], _, _ => .ok []
  | previous :: rest, layerIndex, outputs => do
      let layer ← updateLayer layerIndex previous outputs
      let layers ← updateLayers rest (layerIndex + 1) layer.2
      .ok (layer.1 :: layers)

/-- `DecoderCache::with_updated_decoder_outputs`. -/
def withUpdatedDecoderOutputs (cache : DecoderCache F) (outputs : NamedValues F) :
    Except InferenceFailure (DecoderCache F) := do
  let layers ← updateLayers cache.layers 0 outputs
  .ok { layers }

/-- The inputs for one layer of the cache. -/
def layerInputs (layerIndex : Nat) (layer : DecoderLayerCache F) : NamedValues F :=
  [(pastCacheName layerIndex .decoderKey, layer.decoderKey),
    (pastCacheName layerIndex .decoderValue, layer.decoderValue),
    (pastCacheName layerIndex .encoderKey, layer.encoderKey),
    (pastCacheName layerIndex .encoderValue, layer.encoderValue)]

/-- The inputs for all layers. -/
def pastInputs (cache : DecoderCache F) : NamedValues F :=
  cache.layers.zipIdx.flatMap (fun entry => layerInputs entry.2 entry.1)

end DecoderCache

end Cache

/-- `Tokenizer`, with the texts of its errors. -/
structure Tokenizer where
  encode : String → Except String (List UInt32)
  decode : List UInt32 → Except String String

/-- `FlorenceWorker`, as far as it generates text. -/
structure FlorenceWorker (F : Type) where
  id : Nat
  embedTokens : Option (Session F)
  encoderModel : Option (Session F)
  decoderModel : Option (Session F)
  decoderModelMerged : Option (Session F)
  tokenizer : Tokenizer
  maxNewTokens : Nat
  runtime : OrtRuntime F

/-- `ResolvedTask`. -/
structure ResolvedTask where
  taskToken : String
  promptText : String
deriving DecidableEq, Repr

/-- `GenerationMetadata`, without the JSON that is made of the text. -/
structure GenerationMetadata where
  taskToken : String
  promptText : String
  generatedText : List Char
  generatedTokens : Nat
deriving DecidableEq, Repr

/-- `u32::try_from` on an `i64`. -/
def u32TryFrom (id : Int64) : Option UInt32 :=
  if 0 ≤ id.toInt ∧ id.toInt < 2 ^ 32 then some (UInt32.ofNat id.toInt.toNat) else none

namespace FlorenceWorker

variable {F : Type} (worker : FlorenceWorker F)

/-- A session that `take_for_blocking` has not taken away. -/
def session (graph : String) (session : Option (Session F)) :
    Except InferenceFailure (Session F) :=
  okOr session
    ("worker " ++ toString worker.id ++ " " ++ graph ++ " session is unavailable")

/-- `run_embed_tokens`. -/
def runEmbedTokens (inputIds : List Int64) : Except InferenceFailure (TensorData F) := do
  let session ← worker.session "embed_tokens" worker.embedTokens
  let input ← worker.runtime.fromArray "input_ids" .int64
    [1, Int64.ofNat inputIds.length] inputIds
  let outputs ← runSession "embed_tokens" session [("input_ids", input)]
  let output ← firstOutput outputs
  extractOutputTensor worker.runtime output "inputs_embeds"

/-- `run_encoder_model`. -/
def runEncoderModel (inputsEmbeds : TensorData F) (attentionMask : List Int64) :
    Except InferenceFailure (TensorData F) := do
  let session ← worker.session "encoder_model" worker.encoderModel
  let seqLen ← inputsEmbeds.seqLen
  let embeds ← worker.runtime.fromArray "encoder inputs_embeds" .ofFloats
    [1, Int64.ofNat seqLen, Int64.ofNat hiddenSize] inputsEmbeds.data
  let mask ← worker.runtime.fromArray "encoder attention_mask" .int64
    [1, Int64.ofNat seqLen] attentionMask
  let outputs ← runSession "encoder_model" session
    [("inputs_embeds", embeds), ("attention_mask", mask)]
  let output ← firstOutput outputs
  extractOutputTensor worker.runtime output "last_hidden_state"

/-- `run_decoder_model`. -/
def runDecoderModel (inputsEmbeds encoderHiddenStates : TensorData F)
    (encoderAttentionMask : List Int64) : Except InferenceFailure (DecoderRun F) := do
  let session ← worker.session "decoder_model" worker.decoderModel
  let decoderSeqLen ← inputsEmbeds.seqLen
  let encoderSeqLen ← encoderHiddenStates.seqLen
  let embeds ← worker.runtime.fromArray "decoder inputs_embeds" .ofFloats
    [1, Int64.ofNat decoderSeqLen, Int64.ofNat hiddenSize] inputsEmbeds.data
  let hiddenStates ← worker.runtime.fromArray "decoder encoder_hidden_states" .ofFloats
    [1, Int64.ofNat encoderSeqLen, Int64.ofNat hiddenSize] encoderHiddenStates.data
  let mask ← worker.runtime.fromArray "decoder encoder_attention_mask" .int64
    [1, Int64.ofNat encoderSeqLen] encoderAttentionMask
  let outputs ← runSession "decoder_model" session
    [("inputs_embeds", embeds), ("encoder_hidden_states", hiddenStates),
      ("encoder_attention_mask", mask)]
  let logits ← extractNamedOutputTensor worker.runtime outputs "logits"
  let cache ← DecoderCache.fromDecoderOutputs outputs
  .ok { logits, cache }

/-- `run_cached_decoder_model`. -/
def runCachedDecoderModel (inputsEmbeds encoderHiddenStates : TensorData F)
    (encoderAttentionMask : List Int64) (cache : DecoderCache F) :
    Except InferenceFailure (DecoderRun F) := do
  let session ← worker.session "decoder_model_merged" worker.decoderModelMerged
  let decoderSeqLen ← inputsEmbeds.seqLen
  let encoderSeqLen ← encoderHiddenStates.seqLen
  let embeds ← worker.runtime.fromArray "cached decoder inputs_embeds" .ofFloats
    [1, Int64.ofNat decoderSeqLen, Int64.ofNat hiddenSize] inputsEmbeds.data
  let hiddenStates ← worker.runtime.fromArray "cached decoder encoder_hidden_states" .ofFloats
    [1, Int64.ofNat encoderSeqLen, Int64.ofNat hiddenSize] encoderHiddenStates.data
  let mask ← worker.runtime.fromArray "cached decoder encoder_attention_mask" .int64
    [1, Int64.ofNat encoderSeqLen] encoderAttentionMask
  let branch ← worker.runtime.fromArray "cached decoder branch selector" .bool [1] [true]
  let outputs ← runSession "decoder_model_merged cached" session
    ([("inputs_embeds", embeds), ("encoder_hidden_states", hiddenStates),
      ("encoder_attention_mask", mask), ("use_cache_branch", branch)] ++ cache.pastInputs)
  let logits ← extractNamedOutputTensor worker.runtime outputs "logits"
  let cache ← cache.withUpdatedDecoderOutputs outputs
  .ok { logits, cache }

/-- `encode_prompt`. -/
def encodePrompt (promptText : String) : Except InferenceFailure (List Int64) :=
  match worker.tokenizer.encode promptText with
  | .error err =>
      .error (.message ("failed to tokenize prompt `" ++ promptText ++ "`: " ++ err))
  | .ok ids =>
      if ids.isEmpty then
        .error (.message "prompt tokenized to an empty input")
      else
        .ok (ids.map (fun id => Int64.ofNat id.toNat))

/-- `generate_once` before its loop: the encoder's output and its attention mask. -/
def encodeInputs (imageFeatures : TensorData F) (promptText : String) :
    Except InferenceFailure (TensorData F × List Int64) := do
  let promptIds ← worker.encodePrompt promptText
  let textEmbeds ← worker.runEmbedTokens promptIds
  let encoderInputs ← concatEmbeddings imageFeatures textEmbeds hiddenSize
  let seqLen ← encoderInputs.seqLen
  let encoderAttentionMask := List.replicate seqLen 1
  let encoderHiddenStates ← worker.runEncoderModel encoderInputs encoderAttentionMask
  .ok (encoderHiddenStates, encoderAttentionMask)

/-- The decoder run of one round. -/
def decoderRun (encoderHiddenStates : TensorData F) (encoderAttentionMask : List Int64)
    (generatedIds : List Int64) :
    Option (DecoderCache F) → Except InferenceFailure (DecoderRun F)
  | some cache => do
      let lastTokenId ← okOr generatedIds.getLast? "decoder token sequence is empty"
      let decoderEmbeds ← worker.runEmbedTokens [lastTokenId]
      worker.runCachedDecoderModel decoderEmbeds encoderHiddenStates encoderAttentionMask cache
  | none => do
      let decoderEmbeds ← worker.runEmbedTokens generatedIds
      worker.runDecoderModel decoderEmbeds encoderHiddenStates encoderAttentionMask

variable [LinearOrder F]

/-- The loop of `generate_once`, with so many rounds left. -/
def decodeLoop (encoderHiddenStates : TensorData F) (encoderAttentionMask : List Int64) :
    Nat → List Int64 → Option (DecoderCache F) → Except InferenceFailure (List Int64)
  | 0, generatedIds, _ => .ok generatedIds
  | remaining + 1, generatedIds, decoderCache => do
      let run ← worker.decoderRun encoderHiddenStates encoderAttentionMask generatedIds
        decoderCache
      let nextTokenId ← argmaxLastToken run.logits
      if nextTokenId == eosTokenId then
        .ok (generatedIds ++ [nextTokenId])
      else
        decodeLoop encoderHiddenStates encoderAttentionMask remaining
          (generatedIds ++ [nextTokenId]) (some run.cache)

/-- The `generated_ids` of `generate_once`. -/
def generatedIds (imageFeatures : TensorData F) (promptText : String) :
    Except InferenceFailure (List Int64) := do
  let inputs ← worker.encodeInputs imageFeatures promptText
  worker.decodeLoop inputs.1 inputs.2 worker.maxNewTokens [decoderStartTokenId] none

/-- `generate_once`: ids that do not fit a `u32` are left out of the text. -/
def generateOnce (imageFeatures : TensorData F) (task : ResolvedTask) :
    Except InferenceFailure GenerationMetadata := do
  let ids ← worker.generatedIds imageFeatures task.promptText
  match worker.tokenizer.decode (ids.filterMap u32TryFrom) with
  | .error err => .error (.message ("failed to decode generated tokens: " ++ err))
  | .ok rawText =>
      .ok
        { taskToken := task.taskToken
          promptText := task.promptText
          generatedText := cleanGeneratedText rawText.toList
          generatedTokens := ids.length }

end FlorenceWorker

end FlorenceServer
