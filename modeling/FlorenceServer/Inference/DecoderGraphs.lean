import FlorenceServer.Inference.Decoding

/-!
# Rounds of the decoders

The decoder is assumed to compute logits for a list of tokens and a cache that
denotes it, and the merged decoder to extend both by one token.  Both are told
about in terms of the names of their inputs and outputs, of which each round has
to find all.

* `DecodesTokens`: what is assumed of the graphs.
* `DecodesTokens.decoderRun_none`, `DecodesTokens.decoderRun_some`: a round.
-/

namespace FlorenceServer

variable {F : Type}

section Graphs

/-- A tensor of floating point numbers. -/
def IsFloats (value : DynValue F) (tensor : TensorData F) : Prop :=
  value = .float32 tensor ∨ value = .float16 tensor

/-- The named output is `tensor`. -/
def HoldsFloats (outputs : NamedValues F) (name : String) (tensor : TensorData F) : Prop :=
  ∃ value, outputs.lookup name = some value ∧ IsFloats value tensor

/-- The output `logits` leads to the token that `reference` leads to. -/
def GivesLogits (outputs : NamedValues F) (reference : TensorData F) : Prop :=
  ∃ tensor, HoldsFloats outputs "logits" tensor ∧
    (tensor = reference ∨ SameLastRow tensor reference)

/-- The names of the inputs of `decoder_model`. -/
def decoderInputNames : List String :=
  ["inputs_embeds", "encoder_hidden_states", "encoder_attention_mask"]

/-- The inputs of `decoder_model_merged` that belong to no layer. -/
def plainInputNames : List String :=
  decoderInputNames ++ ["use_cache_branch"]

/-- The names of the inputs for one layer. -/
def layerInputNames (layerIndex : Nat) : List String :=
  [pastCacheName layerIndex .decoderKey, pastCacheName layerIndex .decoderValue,
    pastCacheName layerIndex .encoderKey, pastCacheName layerIndex .encoderValue]

/-- The names of the inputs of `decoder_model_merged`. -/
def mergedInputNames : List String :=
  plainInputNames ++ (List.range decoderLayers).flatMap layerInputNames

/-- The inputs are those of the names, in some order. -/
def Names (inputs : NamedValues F) (names : List String) : Prop :=
  (inputs.map Prod.fst).Perm names

/-- A tensor of embeddings, as a decoder takes it. -/
def HoldsEmbeddings (inputs : NamedValues F) (name : String) (tensor : TensorData F) : Prop :=
  ∃ seqLen, tensor.seqLen = .ok seqLen ∧
    inputs.lookup name =
      some (.float32
        { shape := [1, Int64.ofNat seqLen, Int64.ofNat hiddenSize], data := tensor.data })

/-- What both decoders are given. -/
structure DecoderInputs
    (inputs : NamedValues F)
    (embeds hiddenStates : TensorData F)
    (mask : List Int64) : Prop where
  inputs_embeds : HoldsEmbeddings inputs "inputs_embeds" embeds
  encoder_hidden_states : HoldsEmbeddings inputs "encoder_hidden_states" hiddenStates
  encoder_attention_mask : ∃ seqLen, hiddenStates.seqLen = .ok seqLen ∧
    inputs.lookup "encoder_attention_mask" = some (.int64 [1, Int64.ofNat seqLen] mask)

/-- The cache is given to `decoder_model_merged`. -/
structure PastKeyValues (inputs : NamedValues F) (cache : DecoderCache F) : Prop where
  decoder_key : ∀ (i : Nat) layer, cache.layers[i]? = some layer →
    inputs.lookup ("past_key_values." ++ toString i ++ ".decoder.key") = some layer.decoderKey
  decoder_value : ∀ (i : Nat) layer, cache.layers[i]? = some layer →
    inputs.lookup ("past_key_values." ++ toString i ++ ".decoder.value") =
      some layer.decoderValue
  encoder_key : ∀ (i : Nat) layer, cache.layers[i]? = some layer →
    inputs.lookup ("past_key_values." ++ toString i ++ ".encoder.key") = some layer.encoderKey
  encoder_value : ∀ (i : Nat) layer, cache.layers[i]? = some layer →
    inputs.lookup ("past_key_values." ++ toString i ++ ".encoder.value") =
      some layer.encoderValue

/-- The keys and values of the decoder are among the outputs. -/
structure PresentDecoder (outputs : NamedValues F) (cache : DecoderCache F) : Prop where
  key : ∀ (i : Nat) layer, cache.layers[i]? = some layer →
    outputs.lookup ("present." ++ toString i ++ ".decoder.key") = some layer.decoderKey
  value : ∀ (i : Nat) layer, cache.layers[i]? = some layer →
    outputs.lookup ("present." ++ toString i ++ ".decoder.value") = some layer.decoderValue

/-- The keys and values of the encoder are among the outputs. -/
structure PresentEncoder (outputs : NamedValues F) (cache : DecoderCache F) : Prop where
  key : ∀ (i : Nat) layer, cache.layers[i]? = some layer →
    outputs.lookup ("present." ++ toString i ++ ".encoder.key") = some layer.encoderKey
  value : ∀ (i : Nat) layer, cache.layers[i]? = some layer →
    outputs.lookup ("present." ++ toString i ++ ".encoder.value") = some layer.encoderValue

/-- The keys and values of the encoder are those of an earlier cache. -/
def CarriesEncoder (previous next : DecoderCache F) : Prop :=
  next.layers.map (fun layer => (layer.encoderKey, layer.encoderValue)) =
    previous.layers.map (fun layer => (layer.encoderKey, layer.encoderValue))

/-- The tokens of a vocabulary that a round can start from. -/
structure FlorenceWorker.StartsRound
    (worker : FlorenceWorker F)
    (InVocabulary : Int64 → Prop)
    (tokens : List Int64) : Prop where
  ne_nil : tokens ≠ []
  length_le : tokens.length ≤ worker.maxNewTokens
  in_vocabulary : ∀ token ∈ tokens, InVocabulary token

/--
What the graphs of a worker compute for one output of the encoder.  `logits` and
`Denotes` belong to lists of tokens, and `embedded` to what `embed_tokens` makes
of them.
-/
structure DecodesTokens
    [LinearOrder F]
    (worker : FlorenceWorker F)
    (hiddenStates : TensorData F)
    (mask : List Int64)
    (InVocabulary : Int64 → Prop)
    (embedded logits : List Int64 → TensorData F)
    (Denotes : DecoderCache F → List Int64 → Prop) : Prop where
  start_token : InVocabulary decoderStartTokenId
  next_token : ∀ tokens, worker.StartsRound InVocabulary tokens →
    ∀ token, argmaxLastToken (logits tokens) = .ok token → InVocabulary token
  embed_tokens : ∃ session, worker.embedTokens = some session ∧
    ∀ tokens, worker.StartsRound InVocabulary tokens → ∃ output others,
      session [("input_ids", .int64 [1, Int64.ofNat tokens.length] tokens)] =
          .ok (output :: others) ∧
        IsFloats output.2 (embedded tokens)
  decoder_model : ∃ session, worker.decoderModel = some session ∧
    ∀ tokens, worker.StartsRound InVocabulary tokens →
      ∀ inputs, Names inputs decoderInputNames →
      DecoderInputs inputs (embedded tokens) hiddenStates mask →
      ∃ outputs cache, session inputs = .ok outputs ∧
        GivesLogits outputs (logits tokens) ∧
        cache.layers.length = decoderLayers ∧
        PresentDecoder outputs cache ∧ PresentEncoder outputs cache ∧ Denotes cache tokens
  decoder_model_merged : ∃ session, worker.decoderModelMerged = some session ∧
    ∀ cache tokens token, cache.layers.length = decoderLayers →
      tokens ≠ [] → worker.StartsRound InVocabulary (tokens ++ [token]) →
      Denotes cache tokens →
      ∀ inputs, Names inputs mergedInputNames →
        DecoderInputs inputs (embedded [token]) hiddenStates mask →
        inputs.lookup "use_cache_branch" = some (.bool [1] [true]) →
        PastKeyValues inputs cache →
        ∃ outputs next, session inputs = .ok outputs ∧
          GivesLogits outputs (logits (tokens ++ [token])) ∧
          CarriesEncoder cache next ∧ PresentDecoder outputs next ∧
          Denotes next (tokens ++ [token])
  /-- the runtime makes tensors of what fits its shape -/
  ids_fit : ∀ tokens, worker.StartsRound InVocabulary tokens →
    worker.runtime.fromArrayError [1, Int64.ofNat tokens.length] tokens.length = none
  embeds_fit : ∀ tokens, worker.StartsRound InVocabulary tokens →
    ∃ seqLen, (embedded tokens).seqLen = .ok seqLen ∧
      worker.runtime.fromArrayError [1, Int64.ofNat seqLen, Int64.ofNat hiddenSize]
        (embedded tokens).data.length = none
  states_fit : ∃ seqLen, hiddenStates.seqLen = .ok seqLen ∧
    worker.runtime.fromArrayError [1, Int64.ofNat seqLen, Int64.ofNat hiddenSize]
        hiddenStates.data.length = none ∧
      worker.runtime.fromArrayError [1, Int64.ofNat seqLen] mask.length = none
  branch_fits : worker.runtime.fromArrayError [1] 1 = none

end Graphs

section Names

theorem lookup_eraseP_of_ne
    {outputs : NamedValues F}
    {name other : String}
    (hne : other ≠ name) :
    (outputs.eraseP (fun output => output.1 == name)).lookup other = outputs.lookup other := by
  induction outputs with
  | nil =>
      rfl
  | cons output rest ih =>
      obtain ⟨first, value⟩ := output
      by_cases hfirst : first = name
      · have hskip : (other == first) = false := by
          rw [beq_eq_false_iff_ne, hfirst]
          exact hne
        rw [List.eraseP_cons_of_pos (by simpa using hfirst), List.lookup_cons, hskip]
      · rw [List.eraseP_cons_of_neg (by simpa using hfirst), List.lookup_cons,
          List.lookup_cons, ih]

/-- The only entry under a name is found. -/
theorem lookup_of_unique
    {inputs : NamedValues F}
    {name : String}
    {value : DynValue F}
    (hmem : (name, value) ∈ inputs)
    (hunique : ∀ entry ∈ inputs, entry.1 = name → entry.2 = value) :
    inputs.lookup name = some value := by
  induction inputs with
  | nil =>
      cases hmem
  | cons entry rest ih =>
      obtain ⟨first, other⟩ := entry
      by_cases hfirst : name = first
      · have hvalue := hunique (first, other) List.mem_cons_self hfirst.symm
        rw [List.lookup_cons, beq_iff_eq.mpr hfirst]
        exact congrArg some hvalue
      · have hskip : (name == first) = false := beq_eq_false_iff_ne.mpr hfirst
        rw [List.lookup_cons, hskip]
        refine ih ?_ fun entry hentry => hunique entry (List.mem_cons_of_mem _ hentry)
        rcases List.mem_cons.mp hmem with heq | hrest
        · exact absurd (congrArg Prod.fst heq) hfirst
        · exact hrest

theorem presentCacheName_inj :
    ∀ i < decoderLayers, ∀ j < decoderLayers, ∀ kind other : CacheKind,
      presentCacheName i kind = presentCacheName j other → i = j ∧ kind = other := by
  intro i hi j hj kind other
  revert i j
  cases kind <;> cases other <;> decide +kernel

theorem pastCacheName_inj :
    ∀ i < decoderLayers, ∀ j < decoderLayers, ∀ kind other : CacheKind,
      pastCacheName i kind = pastCacheName j other → i = j ∧ kind = other := by
  intro i hi j hj kind other
  revert i j
  cases kind <;> cases other <;> decide +kernel

theorem presentCacheName_eq
    {kind : CacheKind}
    {suffix : String}
    (hsuffix : "." ++ cacheNameSuffix kind = suffix)
    (i : Nat) :
    presentCacheName i kind = "present." ++ toString i ++ suffix := by
  subst hsuffix
  exact String.append_assoc ..

theorem pastCacheName_eq
    {kind : CacheKind}
    {suffix : String}
    (hsuffix : "." ++ cacheNameSuffix kind = suffix)
    (i : Nat) :
    pastCacheName i kind = "past_key_values." ++ toString i ++ suffix := by
  subst hsuffix
  exact String.append_assoc ..

theorem decoderKey_suffix : "." ++ cacheNameSuffix .decoderKey = ".decoder.key" := by
  decide

theorem decoderValue_suffix : "." ++ cacheNameSuffix .decoderValue = ".decoder.value" := by
  decide

theorem encoderKey_suffix : "." ++ cacheNameSuffix .encoderKey = ".encoder.key" := by
  decide

theorem encoderValue_suffix : "." ++ cacheNameSuffix .encoderValue = ".encoder.value" := by
  decide

theorem pastCacheName_not_mem :
    ∀ i < decoderLayers, ∀ kind : CacheKind, pastCacheName i kind ∉ plainInputNames := by
  intro i hi kind
  revert i
  cases kind <;> decide +kernel

end Names

section Outputs

/-- One of the four values of a layer. -/
def DecoderLayerCache.get (layer : DecoderLayerCache F) : CacheKind → DynValue F
  | .decoderKey => layer.decoderKey
  | .decoderValue => layer.decoderValue
  | .encoderKey => layer.encoderKey
  | .encoderValue => layer.encoderValue

theorem PresentDecoder.lookup
    {outputs : NamedValues F}
    {cache : DecoderCache F}
    {layer : DecoderLayerCache F}
    {i : Nat}
    (hpresent : PresentDecoder outputs cache)
    (hlayer : cache.layers[i]? = some layer) :
    outputs.lookup (presentCacheName i .decoderKey) = some layer.decoderKey ∧
      outputs.lookup (presentCacheName i .decoderValue) = some layer.decoderValue := by
  rw [presentCacheName_eq decoderKey_suffix, presentCacheName_eq decoderValue_suffix]
  exact ⟨hpresent.key i layer hlayer, hpresent.value i layer hlayer⟩

theorem PresentEncoder.lookup
    {outputs : NamedValues F}
    {cache : DecoderCache F}
    {layer : DecoderLayerCache F}
    {i : Nat}
    (hpresent : PresentEncoder outputs cache)
    (hlayer : cache.layers[i]? = some layer) :
    outputs.lookup (presentCacheName i .encoderKey) = some layer.encoderKey ∧
      outputs.lookup (presentCacheName i .encoderValue) = some layer.encoderValue := by
  rw [presentCacheName_eq encoderKey_suffix, presentCacheName_eq encoderValue_suffix]
  exact ⟨hpresent.key i layer hlayer, hpresent.value i layer hlayer⟩

/-- `rest` is `outputs` as far as the layers from `start` on are concerned. -/
def AgreesFrom (start : Nat) (outputs rest : NamedValues F) : Prop :=
  ∀ j, start ≤ j → j < decoderLayers → ∀ kind,
    rest.lookup (presentCacheName j kind) = outputs.lookup (presentCacheName j kind)

/-- Behind the first layer the indices move up by one. -/
theorem AgreesFrom.lookup_succ
    {outputs rest : NamedValues F}
    {start k : Nat}
    (hagrees : AgreesFrom (start + 1) outputs rest)
    (hk : start + (k + 1) < decoderLayers)
    (kind : CacheKind) :
    rest.lookup (presentCacheName (start + 1 + k) kind) =
      outputs.lookup (presentCacheName (start + (k + 1)) kind) := by
  rw [hagrees (start + 1 + k) (by omega) (by omega), Nat.add_assoc, Nat.add_comm 1 k]

/-- Taking a value leaves the others in place. -/
theorem takeOutputValue_of_lookup
    {outputs : NamedValues F}
    {name : String}
    {value : DynValue F}
    (hvalue : outputs.lookup name = some value) :
    ∃ rest, takeOutputValue outputs name = .ok (value, rest) ∧
      ∀ other, other ≠ name → rest.lookup other = outputs.lookup other := by
  refine ⟨_, ?_, fun other hne => lookup_eraseP_of_ne hne⟩
  rw [takeOutputValue, hvalue]
  rfl

theorem presentCacheName_ne
    {i j : Nat}
    (hi : i < decoderLayers)
    (hj : j < decoderLayers)
    {kind other : CacheKind}
    (hne : i ≠ j ∨ kind ≠ other) :
    presentCacheName i kind ≠ presentCacheName j other := by
  intro hname
  obtain ⟨hindex, hkind⟩ := presentCacheName_inj i hi j hj kind other hname
  rcases hne with hne | hne
  · exact hne hindex
  · exact hne hkind

namespace DecoderCache

/-- One round of `with_updated_decoder_outputs` on outputs that have the layer. -/
theorem updateLayer_of_lookup
    {outputs : NamedValues F}
    {i : Nat}
    {decoderKey decoderValue : DynValue F}
    (previous : DecoderLayerCache F)
    (hi : i < decoderLayers)
    (hkey : outputs.lookup (presentCacheName i .decoderKey) = some decoderKey)
    (hvalue : outputs.lookup (presentCacheName i .decoderValue) = some decoderValue) :
    ∃ rest,
      updateLayer i previous outputs = .ok ({ previous with decoderKey, decoderValue }, rest) ∧
        AgreesFrom (i + 1) outputs rest := by
  obtain ⟨afterKey, htakeKey, hkeepKey⟩ := takeOutputValue_of_lookup hkey
  rw [← hkeepKey _ (presentCacheName_ne hi hi (Or.inr (by decide)))] at hvalue
  obtain ⟨afterValue, htakeValue, hkeepValue⟩ := takeOutputValue_of_lookup hvalue
  refine ⟨afterValue, ?_, ?_⟩
  · rw [updateLayer, htakeKey]
    simp only [bind, Except.bind, htakeValue]
  · intro j hij hj kind
    have hne : ∀ other : CacheKind, presentCacheName j kind ≠ presentCacheName i other :=
      fun other => presentCacheName_ne hj hi (Or.inl (by omega))
    rw [hkeepValue _ (hne _), hkeepKey _ (hne _)]

/-- One round of `from_decoder_outputs` on outputs that have the layer. -/
theorem takeLayer_of_lookup
    {outputs : NamedValues F}
    {i : Nat}
    {layer : DecoderLayerCache F}
    (hi : i < decoderLayers)
    (hlayer : ∀ kind, outputs.lookup (presentCacheName i kind) = some (layer.get kind)) :
    ∃ rest, takeLayer i outputs = .ok (layer, rest) ∧ AgreesFrom (i + 1) outputs rest := by
  obtain ⟨out1, htake1, hkeep1⟩ := takeOutputValue_of_lookup (hlayer .decoderKey)
  have hvalue := hlayer .decoderValue
  rw [← hkeep1 _ (presentCacheName_ne hi hi (Or.inr (by decide)))] at hvalue
  obtain ⟨out2, htake2, hkeep2⟩ := takeOutputValue_of_lookup hvalue
  have hencoderKey := hlayer .encoderKey
  rw [← hkeep1 _ (presentCacheName_ne hi hi (Or.inr (by decide))),
    ← hkeep2 _ (presentCacheName_ne hi hi (Or.inr (by decide)))] at hencoderKey
  obtain ⟨out3, htake3, hkeep3⟩ := takeOutputValue_of_lookup hencoderKey
  have hencoderValue := hlayer .encoderValue
  rw [← hkeep1 _ (presentCacheName_ne hi hi (Or.inr (by decide))),
    ← hkeep2 _ (presentCacheName_ne hi hi (Or.inr (by decide))),
    ← hkeep3 _ (presentCacheName_ne hi hi (Or.inr (by decide)))] at hencoderValue
  obtain ⟨out4, htake4, hkeep4⟩ := takeOutputValue_of_lookup hencoderValue
  refine ⟨out4, ?_, ?_⟩
  · rw [takeLayer, htake1]
    simp only [bind, Except.bind, htake2, htake3, htake4]
    rfl
  · intro j hij hj kind
    have hne : ∀ other : CacheKind, presentCacheName j kind ≠ presentCacheName i other :=
      fun other => presentCacheName_ne hj hi (Or.inl (by omega))
    rw [hkeep4 _ (hne _), hkeep3 _ (hne _), hkeep2 _ (hne _), hkeep1 _ (hne _)]

/-- The loop of `from_decoder_outputs` collects the layers. -/
theorem takeLayers_of_lookup
    {outputs : NamedValues F}
    {start : Nat}
    {layers : List (DecoderLayerCache F)}
    (hbound : start + layers.length ≤ decoderLayers)
    (hlayers : ∀ k layer, layers[k]? = some layer → ∀ kind,
      outputs.lookup (presentCacheName (start + k) kind) = some (layer.get kind)) :
    takeLayers layers.length start outputs = .ok layers := by
  induction layers generalizing start outputs with
  | nil =>
      rfl
  | cons layer layers ih =>
      rw [List.length_cons] at hbound
      obtain ⟨rest, htake, hagrees⟩ := takeLayer_of_lookup (i := start) (by omega)
        (hlayers 0 layer rfl)
      have hrest : takeLayers layers.length (start + 1) rest = .ok layers := by
        refine ih (by omega) ?_
        intro k other hother kind
        have hk : k < layers.length := (List.getElem?_eq_some_iff.mp hother).1
        rw [hagrees.lookup_succ (by omega)]
        exact hlayers (k + 1) other hother kind
      rw [List.length_cons, takeLayers, htake]
      simp only [bind, Except.bind, hrest]

/-- The loop of `with_updated_decoder_outputs` replaces what the decoder gave. -/
theorem updateLayers_of_lookup
    {outputs : NamedValues F}
    {start : Nat}
    {previous layers : List (DecoderLayerCache F)}
    (hbound : start + previous.length ≤ decoderLayers)
    (hencoder :
      layers.map (fun layer => (layer.encoderKey, layer.encoderValue)) =
        previous.map (fun layer => (layer.encoderKey, layer.encoderValue)))
    (hlayers : ∀ k layer, layers[k]? = some layer →
      outputs.lookup (presentCacheName (start + k) .decoderKey) = some layer.decoderKey ∧
        outputs.lookup (presentCacheName (start + k) .decoderValue) =
          some layer.decoderValue) :
    updateLayers previous start outputs = .ok layers := by
  induction previous generalizing start outputs layers with
  | nil =>
      rw [List.map_nil, List.map_eq_nil_iff] at hencoder
      rw [hencoder]
      rfl
  | cons before previous ih =>
      cases layers with
      | nil =>
          cases hencoder
      | cons layer layers =>
          rw [List.map_cons, List.map_cons] at hencoder
          obtain ⟨hfirst, hothers⟩ := List.cons.inj hencoder
          obtain ⟨hencoderKey, hencoderValue⟩ := Prod.mk.inj hfirst
          have hlength := congrArg List.length hothers
          rw [List.length_map, List.length_map] at hlength
          rw [List.length_cons] at hbound
          obtain ⟨hkey, hvalue⟩ := hlayers 0 layer rfl
          obtain ⟨rest, hupdate, hagrees⟩ :=
            updateLayer_of_lookup (i := start) before (by omega) hkey hvalue
          have hlayer :
              { before with
                decoderKey := layer.decoderKey, decoderValue := layer.decoderValue } =
                layer := by
            rw [← hencoderKey, ← hencoderValue]
          have hrest : updateLayers previous (start + 1) rest = .ok layers := by
            refine ih (by omega) hothers ?_
            intro k other hother
            have hk : k < layers.length := (List.getElem?_eq_some_iff.mp hother).1
            rw [hagrees.lookup_succ (by omega), hagrees.lookup_succ (by omega)]
            exact hlayers (k + 1) other hother
          rw [updateLayers, hupdate]
          simp only [bind, Except.bind, hrest, hlayer]

theorem fromDecoderOutputs_of_present
    {outputs : NamedValues F}
    {cache : DecoderCache F}
    (hlength : cache.layers.length = decoderLayers)
    (hdecoder : PresentDecoder outputs cache)
    (hencoder : PresentEncoder outputs cache) :
    fromDecoderOutputs outputs = .ok cache := by
  have htake : takeLayers cache.layers.length 0 outputs = .ok cache.layers := by
    refine takeLayers_of_lookup (by omega) ?_
    intro k layer hlayer kind
    obtain ⟨hkey, hvalue⟩ := hdecoder.lookup hlayer
    obtain ⟨hencoderKey, hencoderValue⟩ := hencoder.lookup hlayer
    rw [Nat.zero_add]
    cases kind with
    | decoderKey => exact hkey
    | decoderValue => exact hvalue
    | encoderKey => exact hencoderKey
    | encoderValue => exact hencoderValue
  rw [hlength] at htake
  rw [fromDecoderOutputs, htake]
  rfl

theorem withUpdatedDecoderOutputs_of_present
    {outputs : NamedValues F}
    {previous next : DecoderCache F}
    (hlength : previous.layers.length = decoderLayers)
    (hencoder : CarriesEncoder previous next)
    (hdecoder : PresentDecoder outputs next) :
    previous.withUpdatedDecoderOutputs outputs = .ok next := by
  have hupdate : updateLayers previous.layers 0 outputs = .ok next.layers := by
    refine updateLayers_of_lookup (by omega) hencoder ?_
    intro k layer hlayer
    rw [Nat.zero_add]
    exact hdecoder.lookup hlayer
  rw [withUpdatedDecoderOutputs, hupdate]
  rfl

end DecoderCache

end Outputs

section Inputs

theorem mem_pastInputs_iff
    {cache : DecoderCache F}
    {entry : String × DynValue F} :
    entry ∈ cache.pastInputs ↔
      ∃ i layer kind, cache.layers[i]? = some layer ∧
        entry = (pastCacheName i kind, layer.get kind) := by
  rw [DecoderCache.pastInputs, List.mem_flatMap]
  constructor
  · rintro ⟨⟨layer, i⟩, hmem, hentry⟩
    have hlayer := List.mem_zipIdx_iff_getElem?.mp hmem
    simp only [DecoderCache.layerInputs, List.mem_cons, List.not_mem_nil, or_false] at hentry
    rcases hentry with rfl | rfl | rfl | rfl
    · exact ⟨i, layer, .decoderKey, hlayer, rfl⟩
    · exact ⟨i, layer, .decoderValue, hlayer, rfl⟩
    · exact ⟨i, layer, .encoderKey, hlayer, rfl⟩
    · exact ⟨i, layer, .encoderValue, hlayer, rfl⟩
  · rintro ⟨i, layer, kind, hlayer, rfl⟩
    refine ⟨(layer, i), List.mem_zipIdx_iff_getElem?.mpr hlayer, ?_⟩
    cases kind <;> simp [DecoderCache.layerInputs, DecoderLayerCache.get]

theorem map_fst_pastInputs
    {cache : DecoderCache F}
    (hlength : cache.layers.length = decoderLayers) :
    cache.pastInputs.map Prod.fst = (List.range decoderLayers).flatMap layerInputNames := by
  have hnames : ∀ entry : DecoderLayerCache F × Nat,
      (DecoderCache.layerInputs entry.2 entry.1).map Prod.fst = layerInputNames entry.2 :=
    fun entry => rfl
  have hindices : cache.layers.zipIdx.map Prod.snd = List.range decoderLayers := by
    rw [List.zipIdx_map_snd, hlength, List.range_eq_range']
  rw [DecoderCache.pastInputs, List.map_flatMap, ← hindices, List.flatMap_map]
  exact List.flatMap_congr fun entry _ => hnames entry

/-- The inputs that belong to no layer come first and are found first. -/
theorem lookup_append_of_mem
    {front back : NamedValues F}
    {name : String}
    {value : DynValue F}
    (hvalue : front.lookup name = some value) :
    (front ++ back).lookup name = some value := by
  rw [List.lookup_append, hvalue]
  rfl

/-- Each value of a cache is found under its name. -/
theorem lookup_pastInputs
    {front : NamedValues F}
    {cache : DecoderCache F}
    {layer : DecoderLayerCache F}
    {i : Nat}
    (hfront : front.map Prod.fst = plainInputNames)
    (hlength : cache.layers.length = decoderLayers)
    (hlayer : cache.layers[i]? = some layer)
    (kind : CacheKind) :
    (front ++ cache.pastInputs).lookup (pastCacheName i kind) = some (layer.get kind) := by
  have hi : i < decoderLayers := hlength ▸ (List.getElem?_eq_some_iff.mp hlayer).1
  refine lookup_of_unique ?_ ?_
  · exact List.mem_append_right _ (mem_pastInputs_iff.mpr ⟨i, layer, kind, hlayer, rfl⟩)
  · intro entry hentry hname
    rcases List.mem_append.mp hentry with hplain | hpast
    · refine absurd ?_ (pastCacheName_not_mem i hi kind)
      rw [← hfront, ← hname]
      exact List.mem_map_of_mem hplain
    · obtain ⟨j, otherLayer, other, hother, rfl⟩ := mem_pastInputs_iff.mp hpast
      have hj : j < decoderLayers := hlength ▸ (List.getElem?_eq_some_iff.mp hother).1
      obtain ⟨rfl, rfl⟩ := pastCacheName_inj j hj i hi other kind hname
      rw [hlayer] at hother
      cases hother
      rfl

theorem pastKeyValues_of_append
    {front : NamedValues F}
    {cache : DecoderCache F}
    (hfront : front.map Prod.fst = plainInputNames)
    (hlength : cache.layers.length = decoderLayers) :
    PastKeyValues (front ++ cache.pastInputs) cache := by
  constructor
  · intro i layer hlayer
    rw [← pastCacheName_eq decoderKey_suffix i]
    exact lookup_pastInputs hfront hlength hlayer .decoderKey
  · intro i layer hlayer
    rw [← pastCacheName_eq decoderValue_suffix i]
    exact lookup_pastInputs hfront hlength hlayer .decoderValue
  · intro i layer hlayer
    rw [← pastCacheName_eq encoderKey_suffix i]
    exact lookup_pastInputs hfront hlength hlayer .encoderKey
  · intro i layer hlayer
    rw [← pastCacheName_eq encoderValue_suffix i]
    exact lookup_pastInputs hfront hlength hlayer .encoderValue

end Inputs

section Runs

variable
  {worker : FlorenceWorker F}
  {hiddenStates : TensorData F}
  {mask : List Int64}
  {InVocabulary : Int64 → Prop}
  {embedded logits : List Int64 → TensorData F}
  {Denotes : DecoderCache F → List Int64 → Prop}

theorem extractOutputTensor_of_isFloats
    {value : DynValue F}
    {tensor : TensorData F}
    (hvalue : IsFloats value tensor)
    (runtime : OrtRuntime F)
    (name : String) :
    extractOutputTensor runtime value name = .ok tensor := by
  rcases hvalue with rfl | rfl <;> rfl

theorem extractNamedOutputTensor_of_holds
    {outputs : NamedValues F}
    {name : String}
    {tensor : TensorData F}
    (houtput : HoldsFloats outputs name tensor)
    (runtime : OrtRuntime F) :
    extractNamedOutputTensor runtime outputs name = .ok tensor := by
  obtain ⟨value, hlookup, hvalue⟩ := houtput
  rw [extractNamedOutputTensor, hlookup]
  exact extractOutputTensor_of_isFloats hvalue runtime name

theorem fromArray_of_fits
    {α : Type}
    {runtime : OrtRuntime F}
    {shape : List Int64}
    {data : List α}
    (hfits : runtime.fromArrayError shape data.length = none)
    (tensorName : String)
    (wrap : List Int64 → List α → DynValue F) :
    runtime.fromArray tensorName wrap shape data = .ok (wrap shape data) := by
  rw [OrtRuntime.fromArray, hfits]

/-- A round on more tokens has room for the last of them alone. -/
theorem FlorenceWorker.StartsRound.last
    {tokens : List Int64}
    {token : Int64}
    (hstarts : worker.StartsRound InVocabulary (tokens ++ [token])) :
    worker.StartsRound InVocabulary [token] := by
  have hlength := hstarts.length_le
  rw [List.length_append, List.length_singleton] at hlength
  refine ⟨List.cons_ne_nil _ _, by rw [List.length_singleton]; omega, fun other hother => ?_⟩
  exact hstarts.in_vocabulary other (List.mem_append_right _ hother)

variable [LinearOrder F]

theorem DecodesTokens.runEmbedTokens_eq
    (hgraphs : DecodesTokens worker hiddenStates mask InVocabulary embedded logits Denotes)
    {tokens : List Int64}
    (hstarts : worker.StartsRound InVocabulary tokens) :
    worker.runEmbedTokens tokens = .ok (embedded tokens) := by
  obtain ⟨session, hsession, hrun⟩ := hgraphs.embed_tokens
  obtain ⟨output, others, houtputs, hfloats⟩ := hrun tokens hstarts
  rw [FlorenceWorker.runEmbedTokens, hsession]
  simp only [FlorenceWorker.session, okOr_some, bind, Except.bind,
    fromArray_of_fits (hgraphs.ids_fit tokens hstarts), runSession, houtputs, firstOutput,
    List.head?_cons]
  exact extractOutputTensor_of_isFloats hfloats worker.runtime _

theorem argmaxLastToken_of_givesLogits
    {outputs : NamedValues F}
    {reference : TensorData F}
    (hlogits : GivesLogits outputs reference)
    (runtime : OrtRuntime F) :
    ∃ tensor, extractNamedOutputTensor runtime outputs "logits" = .ok tensor ∧
      argmaxLastToken tensor = argmaxLastToken reference := by
  obtain ⟨tensor, houtput, hsame⟩ := hlogits
  refine ⟨tensor, extractNamedOutputTensor_of_holds houtput runtime, ?_⟩
  rcases hsame with rfl | hrow
  · rfl
  · exact argmaxLastToken_of_sameLastRow hrow

/-- What a round gets from either decoder. -/
structure RunFor
    (logits : List Int64 → TensorData F)
    (Denotes : DecoderCache F → List Int64 → Prop)
    (run : DecoderRun F)
    (tokens : List Int64) : Prop where
  choice : argmaxLastToken run.logits = argmaxLastToken (logits tokens)
  layers : run.cache.layers.length = decoderLayers
  denotes : Denotes run.cache tokens

/-- The decoder on all tokens. -/
theorem DecodesTokens.decoderRun_none
    (hgraphs : DecodesTokens worker hiddenStates mask InVocabulary embedded logits Denotes)
    {tokens : List Int64}
    (hstarts : worker.StartsRound InVocabulary tokens) :
    ∃ run, worker.decoderRun hiddenStates mask tokens none = .ok run ∧
      RunFor logits Denotes run tokens := by
  obtain ⟨session, hsession, hrun⟩ := hgraphs.decoder_model
  obtain ⟨seqLen, hseqLen, hembeds⟩ := hgraphs.embeds_fit tokens hstarts
  obtain ⟨stateLen, hstateLen, hstates, hmask⟩ := hgraphs.states_fit
  set inputs : NamedValues F :=
    [("inputs_embeds", .ofFloats [1, Int64.ofNat seqLen, Int64.ofNat hiddenSize]
        (embedded tokens).data),
      ("encoder_hidden_states", .ofFloats [1, Int64.ofNat stateLen, Int64.ofNat hiddenSize]
        hiddenStates.data),
      ("encoder_attention_mask", .int64 [1, Int64.ofNat stateLen] mask)] with hinputs
  have hdecoder : DecoderInputs inputs (embedded tokens) hiddenStates mask :=
    ⟨⟨seqLen, hseqLen, rfl⟩, ⟨stateLen, hstateLen, rfl⟩, ⟨stateLen, hstateLen, rfl⟩⟩
  obtain ⟨outputs, cache, houtputs, hlogits, hlength, hpresent, hencoder, hdenotes⟩ :=
    hrun tokens hstarts inputs (List.Perm.refl _) hdecoder
  obtain ⟨tensor, htensor, hchoice⟩ := argmaxLastToken_of_givesLogits hlogits worker.runtime
  refine ⟨{ logits := tensor, cache }, ?_, hchoice, hlength, hdenotes⟩
  rw [FlorenceWorker.decoderRun, hgraphs.runEmbedTokens_eq hstarts]
  simp only [bind, Except.bind, FlorenceWorker.runDecoderModel, FlorenceWorker.session,
    hsession, okOr_some, hseqLen, hstateLen, fromArray_of_fits hembeds,
    fromArray_of_fits hstates, fromArray_of_fits hmask, ← hinputs, runSession, houtputs,
    htensor, DecoderCache.fromDecoderOutputs_of_present hlength hpresent hencoder]

/-- The merged decoder on a cache and the last token. -/
theorem DecodesTokens.decoderRun_some
    (hgraphs : DecodesTokens worker hiddenStates mask InVocabulary embedded logits Denotes)
    {cache : DecoderCache F}
    {tokens : List Int64}
    {token : Int64}
    (hne : tokens ≠ [])
    (hstarts : worker.StartsRound InVocabulary (tokens ++ [token]))
    (hlength : cache.layers.length = decoderLayers)
    (hdenotes : Denotes cache tokens) :
    ∃ run, worker.decoderRun hiddenStates mask (tokens ++ [token]) (some cache) = .ok run ∧
      RunFor logits Denotes run (tokens ++ [token]) := by
  have hsingle := hstarts.last
  obtain ⟨session, hsession, hrun⟩ := hgraphs.decoder_model_merged
  obtain ⟨seqLen, hseqLen, hembeds⟩ := hgraphs.embeds_fit [token] hsingle
  obtain ⟨stateLen, hstateLen, hstates, hmask⟩ := hgraphs.states_fit
  set front : NamedValues F :=
    [("inputs_embeds", .ofFloats [1, Int64.ofNat seqLen, Int64.ofNat hiddenSize]
        (embedded [token]).data),
      ("encoder_hidden_states", .ofFloats [1, Int64.ofNat stateLen, Int64.ofNat hiddenSize]
        hiddenStates.data),
      ("encoder_attention_mask", .int64 [1, Int64.ofNat stateLen] mask),
      ("use_cache_branch", .bool [1] [true])] with hfront
  have hnames : Names (front ++ cache.pastInputs) mergedInputNames := by
    rw [Names, List.map_append, map_fst_pastInputs hlength]
    exact List.Perm.refl _
  have hdecoder :
      DecoderInputs (front ++ cache.pastInputs) (embedded [token]) hiddenStates mask :=
    ⟨⟨seqLen, hseqLen, lookup_append_of_mem rfl⟩,
      ⟨stateLen, hstateLen, lookup_append_of_mem rfl⟩,
      ⟨stateLen, hstateLen, lookup_append_of_mem rfl⟩⟩
  obtain ⟨outputs, next, houtputs, hlogits, hencoder, hpresent, hnext⟩ :=
    hrun cache tokens token hlength hne hstarts hdenotes (front ++ cache.pastInputs) hnames
      hdecoder (lookup_append_of_mem rfl) (pastKeyValues_of_append rfl hlength)
  obtain ⟨tensor, htensor, hchoice⟩ := argmaxLastToken_of_givesLogits hlogits worker.runtime
  have hlayers : next.layers.length = decoderLayers := by
    have hsame := congrArg List.length hencoder
    rw [List.length_map, List.length_map] at hsame
    exact hsame.trans hlength
  refine ⟨{ logits := tensor, cache := next }, ?_, hchoice, hlayers, hnext⟩
  have hlast : (tokens ++ [token]).getLast? = some token := List.getLast?_concat
  have hbranch : worker.runtime.fromArrayError [1] [true].length = none :=
    hgraphs.branch_fits
  rw [FlorenceWorker.decoderRun, hlast]
  simp only [bind, Except.bind, okOr_some, hgraphs.runEmbedTokens_eq hsingle,
    FlorenceWorker.runCachedDecoderModel, FlorenceWorker.session, hsession, hseqLen,
    hstateLen, fromArray_of_fits hembeds, fromArray_of_fits hstates, fromArray_of_fits hmask,
    fromArray_of_fits hbranch, ← hfront, runSession, houtputs, htensor,
    DecoderCache.withUpdatedDecoderOutputs_of_present hlength hencoder hpresent]

end Runs

end FlorenceServer
