import FlorenceServer.Inference.DecoderGraphs

/-!
# Cached decoding

Before each round but the first the cache denotes all tokens but the last, and the
last is fed next.

* `generatedIds_eq_uncached`: the loop generates what the decoder alone would.
-/

namespace FlorenceServer

variable {F : Type}

section Rounds

variable
  [LinearOrder F]
  {worker : FlorenceWorker F}
  {hiddenStates : TensorData F}
  {mask : List Int64}
  {InVocabulary : Int64 → Prop}
  {embedded logits : List Int64 → TensorData F}
  {Denotes : DecoderCache F → List Int64 → Prop}

/--
The loop invariant: once there is a cache, it denotes all tokens but the last.
-/
def CoversAllButLast (Denotes : DecoderCache F → List Int64 → Prop) :
    Option (DecoderCache F) → List Int64 → Prop
  | none, generatedIds => generatedIds ≠ []
  | some cache, generatedIds =>
      ∃ tokens token, generatedIds = tokens ++ [token] ∧ tokens ≠ [] ∧
        cache.layers.length = decoderLayers ∧ Denotes cache tokens

/-- Either decoder computes what the decoder computes for all tokens. -/
theorem DecodesTokens.decoderRun_of_covers
    (hgraphs : DecodesTokens worker hiddenStates mask InVocabulary embedded logits Denotes)
    {cache : Option (DecoderCache F)}
    {generatedIds : List Int64}
    (hcovers : CoversAllButLast Denotes cache generatedIds)
    (hstarts : worker.StartsRound InVocabulary generatedIds) :
    ∃ run, worker.decoderRun hiddenStates mask generatedIds cache = .ok run ∧
      RunFor logits Denotes run generatedIds := by
  cases cache with
  | none =>
      exact hgraphs.decoderRun_none hstarts
  | some cache =>
      obtain ⟨tokens, token, rfl, hne, hlength, hdenotes⟩ := hcovers
      exact hgraphs.decoderRun_some hne hstarts hlength hdenotes

/-- The cache of a round covers what the round started from. -/
theorem RunFor.covers
    {run : DecoderRun F}
    {generatedIds : List Int64}
    (hrun : RunFor logits Denotes run generatedIds)
    (hstarts : worker.StartsRound InVocabulary generatedIds)
    (nextTokenId : Int64) :
    CoversAllButLast Denotes (some run.cache) (generatedIds ++ [nextTokenId]) :=
  ⟨generatedIds, nextTokenId, rfl, hstarts.ne_nil, hrun.layers, hrun.denotes⟩

end Rounds

section Loops

variable [LinearOrder F]

namespace FlorenceWorker

variable (worker : FlorenceWorker F)

/-- Greedy decoding without a cache: `decoder_model` runs on all tokens in each round. -/
def uncachedLoop (encoderHiddenStates : TensorData F) (encoderAttentionMask : List Int64) :
    Nat → List Int64 → Except InferenceFailure (List Int64)
  | 0, generatedIds => .ok generatedIds
  | remaining + 1, generatedIds => do
      let run ← worker.decoderRun encoderHiddenStates encoderAttentionMask generatedIds none
      let nextTokenId ← argmaxLastToken run.logits
      if nextTokenId == eosTokenId then
        .ok (generatedIds ++ [nextTokenId])
      else
        uncachedLoop encoderHiddenStates encoderAttentionMask remaining
          (generatedIds ++ [nextTokenId])

/-- The ids of greedy decoding without a cache. -/
def uncachedIds (imageFeatures : TensorData F) (promptText : String) :
    Except InferenceFailure (List Int64) := do
  let inputs ← worker.encodeInputs imageFeatures promptText
  worker.uncachedLoop inputs.1 inputs.2 worker.maxNewTokens [decoderStartTokenId]

variable
  {worker}
  {hiddenStates : TensorData F}
  {mask : List Int64}

/-- A round of the loop, after its decoder run. -/
theorem decodeLoop_of_run
    {cache : Option (DecoderCache F)}
    {generatedIds : List Int64}
    {run : DecoderRun F}
    (hrun : worker.decoderRun hiddenStates mask generatedIds cache = .ok run)
    (remaining : Nat) :
    worker.decodeLoop hiddenStates mask (remaining + 1) generatedIds cache =
      (argmaxLastToken run.logits).bind fun nextTokenId =>
        if nextTokenId == eosTokenId then
          .ok (generatedIds ++ [nextTokenId])
        else
          worker.decodeLoop hiddenStates mask remaining (generatedIds ++ [nextTokenId])
            (some run.cache) := by
  rw [decodeLoop, hrun]
  rfl

theorem uncachedLoop_of_run
    {generatedIds : List Int64}
    {run : DecoderRun F}
    (hrun : worker.decoderRun hiddenStates mask generatedIds none = .ok run)
    (remaining : Nat) :
    worker.uncachedLoop hiddenStates mask (remaining + 1) generatedIds =
      (argmaxLastToken run.logits).bind fun nextTokenId =>
        if nextTokenId == eosTokenId then
          .ok (generatedIds ++ [nextTokenId])
        else
          worker.uncachedLoop hiddenStates mask remaining
            (generatedIds ++ [nextTokenId]) := by
  rw [uncachedLoop, hrun]
  rfl

/-- What the loop has added when it returns. -/
def Appended (generatedIds : List Int64) (remaining : Nat) (ids : List Int64) : Prop :=
  ∃ added, ids = generatedIds ++ added ∧ added.length ≤ remaining ∧
    ∀ i, added[i]? = some eosTokenId → i + 1 = added.length

/-- However the decoders behave, the loop stops at the end token. -/
theorem appended_of_decodeLoop
    {remaining : Nat}
    {generatedIds ids : List Int64}
    {cache : Option (DecoderCache F)}
    (hids : worker.decodeLoop hiddenStates mask remaining generatedIds cache = .ok ids) :
    Appended generatedIds remaining ids := by
  induction remaining generalizing generatedIds cache with
  | zero =>
      cases hids
      exact ⟨[], (List.append_nil _).symm, Nat.le_refl _, fun i hi => by cases hi⟩
  | succ remaining ih =>
      cases hrun : worker.decoderRun hiddenStates mask generatedIds cache with
      | error failure =>
          rw [decodeLoop, hrun] at hids
          cases hids
      | ok run =>
          rw [decodeLoop_of_run hrun] at hids
          cases hnext : argmaxLastToken run.logits with
          | error failure =>
              rw [hnext] at hids
              cases hids
          | ok nextTokenId =>
              rw [hnext] at hids
              by_cases heos : nextTokenId = eosTokenId
              · rw [Except.bind, if_pos (beq_iff_eq.mpr heos)] at hids
                cases hids
                refine ⟨[nextTokenId], rfl, by simp, fun i hi => ?_⟩
                have hlt := (List.getElem?_eq_some_iff.mp hi).1
                rw [List.length_singleton] at hlt ⊢
                omega
              · rw [Except.bind, if_neg (fun h => heos (beq_iff_eq.mp h))] at hids
                obtain ⟨added, rfl, hlength, hlast⟩ := ih hids
                refine ⟨nextTokenId :: added, ?_, ?_, ?_⟩
                · rw [List.append_assoc, List.singleton_append]
                · rw [List.length_cons]
                  omega
                · intro i hi
                  cases i with
                  | zero =>
                      exact absurd (Option.some.inj hi) heos
                  | succ i =>
                      rw [List.length_cons, ← hlast i hi]

end FlorenceWorker

variable
  {worker : FlorenceWorker F}
  {hiddenStates : TensorData F}
  {mask : List Int64}
  {InVocabulary : Int64 → Prop}
  {embedded logits : List Int64 → TensorData F}
  {Denotes : DecoderCache F → List Int64 → Prop}

/-- A generation under way, with room for so many more tokens. -/
structure HasRoom
    (worker : FlorenceWorker F)
    (InVocabulary : Int64 → Prop)
    (remaining : Nat)
    (generatedIds : List Int64) : Prop where
  ne_nil : generatedIds ≠ []
  length_le : generatedIds.length + remaining ≤ worker.maxNewTokens + 1
  in_vocabulary : ∀ token ∈ generatedIds, InVocabulary token

omit [LinearOrder F] in
theorem HasRoom.startsRound
    {remaining : Nat}
    {generatedIds : List Int64}
    (hroom : HasRoom worker InVocabulary (remaining + 1) generatedIds) :
    worker.StartsRound InVocabulary generatedIds := by
  have hlength := hroom.length_le
  exact ⟨hroom.ne_nil, by omega, hroom.in_vocabulary⟩

omit [LinearOrder F] in
theorem HasRoom.append
    {remaining : Nat}
    {generatedIds : List Int64}
    {nextTokenId : Int64}
    (hroom : HasRoom worker InVocabulary (remaining + 1) generatedIds)
    (hnext : InVocabulary nextTokenId) :
    HasRoom worker InVocabulary remaining (generatedIds ++ [nextTokenId]) := by
  have hlength := hroom.length_le
  refine ⟨by simp, ?_, ?_⟩
  · rw [List.length_append, List.length_singleton]
    omega
  · intro token htoken
    rcases List.mem_append.mp htoken with hold | hnew
    · exact hroom.in_vocabulary token hold
    · rw [List.mem_singleton.mp hnew]
      exact hnext

/-- The loop with a cache and the one without agree from every state of the invariant. -/
theorem DecodesTokens.decodeLoop_eq
    (hgraphs : DecodesTokens worker hiddenStates mask InVocabulary embedded logits Denotes)
    {remaining : Nat}
    {generatedIds : List Int64}
    {cache : Option (DecoderCache F)}
    (hcovers : CoversAllButLast Denotes cache generatedIds)
    (hroom : HasRoom worker InVocabulary remaining generatedIds) :
    worker.decodeLoop hiddenStates mask remaining generatedIds cache =
      worker.uncachedLoop hiddenStates mask remaining generatedIds := by
  induction remaining generalizing generatedIds cache with
  | zero =>
      rfl
  | succ remaining ih =>
      have hstarts := hroom.startsRound
      obtain ⟨run, hrun, hfor⟩ := hgraphs.decoderRun_of_covers hcovers hstarts
      obtain ⟨fresh, hfresh, hfreshFor⟩ := hgraphs.decoderRun_none hstarts
      rw [FlorenceWorker.decodeLoop_of_run hrun, FlorenceWorker.uncachedLoop_of_run hfresh,
        hfor.choice, hfreshFor.choice]
      cases hnext : argmaxLastToken (logits generatedIds) with
      | error failure =>
          rfl
      | ok nextTokenId =>
          have htoken := hgraphs.next_token generatedIds hstarts nextTokenId hnext
          rw [Except.bind, Except.bind,
            ih (hfor.covers hstarts nextTokenId) (hroom.append htoken)]

/-- With logits for all tokens the loop returns. -/
theorem DecodesTokens.decodeLoop_returns
    (hgraphs : DecodesTokens worker hiddenStates mask InVocabulary embedded logits Denotes)
    (hlogits : ∀ tokens, worker.StartsRound InVocabulary tokens →
      ∃ seqLen vocabSize, LogitsOf (logits tokens) seqLen vocabSize)
    {remaining : Nat}
    {generatedIds : List Int64}
    {cache : Option (DecoderCache F)}
    (hcovers : CoversAllButLast Denotes cache generatedIds)
    (hroom : HasRoom worker InVocabulary remaining generatedIds) :
    ∃ ids, worker.decodeLoop hiddenStates mask remaining generatedIds cache = .ok ids := by
  induction remaining generalizing generatedIds cache with
  | zero =>
      exact ⟨generatedIds, rfl⟩
  | succ remaining ih =>
      have hstarts := hroom.startsRound
      obtain ⟨run, hrun, hfor⟩ := hgraphs.decoderRun_of_covers hcovers hstarts
      rw [FlorenceWorker.decodeLoop_of_run hrun, hfor.choice]
      rcases argmaxLastToken_cases (logits generatedIds) with
        ⟨seqLen, vocabSize, nextTokenId, -, htoken, -⟩ | ⟨hnone, -⟩
      · have hnext := hgraphs.next_token generatedIds hstarts nextTokenId htoken
        rw [htoken, Except.bind]
        split
        · exact ⟨_, rfl⟩
        · exact ih (hfor.covers hstarts nextTokenId) (hroom.append hnext)
      · exact absurd (hlogits generatedIds hstarts) hnone

omit [LinearOrder F] in
/-- The initial state of the loop. -/
theorem coversAllButLast_start :
    CoversAllButLast Denotes none [decoderStartTokenId] :=
  List.cons_ne_nil _ _

theorem DecodesTokens.hasRoom_start
    (hgraphs : DecodesTokens worker hiddenStates mask InVocabulary embedded logits Denotes) :
    HasRoom worker InVocabulary worker.maxNewTokens [decoderStartTokenId] := by
  refine ⟨List.cons_ne_nil _ _, ?_, ?_⟩
  · rw [List.length_singleton, Nat.add_comm]
  · intro token htoken
    rw [List.mem_singleton.mp htoken]
    exact hgraphs.start_token

end Loops

/--
With graphs that decode tokens, the loop that keeps a cache generates what the
decoder alone would: the start token, then at most `max_new_tokens` tokens of
which only the last can be the end token.
-/
theorem generatedIds_eq_uncached
    [LinearOrder F]
    (worker : FlorenceWorker F)
    (imageFeatures : TensorData F)
    (promptText : String)
    (InVocabulary : Int64 → Prop)
    (embedded : List Int64 → TensorData F)
    (logits : TensorData F → List Int64 → List Int64 → TensorData F)
    (Denotes : TensorData F → List Int64 → DecoderCache F → List Int64 → Prop)
    (hgraphs : ∀ hiddenStates mask,
      worker.encodeInputs imageFeatures promptText = .ok (hiddenStates, mask) →
        DecodesTokens worker hiddenStates mask InVocabulary embedded
          (logits hiddenStates mask) (Denotes hiddenStates mask)) :
    worker.generatedIds imageFeatures promptText =
        worker.uncachedIds imageFeatures promptText ∧
    (∀ ids, worker.generatedIds imageFeatures promptText = .ok ids →
      ids.head? = some decoderStartTokenId ∧
      ids.length ≤ worker.maxNewTokens + 1 ∧
      ∀ i, 0 < i → ids[i]? = some eosTokenId → i + 1 = ids.length) ∧
    ∀ hiddenStates mask,
      worker.encodeInputs imageFeatures promptText = .ok (hiddenStates, mask) →
      (∀ tokens, worker.StartsRound InVocabulary tokens →
        ∃ seqLen vocabSize,
          LogitsOf (logits hiddenStates mask tokens) seqLen vocabSize) →
      ∃ ids, worker.generatedIds imageFeatures promptText = .ok ids := by
  rw [FlorenceWorker.generatedIds, FlorenceWorker.uncachedIds]
  cases hinputs : worker.encodeInputs imageFeatures promptText with
  | error failure =>
      refine ⟨rfl, ?_, ?_⟩
      · intro ids hids
        cases hids
      · intro hiddenStates mask hok
        cases hok
  | ok inputs =>
      obtain ⟨hiddenStates, mask⟩ := inputs
      have hdecodes := hgraphs hiddenStates mask hinputs
      have hroom := hdecodes.hasRoom_start
      refine ⟨hdecodes.decodeLoop_eq coversAllButLast_start hroom, ?_, ?_⟩
      · intro ids hids
        obtain ⟨added, rfl, hlength, hlast⟩ := FlorenceWorker.appended_of_decodeLoop hids
        refine ⟨rfl, ?_, ?_⟩
        · rw [List.length_append, List.length_singleton]
          omega
        · intro i hi heos
          obtain ⟨j, rfl⟩ := Nat.exists_eq_succ_of_ne_zero (Nat.ne_of_gt hi)
          rw [List.length_append, List.length_singleton, ← hlast j heos]
          omega
      · intro states attention hok hlogits
        cases hok
        exact hdecodes.decodeLoop_returns hlogits coversAllButLast_start hroom

section Sample

/-- A row of its own value for each token. -/
def sampleEmbedded (tokens : List Int64) : TensorData Nat :=
  { shape := [1, Int64.ofNat tokens.length, Int64.ofNat hiddenSize]
    data := tokens.flatMap (fun id => List.replicate hiddenSize id.toInt.toNat) }

/-- After the start token comes token 5, after any other the end token. -/
def sampleLogits (keys : TensorData Nat) : TensorData Nat :=
  { shape := [1, 1, 6]
    data := if keys.data.getLast? = some 2 then [0, 0, 0, 0, 0, 1] else [0, 0, 1, 0, 0, 0] }

/-- All names of a decoder's outputs but `logits`. -/
def samplePresentNames : List String :=
  (List.range decoderLayers).flatMap (fun i =>
    [presentCacheName i .decoderKey, presentCacheName i .decoderValue,
      presentCacheName i .encoderKey, presentCacheName i .encoderValue])

/-- The outputs of a decoder that has seen `keys`. -/
def sampleOutputs (keys : TensorData Nat) : NamedValues Nat :=
  samplePresentNames.map (fun name => (name, .float32 keys)) ++
    [("logits", .float32 (sampleLogits keys))]

def sampleEmbedTokens : Session Nat := fun inputs =>
  match inputs.lookup "input_ids" with
  | some (.int64 _ ids) => .ok [("inputs_embeds", .float32 (sampleEmbedded ids))]
  | _ => .error "invalid input_ids"

def sampleEncoder : Session Nat := fun inputs =>
  match inputs.lookup "inputs_embeds" with
  | some embeds => .ok [("last_hidden_state", embeds)]
  | none => .error "missing inputs_embeds"

def sampleDecoder : Session Nat := fun inputs =>
  match inputs.lookup "inputs_embeds" with
  | some (.float32 embeds) => .ok (sampleOutputs embeds)
  | _ => .error "invalid inputs_embeds"

/-- A sequence of embeddings after another. -/
def sampleAppend (past embeds : TensorData Nat) : TensorData Nat :=
  { shape := [1, Int64.ofNat ((past.data.length + embeds.data.length) / hiddenSize),
      Int64.ofNat hiddenSize]
    data := past.data ++ embeds.data }

def sampleMergedDecoder : Session Nat := fun inputs =>
  match inputs.lookup "inputs_embeds", inputs.lookup (pastCacheName 0 .decoderKey) with
  | some (.float32 embeds), some (.float32 past) =>
      .ok (sampleOutputs (sampleAppend past embeds))
  | _, _ => .error "invalid inputs"

/-- A worker of at most three tokens, whose runtime compares sizes with shapes. -/
def sampleWorker : FlorenceWorker Nat :=
  { id := 0
    embedTokens := some sampleEmbedTokens
    encoderModel := some sampleEncoder
    decoderModel := some sampleDecoder
    decoderModelMerged := some sampleMergedDecoder
    tokenizer := { encode := fun _ => .ok [7], decode := fun _ => .ok "" }
    maxNewTokens := 3
    runtime :=
      { fromArrayError := fun shape size =>
          if (shape.map Int64.toInt).prod = size then none
          else some "shape does not match data"
        debugDtype := fun _ => "dtype" } }

/-- One image token. -/
def sampleFeatures : TensorData Nat :=
  { shape := [1, 1, Int64.ofNat hiddenSize], data := List.replicate hiddenSize 0 }

/-- What the sample encoder makes of the image token and one prompt token. -/
def sampleStates : TensorData Nat :=
  { shape := [1, 2, Int64.ofNat hiddenSize]
    data := List.replicate hiddenSize 0 ++ List.replicate hiddenSize 7 }

theorem sampleWorker_encodeInputs :
    sampleWorker.encodeInputs sampleFeatures "" = .ok (sampleStates, [1, 1]) := by
  decide +kernel

theorem sampleWorker_generatedIds :
    sampleWorker.generatedIds sampleFeatures "" = .ok [2, 5, 2] := by
  decide +kernel

/-- The six tokens of the sample. -/
def SampleVocabulary (token : Int64) : Prop :=
  0 ≤ token.toInt ∧ token.toInt < 6

theorem length_sampleEmbedded (tokens : List Int64) :
    (sampleEmbedded tokens).data.length = tokens.length * hiddenSize := by
  simp [sampleEmbedded]

theorem toInt_length_of_startsRound
    {tokens : List Int64}
    (hstarts : sampleWorker.StartsRound SampleVocabulary tokens) :
    (Int64.ofNat tokens.length).toInt = tokens.length := by
  have hlength : tokens.length ≤ 3 := hstarts.length_le
  exact Int64.toInt_ofNat_of_lt (by omega)

theorem sampleEmbedded_seqLen
    {tokens : List Int64}
    (hstarts : sampleWorker.StartsRound SampleVocabulary tokens) :
    (sampleEmbedded tokens).seqLen = .ok tokens.length := by
  have hdim : usizeTryFrom (Int64.ofNat tokens.length) = some tokens.length := by
    rw [usizeTryFrom, toInt_length_of_startsRound hstarts, if_pos (Int.natCast_nonneg _),
      Int.toNat_natCast]
  simp only [TensorData.seqLen, sampleEmbedded, List.getElem?_cons_succ,
    List.getElem?_cons_zero, okOr_some, bind, Except.bind, hdim]

theorem sampleAppend_sampleEmbedded
    (tokens : List Int64)
    (token : Int64) :
    sampleAppend (sampleEmbedded tokens) (sampleEmbedded [token]) =
      sampleEmbedded (tokens ++ [token]) := by
  have hlength : (tokens.length * hiddenSize + 1 * hiddenSize) / hiddenSize =
      tokens.length + 1 := by
    rw [← Nat.add_mul, Nat.mul_div_cancel _ (by decide)]
  rw [sampleAppend, length_sampleEmbedded, length_sampleEmbedded, List.length_singleton,
    hlength]
  simp [sampleEmbedded]

/-- All present values of the sample decoders are the keys. -/
theorem lookup_sampleOutputs
    {name : String}
    (hname : name ∈ samplePresentNames)
    (keys : TensorData Nat) :
    (sampleOutputs keys).lookup name = some (.float32 keys) := by
  refine lookup_append_of_mem (lookup_of_unique ?_ ?_)
  · exact List.mem_map_of_mem hname
  · intro entry hentry _
    obtain ⟨other, -, rfl⟩ := List.mem_map.mp hentry
    rfl

theorem lookup_logits_sampleOutputs (keys : TensorData Nat) :
    (sampleOutputs keys).lookup "logits" = some (.float32 (sampleLogits keys)) := by
  refine lookup_of_unique ?_ ?_
  · exact List.mem_append_right _ List.mem_cons_self
  · intro entry hentry hname
    rcases List.mem_append.mp hentry with hpresent | hlogits
    · obtain ⟨other, hother, rfl⟩ := List.mem_map.mp hpresent
      have hnot : "logits" ∉ samplePresentNames := by
        decide +kernel
      rw [← hname] at hnot
      exact absurd hother hnot
    · rw [List.mem_singleton.mp hlogits]

theorem givesLogits_sampleOutputs (keys : TensorData Nat) :
    GivesLogits (sampleOutputs keys) (sampleLogits keys) :=
  ⟨sampleLogits keys, ⟨_, lookup_logits_sampleOutputs keys, Or.inl rfl⟩, Or.inl rfl⟩

theorem presentCacheName_mem
    {i : Nat}
    (hi : i < decoderLayers)
    (kind : CacheKind) :
    presentCacheName i kind ∈ samplePresentNames := by
  refine List.mem_flatMap.mpr ⟨i, List.mem_range.mpr hi, ?_⟩
  cases kind <;> simp

/-- A cache whose decoder part is `keys` is among the outputs. -/
theorem presentDecoder_sampleOutputs
    {cache : DecoderCache Nat}
    {keys : TensorData Nat}
    (hlength : cache.layers.length = decoderLayers)
    (hkeys : ∀ layer ∈ cache.layers,
      layer.decoderKey = .float32 keys ∧ layer.decoderValue = .float32 keys) :
    PresentDecoder (sampleOutputs keys) cache := by
  have hlayer : ∀ (i : Nat) layer, cache.layers[i]? = some layer →
      i < decoderLayers ∧ layer.decoderKey = .float32 keys ∧
        layer.decoderValue = .float32 keys := by
    intro i layer hget
    have hi := (List.getElem?_eq_some_iff.mp hget).1
    exact ⟨hlength ▸ hi, hkeys layer (List.mem_of_getElem? hget)⟩
  constructor
  · intro i layer hget
    obtain ⟨hi, hkey, -⟩ := hlayer i layer hget
    rw [← presentCacheName_eq decoderKey_suffix, hkey]
    exact lookup_sampleOutputs (presentCacheName_mem hi _) keys
  · intro i layer hget
    obtain ⟨hi, -, hvalue⟩ := hlayer i layer hget
    rw [← presentCacheName_eq decoderValue_suffix, hvalue]
    exact lookup_sampleOutputs (presentCacheName_mem hi _) keys

/-- The cache after a run without one. -/
def sampleCache (keys : TensorData Nat) : DecoderCache Nat :=
  { layers := List.replicate decoderLayers
      { decoderKey := .float32 keys, decoderValue := .float32 keys
        encoderKey := .float32 keys, encoderValue := .float32 keys } }

theorem presentEncoder_sampleOutputs (keys : TensorData Nat) :
    PresentEncoder (sampleOutputs keys) (sampleCache keys) := by
  have hlayer : ∀ (i : Nat) layer, (sampleCache keys).layers[i]? = some layer →
      i < decoderLayers ∧ layer.encoderKey = .float32 keys ∧
        layer.encoderValue = .float32 keys := by
    intro i layer hget
    have hi := (List.getElem?_eq_some_iff.mp hget).1
    rw [sampleCache, List.length_replicate] at hi
    rw [List.eq_of_mem_replicate (List.mem_of_getElem? hget)]
    exact ⟨hi, rfl, rfl⟩
  constructor
  · intro i layer hget
    obtain ⟨hi, hkey, -⟩ := hlayer i layer hget
    rw [← presentCacheName_eq encoderKey_suffix, hkey]
    exact lookup_sampleOutputs (presentCacheName_mem hi _) keys
  · intro i layer hget
    obtain ⟨hi, -, hvalue⟩ := hlayer i layer hget
    rw [← presentCacheName_eq encoderValue_suffix, hvalue]
    exact lookup_sampleOutputs (presentCacheName_mem hi _) keys

/-- The keys of each layer are the embeddings of the tokens. -/
def sampleDenotes (cache : DecoderCache Nat) (tokens : List Int64) : Prop :=
  ∀ layer ∈ cache.layers, layer.decoderKey = .float32 (sampleEmbedded tokens)

/-- The embeddings that a decoder is given are those of the tokens. -/
theorem lookup_inputs_embeds
    {inputs : NamedValues Nat}
    {tokens : List Int64}
    {hiddenStates : TensorData Nat}
    {mask : List Int64}
    (hstarts : sampleWorker.StartsRound SampleVocabulary tokens)
    (hinputs : DecoderInputs inputs (sampleEmbedded tokens) hiddenStates mask) :
    inputs.lookup "inputs_embeds" = some (.float32 (sampleEmbedded tokens)) := by
  obtain ⟨seqLen, hseqLen, hlookup⟩ := hinputs.inputs_embeds
  rw [sampleEmbedded_seqLen hstarts] at hseqLen
  cases hseqLen
  exact hlookup

theorem sampleDecoder_of_inputs
    {inputs : NamedValues Nat}
    {embeds : TensorData Nat}
    (hembeds : inputs.lookup "inputs_embeds" = some (.float32 embeds)) :
    sampleDecoder inputs = .ok (sampleOutputs embeds) := by
  rw [sampleDecoder, hembeds]

theorem sampleMergedDecoder_of_inputs
    {inputs : NamedValues Nat}
    {embeds past : TensorData Nat}
    (hembeds : inputs.lookup "inputs_embeds" = some (.float32 embeds))
    (hpast : inputs.lookup (pastCacheName 0 .decoderKey) = some (.float32 past)) :
    sampleMergedDecoder inputs = .ok (sampleOutputs (sampleAppend past embeds)) := by
  rw [sampleMergedDecoder, hembeds, hpast]

/-- The first layer's keys reach the merged decoder. -/
theorem lookup_first_key
    {inputs : NamedValues Nat}
    {cache : DecoderCache Nat}
    {tokens : List Int64}
    (hlength : cache.layers.length = decoderLayers)
    (hdenotes : sampleDenotes cache tokens)
    (hpast : PastKeyValues inputs cache) :
    inputs.lookup (pastCacheName 0 .decoderKey) =
      some (.float32 (sampleEmbedded tokens)) := by
  obtain ⟨layer, hlayer⟩ : ∃ layer, cache.layers[0]? = some layer := by
    refine ⟨_, List.getElem?_eq_getElem ?_⟩
    rw [hlength]
    decide
  rw [pastCacheName_eq decoderKey_suffix, hpast.decoder_key 0 layer hlayer,
    hdenotes layer (List.mem_of_getElem? hlayer)]

/-- The sample chooses tokens of its vocabulary. -/
theorem sampleVocabulary_of_argmax
    {keys : TensorData Nat}
    {token : Int64}
    (htoken : argmaxLastToken (sampleLogits keys) = .ok token) :
    SampleVocabulary token := by
  rcases argmaxLastToken_cases (sampleLogits keys) with
    ⟨seqLen, vocabSize, chosen, hlogits, hchosen, hargmax⟩ | ⟨-, text, herror⟩
  · rw [htoken] at hchosen
    cases hchosen
    obtain ⟨batch, seqLenDim, vocabDim, hshape, -, hdim⟩ := hlogits.shape
    cases hshape
    have hsix : (6 : Int64).toInt = 6 := by
      decide
    have hin := hargmax.in_vocab
    exact ⟨hargmax.nonneg, by omega⟩
  · rw [htoken] at herror
    cases herror

/-- The graphs of the sample decode tokens. -/
theorem sampleWorker_decodesTokens :
    DecodesTokens sampleWorker sampleStates [1, 1] SampleVocabulary sampleEmbedded
      (fun tokens => sampleLogits (sampleEmbedded tokens)) sampleDenotes := by
  refine
    { start_token := ⟨by decide, by decide⟩
      next_token := fun tokens _ token htoken => sampleVocabulary_of_argmax htoken
      embed_tokens := ⟨sampleEmbedTokens, rfl, fun tokens _ =>
        ⟨("inputs_embeds", .float32 (sampleEmbedded tokens)), [], rfl, Or.inl rfl⟩⟩
      decoder_model := ⟨sampleDecoder, rfl, ?_⟩
      decoder_model_merged := ⟨sampleMergedDecoder, rfl, ?_⟩
      ids_fit := ?_
      embeds_fit := ?_
      states_fit := ⟨2, by decide +kernel, by decide +kernel, by decide +kernel⟩
      branch_fits := by decide }
  · intro tokens hstarts inputs _ hinputs
    have hembeds := lookup_inputs_embeds hstarts hinputs
    refine ⟨_, sampleCache (sampleEmbedded tokens), sampleDecoder_of_inputs hembeds,
      givesLogits_sampleOutputs _, List.length_replicate, ?_,
      presentEncoder_sampleOutputs _, ?_⟩
    · refine presentDecoder_sampleOutputs List.length_replicate fun layer hlayer => ?_
      rw [List.eq_of_mem_replicate hlayer]
      exact ⟨rfl, rfl⟩
    · intro layer hlayer
      rw [List.eq_of_mem_replicate hlayer]
  · intro cache tokens token hlength _ hstarts hdenotes inputs _ hinputs _ hpast
    have hembeds := lookup_inputs_embeds hstarts.last hinputs
    have hkey := lookup_first_key hlength hdenotes hpast
    have hrun := sampleMergedDecoder_of_inputs hembeds hkey
    rw [sampleAppend_sampleEmbedded] at hrun
    set keys := sampleEmbedded (tokens ++ [token])
    refine ⟨_, { layers := cache.layers.map fun layer =>
        { layer with decoderKey := .float32 keys, decoderValue := .float32 keys } },
      hrun, givesLogits_sampleOutputs _, ?_, ?_, ?_⟩
    · rw [CarriesEncoder, List.map_map]
      rfl
    · refine presentDecoder_sampleOutputs ?_ fun layer hlayer => ?_
      · rw [List.length_map, hlength]
      · obtain ⟨previous, -, rfl⟩ := List.mem_map.mp hlayer
        exact ⟨rfl, rfl⟩
    · intro layer hlayer
      obtain ⟨previous, -, rfl⟩ := List.mem_map.mp hlayer
      rfl
  · intro tokens hstarts
    refine if_pos ?_
    simp [toInt_length_of_startsRound hstarts]
  · intro tokens hstarts
    refine ⟨tokens.length, sampleEmbedded_seqLen hstarts, if_pos ?_⟩
    have hhidden : (Int64.ofNat hiddenSize).toInt = hiddenSize := by
      decide
    rw [length_sampleEmbedded]
    simp [toInt_length_of_startsRound hstarts, hhidden]

/-- The sample generates one token and the end token, of three that it may. -/
theorem generatedIds_eq_uncached_sample :
    sampleWorker.uncachedIds sampleFeatures "" = .ok [2, 5, 2] := by
  have hdecodes : ∀ hiddenStates mask,
      sampleWorker.encodeInputs sampleFeatures "" = .ok (hiddenStates, mask) →
        DecodesTokens sampleWorker hiddenStates mask SampleVocabulary sampleEmbedded
          (fun tokens => sampleLogits (sampleEmbedded tokens)) sampleDenotes := by
    intro hiddenStates mask hinputs
    rw [sampleWorker_encodeInputs] at hinputs
    cases hinputs
    exact sampleWorker_decodesTokens
  have hsame := generatedIds_eq_uncached sampleWorker sampleFeatures "" SampleVocabulary
    sampleEmbedded (fun _ _ tokens => sampleLogits (sampleEmbedded tokens))
    (fun _ _ => sampleDenotes) hdecodes
  exact hsame.1.symm.trans sampleWorker_generatedIds

end Sample

end FlorenceServer
