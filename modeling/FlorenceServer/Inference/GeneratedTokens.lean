import FlorenceServer.Lib.Fallible
import FlorenceServer.Inference.CachedDecoding

/-!
# Chosen tokens

`argmax_last_token` for every shape and all data, and what its bound means for the
ids that `generate_once` converts for the tokenizer.
-/

namespace FlorenceServer

variable {F : Type}

section Dimensions

/-- The dimensions are determined by the shape. -/
theorem LogitsOf.unique
    {logits : TensorData F}
    {seqLen vocabSize seqLen' vocabSize' : Nat}
    (hlogits : LogitsOf logits seqLen vocabSize)
    (hlogits' : LogitsOf logits seqLen' vocabSize') :
    seqLen = seqLen' ∧ vocabSize = vocabSize' := by
  obtain ⟨batch, seqLenDim, vocabDim, hshape, hseq, hvocab⟩ := hlogits.shape
  obtain ⟨batch', seqLenDim', vocabDim', hshape', hseq', hvocab'⟩ := hlogits'.shape
  rw [hshape] at hshape'
  cases hshape'
  constructor
  · exact Int.ofNat_inj.mp (hseq.symm.trans hseq')
  · exact Int.ofNat_inj.mp (hvocab.symm.trans hvocab')

end Dimensions

section DecoderRuns

theorem okOr_eq_ok
    {α : Type}
    {value : Option α}
    {text : String}
    {a : α}
    (h : okOr value text = .ok a) :
    value = some a := by
  cases value with
  | none => cases h
  | some value =>
      cases h
      rfl

theorem holdsFloats_of_extract
    {runtime : OrtRuntime F}
    {outputs : NamedValues F}
    {name : String}
    {tensor : TensorData F}
    (h : extractNamedOutputTensor runtime outputs name = .ok tensor) :
    HoldsFloats outputs name tensor := by
  obtain ⟨value, hvalue, hextract⟩ := bind_eq_ok.mp h
  refine ⟨value, okOr_eq_ok hvalue, ?_⟩
  cases value with
  | float32 other =>
      cases hextract
      exact Or.inl rfl
  | float16 other =>
      cases hextract
      exact Or.inr rfl
  | int64 shape data => cases hextract
  | bool shape data => cases hextract
  | other dtype => cases hextract

theorem runSession_eq_ok
    {graph : String}
    {session : Session F}
    {inputs outputs : NamedValues F}
    (h : runSession graph session inputs = .ok outputs) :
    session inputs = .ok outputs := by
  rw [runSession] at h
  cases hrun : session inputs with
  | error err =>
      rw [hrun] at h
      cases h
  | ok other =>
      rw [hrun] at h
      cases h
      rfl

variable
  {worker : FlorenceWorker F}
  {hiddenStates : TensorData F}
  {mask : List Int64}
  {run : DecoderRun F}

/-- The logits are an output of the session that a graph ran. -/
def LogitsFrom (decoder : Option (Session F)) (logits : TensorData F) : Prop :=
  ∃ session inputs outputs, decoder = some session ∧ session inputs = .ok outputs ∧
    HoldsFloats outputs "logits" logits

theorem logitsFrom_of_runDecoderModel
    {embeds : TensorData F}
    (hrun : worker.runDecoderModel embeds hiddenStates mask = .ok run) :
    LogitsFrom worker.decoderModel run.logits := by
  obtain ⟨session, hsession, hrun⟩ := bind_eq_ok.mp hrun
  obtain ⟨decoderSeqLen, -, hrun⟩ := bind_eq_ok.mp hrun
  obtain ⟨encoderSeqLen, -, hrun⟩ := bind_eq_ok.mp hrun
  obtain ⟨decoderInput, -, hrun⟩ := bind_eq_ok.mp hrun
  obtain ⟨encoderInput, -, hrun⟩ := bind_eq_ok.mp hrun
  obtain ⟨maskInput, -, hrun⟩ := bind_eq_ok.mp hrun
  obtain ⟨outputs, houtputs, hrun⟩ := bind_eq_ok.mp hrun
  obtain ⟨logits, hlogits, hrun⟩ := bind_eq_ok.mp hrun
  obtain ⟨cache, -, hrun⟩ := bind_eq_ok.mp hrun
  cases hrun
  exact ⟨session, _, outputs, okOr_eq_ok hsession, runSession_eq_ok houtputs,
    holdsFloats_of_extract hlogits⟩

theorem logitsFrom_of_runCachedDecoderModel
    {embeds : TensorData F}
    {cache : DecoderCache F}
    (hrun : worker.runCachedDecoderModel embeds hiddenStates mask cache = .ok run) :
    LogitsFrom worker.decoderModelMerged run.logits := by
  obtain ⟨session, hsession, hrun⟩ := bind_eq_ok.mp hrun
  obtain ⟨decoderSeqLen, -, hrun⟩ := bind_eq_ok.mp hrun
  obtain ⟨encoderSeqLen, -, hrun⟩ := bind_eq_ok.mp hrun
  obtain ⟨decoderInput, -, hrun⟩ := bind_eq_ok.mp hrun
  obtain ⟨encoderInput, -, hrun⟩ := bind_eq_ok.mp hrun
  obtain ⟨maskInput, -, hrun⟩ := bind_eq_ok.mp hrun
  obtain ⟨branchInput, -, hrun⟩ := bind_eq_ok.mp hrun
  obtain ⟨outputs, houtputs, hrun⟩ := bind_eq_ok.mp hrun
  obtain ⟨logits, hlogits, hrun⟩ := bind_eq_ok.mp hrun
  obtain ⟨next, -, hrun⟩ := bind_eq_ok.mp hrun
  cases hrun
  exact ⟨session, _, outputs, okOr_eq_ok hsession, runSession_eq_ok houtputs,
    holdsFloats_of_extract hlogits⟩

/-- The logits of a round are the output of one of the decoders. -/
theorem logitsFrom_of_decoderRun
    {generatedIds : List Int64}
    {cache : Option (DecoderCache F)}
    (hrun : worker.decoderRun hiddenStates mask generatedIds cache = .ok run) :
    LogitsFrom worker.decoderModel run.logits ∨
      LogitsFrom worker.decoderModelMerged run.logits := by
  cases cache with
  | none =>
      obtain ⟨embeds, -, hrun⟩ := bind_eq_ok.mp hrun
      exact Or.inl (logitsFrom_of_runDecoderModel hrun)
  | some cache =>
      obtain ⟨lastTokenId, -, hrun⟩ := bind_eq_ok.mp hrun
      obtain ⟨embeds, -, hrun⟩ := bind_eq_ok.mp hrun
      exact Or.inr (logitsFrom_of_runCachedDecoderModel hrun)

/-- Every tensor of logits that a decoder returns has a vocabulary below `bound`. -/
def FlorenceWorker.VocabularyBelow (worker : FlorenceWorker F) (bound : Nat) : Prop :=
  ∀ logits, LogitsFrom worker.decoderModel logits ∨
      LogitsFrom worker.decoderModelMerged logits →
    ∀ vocabDim, logits.shape[2]? = some vocabDim → vocabDim.toInt < (bound : Int)

end DecoderRuns

section Conversion

/-- An id of a vocabulary that a `u32` can count. -/
def FitsU32 (id : Int64) : Prop :=
  0 ≤ id.toInt ∧ id.toInt < 2 ^ 32

theorem fitsU32_decoderStartTokenId : FitsU32 decoderStartTokenId := by
  constructor <;> decide

/-- Such an id is converted to itself. -/
theorem u32TryFrom_of_fits
    {id : Int64}
    (hfits : FitsU32 id) :
    ∃ value, u32TryFrom id = some value ∧ Int64.ofNat value.toNat = id := by
  refine ⟨UInt32.ofNat id.toInt.toNat, if_pos hfits, ?_⟩
  obtain ⟨hnonneg, hbelow⟩ := hfits
  rw [UInt32.toNat_ofNat_of_lt' (by simp only [UInt32.size]; omega)]
  rw [← Int64.toInt_inj, Int64.toInt_ofNat_of_lt (by omega)]
  omega

/-- A conversion of ids that fit drops none of them. -/
theorem filterMap_u32TryFrom
    {ids : List Int64}
    (hfits : ∀ id ∈ ids, FitsU32 id) :
    (ids.filterMap u32TryFrom).map (fun id => Int64.ofNat id.toNat) = ids := by
  induction ids with
  | nil =>
      rfl
  | cons id ids ih =>
      obtain ⟨value, hvalue, hid⟩ := u32TryFrom_of_fits (hfits id List.mem_cons_self)
      rw [List.filterMap_cons_some hvalue, List.map_cons, hid,
        ih fun other hother => hfits other (List.mem_cons_of_mem _ hother)]

variable [LinearOrder F]

/-- A chosen token is below the vocabulary size. -/
theorem fitsU32_of_argmaxLastToken
    {logits : TensorData F}
    {token : Int64}
    (htoken : argmaxLastToken logits = .ok token)
    (hvocab : ∀ vocabDim, logits.shape[2]? = some vocabDim → vocabDim.toInt < 2 ^ 32) :
    FitsU32 token := by
  rcases argmaxLastToken_cases logits with
    ⟨seqLen, vocabSize, chosen, hlogits, hchosen, hargmax⟩ | ⟨-, text, herror⟩
  · rw [htoken] at hchosen
    cases hchosen
    obtain ⟨batch, seqLenDim, vocabDim, hshape, -, hdim⟩ := hlogits.shape
    have hbelow := hvocab vocabDim (by rw [hshape]; rfl)
    have hin := hargmax.in_vocab
    exact ⟨hargmax.nonneg, by omega⟩
  · rw [htoken] at herror
    cases herror

/-- With such a vocabulary the loop adds ids that fit. -/
theorem fitsU32_of_decodeLoop
    {worker : FlorenceWorker F}
    {hiddenStates : TensorData F}
    {mask : List Int64}
    (hvocab : worker.VocabularyBelow (2 ^ 32))
    {remaining : Nat}
    {generatedIds ids : List Int64}
    {cache : Option (DecoderCache F)}
    (hfits : ∀ id ∈ generatedIds, FitsU32 id)
    (hids : worker.decodeLoop hiddenStates mask remaining generatedIds cache = .ok ids) :
    ∀ id ∈ ids, FitsU32 id := by
  induction remaining generalizing generatedIds cache with
  | zero =>
      cases hids
      exact hfits
  | succ remaining ih =>
      obtain ⟨run, hrun, hids⟩ := bind_eq_ok.mp hids
      obtain ⟨nextTokenId, hnext, hids⟩ := bind_eq_ok.mp hids
      have hnextFits : FitsU32 nextTokenId :=
        fitsU32_of_argmaxLastToken hnext
          (hvocab run.logits (logitsFrom_of_decoderRun hrun))
      have hall : ∀ id ∈ generatedIds ++ [nextTokenId], FitsU32 id := by
        intro id hid
        rcases List.mem_append.mp hid with hold | hnew
        · exact hfits id hold
        · rw [List.mem_singleton.mp hnew]
          exact hnextFits
      split at hids
      · cases hids
        exact hall
      · exact ih hall hids

/-- With such a vocabulary no generated id is dropped on the way to the tokenizer. -/
theorem filterMap_u32TryFrom_generatedIds
    {worker : FlorenceWorker F}
    (hvocab : worker.VocabularyBelow (2 ^ 32))
    {imageFeatures : TensorData F}
    {promptText : String}
    {ids : List Int64}
    (hids : worker.generatedIds imageFeatures promptText = .ok ids) :
    (ids.filterMap u32TryFrom).map (fun id => Int64.ofNat id.toNat) = ids := by
  obtain ⟨inputs, -, hloop⟩ := bind_eq_ok.mp hids
  refine filterMap_u32TryFrom (fitsU32_of_decodeLoop hvocab ?_ hloop)
  intro id hid
  rw [List.mem_singleton.mp hid]
  exact fitsU32_decoderStartTokenId

end Conversion

/--
A token is chosen exactly from logits of three dimensions that their data can
fill, and then one of the greatest elements of the last row; all else is an
error.  A vocabulary below 2^32 lets every generated id through to the tokenizer.
-/
theorem argmaxLastToken_correct
    [LinearOrder F]
    (logits : TensorData F) :
    ((∃ token, argmaxLastToken logits = .ok token) ↔
      ∃ seqLen vocabSize, LogitsOf logits seqLen vocabSize) ∧
    (∀ seqLen vocabSize token, LogitsOf logits seqLen vocabSize →
      argmaxLastToken logits = .ok token → IsArgmax logits seqLen vocabSize token) ∧
    ((¬ ∃ seqLen vocabSize, LogitsOf logits seqLen vocabSize) →
      ∃ text, argmaxLastToken logits = .error (.message text)) ∧
    ∀ (worker : FlorenceWorker F) (imageFeatures : TensorData F) (promptText : String)
      (ids : List Int64),
      worker.VocabularyBelow (2 ^ 32) →
      worker.generatedIds imageFeatures promptText = .ok ids →
      (ids.filterMap u32TryFrom).map (fun id => Int64.ofNat id.toNat) = ids := by
  have hconversion := fun (worker : FlorenceWorker F) (imageFeatures : TensorData F)
      (promptText : String) (ids : List Int64) (hvocab : worker.VocabularyBelow (2 ^ 32))
      (hids : worker.generatedIds imageFeatures promptText = .ok ids) =>
    filterMap_u32TryFrom_generatedIds hvocab hids
  rcases argmaxLastToken_cases logits with
    ⟨seqLen, vocabSize, token, hlogits, htoken, hargmax⟩ | ⟨hnone, text, herror⟩
  · refine ⟨⟨fun _ => ⟨seqLen, vocabSize, hlogits⟩, fun _ => ⟨token, htoken⟩⟩, ?_, ?_,
      hconversion⟩
    · intro otherLen otherSize chosen hother hchosen
      obtain ⟨rfl, rfl⟩ := hlogits.unique hother
      rw [htoken] at hchosen
      cases hchosen
      exact hargmax
    · exact fun hnone => absurd ⟨seqLen, vocabSize, hlogits⟩ hnone
  · refine ⟨⟨?_, fun hlogits => absurd hlogits hnone⟩, ?_, fun _ => ⟨text, herror⟩,
      hconversion⟩
    · rintro ⟨token, htoken⟩
      rw [htoken] at herror
      cases herror
    · exact fun otherLen otherSize _ hother _ => absurd ⟨otherLen, otherSize, hother⟩ hnone

/-- The decoders of the sample have a vocabulary of six tokens. -/
theorem sampleWorker_vocabularyBelow : sampleWorker.VocabularyBelow (2 ^ 32) := by
  have hkeys : ∀ keys logits, HoldsFloats (sampleOutputs keys) "logits" logits →
      logits = sampleLogits keys := by
    intro keys logits hlogits
    obtain ⟨value, hvalue, hfloats⟩ := hlogits
    rw [lookup_logits_sampleOutputs] at hvalue
    cases hvalue
    rcases hfloats with hfloats | hfloats
    · cases hfloats
      rfl
    · cases hfloats
  have hsix : ∀ keys logits, HoldsFloats (sampleOutputs keys) "logits" logits →
      ∀ vocabDim, logits.shape[2]? = some vocabDim → vocabDim.toInt < ((2 ^ 32 : Nat) : Int) := by
    intro keys logits hlogits vocabDim hdim
    rw [hkeys keys logits hlogits] at hdim
    cases hdim
    decide
  rintro logits (hfrom | hfrom)
  · obtain ⟨session, inputs, outputs, hsession, houtputs, hlogits⟩ := hfrom
    cases hsession
    rw [sampleDecoder] at houtputs
    split at houtputs
    · cases houtputs
      exact hsix _ logits hlogits
    · cases houtputs
  · obtain ⟨session, inputs, outputs, hsession, houtputs, hlogits⟩ := hfrom
    cases hsession
    rw [sampleMergedDecoder] at houtputs
    split at houtputs
    · cases houtputs
      exact hsix _ logits hlogits
    · cases houtputs

/-- Two rows of three; the last of the two greatest elements is chosen. -/
def sampleRows : TensorData Nat :=
  { shape := [1, 2, 3], data := [9, 0, 0, 4, 7, 7] }

theorem argmaxLastToken_correct_sample :
    IsArgmax sampleRows 2 3 2 ∧
      (([2, 5, 2] : List Int64).filterMap u32TryFrom).map (fun id => Int64.ofNat id.toNat) =
        [2, 5, 2] := by
  have hlogits : LogitsOf sampleRows 2 3 :=
    ⟨⟨1, 2, 3, rfl, by decide, by decide⟩, by decide, by decide, by decide, by decide⟩
  obtain ⟨-, hargmax, -, hconversion⟩ := argmaxLastToken_correct sampleRows
  exact ⟨hargmax 2 3 2 hlogits (by decide), hconversion sampleWorker sampleFeatures "" _
    sampleWorker_vocabularyBelow sampleWorker_generatedIds⟩

end FlorenceServer
