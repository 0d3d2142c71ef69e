import FlorenceServer.State
import FlorenceServer.Lib.Extremes

/-!
# Tensors

`TensorData` of `inference/tensor.rs` and the functions that read one.  Shapes
come from the model and are not trusted: dimensions may be negative or zero, and
need not fit the data.  The elements of a tensor are only compared, by
`total_cmp`, so any linear order stands for them.

* `argmaxLastToken_cases`: the outcome for a valid shape and for any other.
-/

namespace FlorenceServer

/-- How inference code fails: with an error, or by a panic. -/
inductive InferenceFailure where
  | message (text : String)
  | panic
deriving DecidableEq, Repr

/-- `Option::ok_or_else`. -/
def okOr {α : Type} (value : Option α) (text : String) : Except InferenceFailure α :=
  match value with
  | some value => .ok value
  | none => .error (.message text)

@[simp] theorem okOr_some {α : Type} (value : α) (text : String) :
    okOr (some value) text = .ok value :=
  rfl

@[simp] theorem okOr_none {α : Type} (text : String) :
    okOr (none : Option α) text = .error (.message text) :=
  rfl

section Numbers

/-- `usize::try_from` on an `i64`. -/
def usizeTryFrom (value : Int64) : Option Nat :=
  if 0 ≤ value.toInt then some value.toInt.toNat else none

/-- `usize::checked_mul`. -/
def checkedMul (left right : Nat) : Option Nat :=
  if left * right < usizeCount then some (left * right) else none

/-- `usize::checked_add`. -/
def checkedAdd (left right : Nat) : Option Nat :=
  if left + right < usizeCount then some (left + right) else none

/-- `left - right`, which panics below zero. -/
def usizeSub (left right : Nat) : Except InferenceFailure Nat :=
  if right ≤ left then .ok (left - right) else .error .panic

/-- `data.get(start..stop)`. -/
def getRange {α : Type} (data : List α) (start stop : Nat) : Option (List α) :=
  if start ≤ stop ∧ stop ≤ data.length then some ((data.take stop).drop start) else none

end Numbers

/-- `TensorData`. -/
structure TensorData (F : Type) where
  shape : List Int64
  data : List F
deriving DecidableEq, Repr

/-- A shape as `{:?}` shows it. -/
def debugShape (shape : List Int64) : String :=
  "[" ++ ", ".intercalate (shape.map (fun dim => toString dim.toInt)) ++ "]"

/-- `shape[index]`, which panics out of bounds. -/
def dimension (shape : List Int64) (index : Nat) : Except InferenceFailure Int64 :=
  match shape[index]? with
  | some dim => .ok dim
  | none => .error .panic

variable {F : Type}

/-- `TensorData::seq_len`. -/
def TensorData.seqLen (tensor : TensorData F) : Except InferenceFailure Nat := do
  let seqLen ← okOr tensor.shape[1]?
    ("tensor shape " ++ debugShape tensor.shape ++ " has no sequence dimension")
  okOr (usizeTryFrom seqLen) ("tensor sequence length is invalid: " ++ toString seqLen.toInt)

/-- `concat_embeddings`. -/
def concatEmbeddings (imageFeatures textEmbeds : TensorData F) (hiddenSize : Nat) :
    Except InferenceFailure (TensorData F) := do
  let imageSeqLen ← imageFeatures.seqLen
  let textSeqLen ← textEmbeds.seqLen
  let imageValues ← okOr (checkedMul imageSeqLen hiddenSize) "image embedding shape is too large"
  let textValues ← okOr (checkedMul textSeqLen hiddenSize) "text embedding shape is too large"
  if imageFeatures.data.length != imageValues then
    .error (.message ("image feature data length " ++ toString imageFeatures.data.length ++
      " does not match shape " ++ debugShape imageFeatures.shape))
  else if textEmbeds.data.length != textValues then
    .error (.message ("text embedding data length " ++ toString textEmbeds.data.length ++
      " does not match shape " ++ debugShape textEmbeds.shape))
  else
    .ok
      { shape := [1, Int64.ofNat (imageSeqLen + textSeqLen), Int64.ofNat hiddenSize]
        data := imageFeatures.data ++ textEmbeds.data }

section Argmax

variable [LinearOrder F]

/-- The choice from the last row, once the dimensions are known to be positive. -/
def argmaxOfRow (logits : TensorData F) (seqLen vocabSize : Nat) :
    Except InferenceFailure Int64 := do
  let rows ← usizeSub seqLen 1
  let start ← okOr (checkedMul rows vocabSize) "logits shape is too large"
  let stop ← okOr (checkedAdd start vocabSize) "logits shape is too large"
  let row ← okOr (getRange logits.data start stop)
    ("logits data length does not match shape " ++ debugShape logits.shape)
  let best ← okOr (lastMax Prod.fst row.zipIdx) "failed to select next token from logits"
  .ok (Int64.ofNat best.2)

/-- `argmax_last_token`. -/
def argmaxLastToken (logits : TensorData F) : Except InferenceFailure Int64 :=
  if logits.shape.length != 3 then
    .error (.message ("logits tensor has invalid shape " ++ debugShape logits.shape))
  else do
    let seqLenDim ← dimension logits.shape 1
    let seqLen ← okOr (usizeTryFrom seqLenDim)
      ("logits sequence length is invalid: " ++ toString seqLenDim.toInt)
    let vocabDim ← dimension logits.shape 2
    let vocabSize ← okOr (usizeTryFrom vocabDim)
      ("logits vocabulary size is invalid: " ++ toString vocabDim.toInt)
    if seqLen == 0 || vocabSize == 0 then
      .error (.message "logits tensor has empty sequence or vocabulary dimension")
    else
      argmaxOfRow logits seqLen vocabSize

/-- The shape and the data that `argmax_last_token` accepts. -/
structure LogitsOf (logits : TensorData F) (seqLen vocabSize : Nat) : Prop where
  shape : ∃ batch seqLenDim vocabDim : Int64,
    logits.shape = [batch, seqLenDim, vocabDim] ∧
      seqLenDim.toInt = seqLen ∧ vocabDim.toInt = vocabSize
  seqLen_pos : 0 < seqLen
  vocabSize_pos : 0 < vocabSize
  fits_usize : seqLen * vocabSize < 2 ^ 64
  fits_data : seqLen * vocabSize ≤ logits.data.length

/-- `token` is the index of a greatest element of the last row. -/
structure IsArgmax
    (logits : TensorData F) (seqLen vocabSize : Nat) (token : Int64) : Prop where
  nonneg : 0 ≤ token.toInt
  in_vocab : token.toInt < vocabSize
  greatest : ∃ best,
    logits.data[(seqLen - 1) * vocabSize + token.toInt.toNat]? = some best ∧
      ∀ index < vocabSize, ∀ value,
        logits.data[(seqLen - 1) * vocabSize + index]? = some value → value ≤ best

omit [LinearOrder F] in
/-- The last row ends where the product of the dimensions says. -/
theorem last_row_end
    {seqLen : Nat}
    (hseq : 0 < seqLen)
    (vocabSize : Nat) :
    (seqLen - 1) * vocabSize + vocabSize = seqLen * vocabSize := by
  obtain ⟨rows, rfl⟩ := Nat.exists_eq_succ_of_ne_zero (Nat.ne_of_gt hseq)
  rw [Nat.succ_sub_one, Nat.succ_mul]

/-- The elements of a range, by their index in the data. -/
theorem getElem?_range
    {α : Type}
    (data : List α)
    (stop : Nat)
    {start index : Nat}
    (hindex : start + index < stop) :
    ((data.take stop).drop start)[index]? = data[start + index]? := by
  rw [List.getElem?_drop, List.getElem?_take_of_lt hindex]

/-- The row of the last position. -/
def TensorData.lastRow (logits : TensorData F) (seqLen vocabSize : Nat) : List F :=
  (logits.data.take (seqLen * vocabSize)).drop ((seqLen - 1) * vocabSize)

omit [LinearOrder F] in
theorem length_lastRow
    {logits : TensorData F}
    {seqLen vocabSize : Nat}
    (hseq : 0 < seqLen)
    (hdata : seqLen * vocabSize ≤ logits.data.length) :
    (logits.lastRow seqLen vocabSize).length = vocabSize := by
  have hend := last_row_end hseq vocabSize
  rw [TensorData.lastRow, List.length_drop, List.length_take]
  omega

/-- With the data in place the choice depends on the last row only. -/
theorem argmaxOfRow_eq
    {logits : TensorData F}
    {seqLen vocabSize : Nat}
    (hseq : 0 < seqLen)
    (husize : seqLen * vocabSize < usizeCount)
    (hdata : seqLen * vocabSize ≤ logits.data.length) :
    argmaxOfRow logits seqLen vocabSize =
      (okOr (lastMax Prod.fst (logits.lastRow seqLen vocabSize).zipIdx)
        "failed to select next token from logits").map
        (fun best => Int64.ofNat best.2) := by
  have hend := last_row_end hseq vocabSize
  have hrows : usizeSub seqLen 1 = .ok (seqLen - 1) := if_pos hseq
  have hmul : checkedMul (seqLen - 1) vocabSize = some ((seqLen - 1) * vocabSize) :=
    if_pos (by omega)
  have hadd : checkedAdd ((seqLen - 1) * vocabSize) vocabSize = some (seqLen * vocabSize) := by
    rw [checkedAdd, hend, if_pos husize]
  have hrange :
      getRange logits.data ((seqLen - 1) * vocabSize) (seqLen * vocabSize) =
        some (logits.lastRow seqLen vocabSize) :=
    if_pos ⟨by omega, hdata⟩
  rw [argmaxOfRow, hrows]
  simp only [bind, Except.bind, hmul, hadd, hrange, okOr_some]
  rfl

/-- With the data in place the row has a greatest element. -/
theorem argmaxOfRow_of_fits
    (logits : TensorData F)
    {seqLen vocabSize : Nat}
    (hseq : 0 < seqLen)
    (hvocab : 0 < vocabSize)
    (hvocabDim : vocabSize < 2 ^ 63)
    (husize : seqLen * vocabSize < usizeCount)
    (hdata : seqLen * vocabSize ≤ logits.data.length) :
    ∃ token, argmaxOfRow logits seqLen vocabSize = .ok token ∧
      IsArgmax logits seqLen vocabSize token := by
  have hend := last_row_end hseq vocabSize
  have hlength := length_lastRow hseq hdata
  have hchoice := argmaxOfRow_eq hseq husize hdata
  have hget : ∀ index < vocabSize,
      (logits.lastRow seqLen vocabSize)[index]? =
        logits.data[(seqLen - 1) * vocabSize + index]? :=
    fun index hindex => getElem?_range logits.data (seqLen * vocabSize) (by omega)
  set row := logits.lastRow seqLen vocabSize
  have hne : row.zipIdx ≠ [] := by
    intro hnil
    have hzero := congrArg List.length hnil
    rw [List.length_zipIdx, hlength, List.length_nil] at hzero
    omega
  obtain ⟨⟨best, index⟩, hmem, hbest, hupper⟩ := exists_lastMax Prod.fst hne
  have hbestGet : row[index]? = some best := List.mem_zipIdx_iff_getElem?.mp hmem
  have hindex : index < vocabSize := by
    rw [← hlength]
    exact (List.getElem?_eq_some_iff.mp hbestGet).1
  have htoken : (Int64.ofNat index).toInt = index := by
    rw [Int64.toInt_ofNat_of_lt (by omega)]
  refine ⟨Int64.ofNat index, ?_, ?_⟩
  · rw [hchoice, hbest]
    rfl
  · refine ⟨by omega, by omega, best, ?_, ?_⟩
    · rw [htoken, Int.toNat_natCast, ← hget index hindex]
      exact hbestGet
    · intro other hother value hvalue
      rw [← hget other hother] at hvalue
      exact hupper (value, other) (List.mem_zipIdx_iff_getElem?.mpr hvalue)

/-- Without it the row is refused before anything is read. -/
theorem argmaxOfRow_of_not_fits
    (logits : TensorData F)
    {seqLen vocabSize : Nat}
    (hseq : 0 < seqLen)
    (hnot : ¬ (seqLen * vocabSize < usizeCount ∧
      seqLen * vocabSize ≤ logits.data.length)) :
    ∃ text, argmaxOfRow logits seqLen vocabSize = .error (.message text) := by
  have hend := last_row_end hseq vocabSize
  have hrows : usizeSub seqLen 1 = .ok (seqLen - 1) := if_pos hseq
  rw [argmaxOfRow, hrows]
  simp only [bind, Except.bind]
  by_cases hmul : (seqLen - 1) * vocabSize < usizeCount
  · by_cases hadd : (seqLen - 1) * vocabSize + vocabSize < usizeCount
    · have hshort : ¬ (seqLen - 1) * vocabSize + vocabSize ≤ logits.data.length := by
        intro hdata
        exact hnot (by rw [← hend]; exact ⟨hadd, hdata⟩)
      simp only [checkedMul, if_pos hmul, checkedAdd, if_pos hadd, okOr_some, getRange,
        hshort, and_false, if_false, okOr_none]
      exact ⟨_, rfl⟩
    · simp only [checkedMul, if_pos hmul, checkedAdd, if_neg hadd, okOr_some, okOr_none]
      exact ⟨_, rfl⟩
  · simp only [checkedMul, if_neg hmul, okOr_none]
    exact ⟨_, rfl⟩

/-- Dimensions that are numbers of elements. -/
theorem usizeTryFrom_of_nonneg
    {value : Int64}
    (h : 0 ≤ value.toInt) :
    usizeTryFrom value = some value.toInt.toNat :=
  if_pos h

theorem usizeTryFrom_of_neg
    {value : Int64}
    (h : value.toInt < 0) :
    usizeTryFrom value = none :=
  if_neg (not_le.mpr h)

/-- The choice from a tensor of three dimensions. -/
theorem argmaxLastToken_of_shape
    {logits : TensorData F}
    {batch seqLenDim vocabDim : Int64}
    (hshape : logits.shape = [batch, seqLenDim, vocabDim])
    (hseq : 0 < seqLenDim.toInt)
    (hvocab : 0 < vocabDim.toInt) :
    argmaxLastToken logits =
      argmaxOfRow logits seqLenDim.toInt.toNat vocabDim.toInt.toNat := by
  have hseqZero : (seqLenDim.toInt.toNat == 0) = false := by
    rw [beq_eq_false_iff_ne]
    omega
  have hvocabZero : (vocabDim.toInt.toNat == 0) = false := by
    rw [beq_eq_false_iff_ne]
    omega
  have hfirst : dimension logits.shape 1 = .ok seqLenDim := by
    rw [hshape]
    rfl
  have hsecond : dimension logits.shape 2 = .ok vocabDim := by
    rw [hshape]
    rfl
  have hlength : (logits.shape.length != 3) = false := by
    rw [hshape]
    rfl
  rw [argmaxLastToken, hlength, hfirst, hsecond]
  simp only [bind, Except.bind, usizeTryFrom_of_nonneg (le_of_lt hseq),
    usizeTryFrom_of_nonneg (le_of_lt hvocab), okOr_some, hseqZero, hvocabZero]
  rfl

theorem LogitsOf.argmaxLastToken_eq
    {logits : TensorData F}
    {seqLen vocabSize : Nat}
    (hlogits : LogitsOf logits seqLen vocabSize) :
    argmaxLastToken logits = argmaxOfRow logits seqLen vocabSize := by
  obtain ⟨batch, seqLenDim, vocabDim, hshape, hseqDim, hvocabDim⟩ := hlogits.shape
  have hseq := hlogits.seqLen_pos
  have hvocab := hlogits.vocabSize_pos
  rw [argmaxLastToken_of_shape hshape (by omega) (by omega), hseqDim, hvocabDim,
    Int.toNat_natCast, Int.toNat_natCast]

/-- The same values at the last position, after positions that may differ. -/
def SameLastRow (left right : TensorData F) : Prop :=
  ∃ leftLen rightLen vocabSize,
    LogitsOf left leftLen vocabSize ∧ LogitsOf right rightLen vocabSize ∧
      left.lastRow leftLen vocabSize = right.lastRow rightLen vocabSize

theorem argmaxLastToken_of_sameLastRow
    {left right : TensorData F}
    (hsame : SameLastRow left right) :
    argmaxLastToken left = argmaxLastToken right := by
  obtain ⟨leftLen, rightLen, vocabSize, hleft, hright, hrow⟩ := hsame
  rw [hleft.argmaxLastToken_eq, hright.argmaxLastToken_eq,
    argmaxOfRow_eq hleft.seqLen_pos hleft.fits_usize hleft.fits_data,
    argmaxOfRow_eq hright.seqLen_pos hright.fits_usize hright.fits_data, hrow]

/-- A shape that has not three dimensions, or not positive ones, is refused. -/
theorem argmaxLastToken_of_bad_shape
    {logits : TensorData F}
    (hbad : ¬ ∃ batch seqLenDim vocabDim : Int64,
      logits.shape = [batch, seqLenDim, vocabDim] ∧
        0 < seqLenDim.toInt ∧ 0 < vocabDim.toInt) :
    ∃ text, argmaxLastToken logits = .error (.message text) := by
  rw [argmaxLastToken]
  by_cases hlength : (logits.shape.length != 3) = true
  · rw [if_pos hlength]
    exact ⟨_, rfl⟩
  · rw [if_neg hlength]
    obtain ⟨batch, seqLenDim, vocabDim, hshape⟩ : ∃ batch seqLenDim vocabDim,
        logits.shape = [batch, seqLenDim, vocabDim] := by
      rw [bne_iff_ne, not_not] at hlength
      exact List.length_eq_three.mp hlength
    have hfirst : dimension logits.shape 1 = .ok seqLenDim := by
      rw [hshape]
      rfl
    have hsecond : dimension logits.shape 2 = .ok vocabDim := by
      rw [hshape]
      rfl
    rw [hfirst, hsecond]
    simp only [bind, Except.bind]
    rcases lt_or_ge seqLenDim.toInt 0 with hneg | hseq
    · rw [usizeTryFrom_of_neg hneg]
      exact ⟨_, rfl⟩
    · rw [usizeTryFrom_of_nonneg hseq]
      rcases lt_or_ge vocabDim.toInt 0 with hneg | hvocab
      · rw [usizeTryFrom_of_neg hneg]
        exact ⟨_, rfl⟩
      · rw [usizeTryFrom_of_nonneg hvocab]
        have hzero :
            (seqLenDim.toInt.toNat == 0 || vocabDim.toInt.toNat == 0) = true := by
          rw [Bool.or_eq_true, beq_iff_eq, beq_iff_eq]
          by_contra hpositive
          refine hbad ⟨batch, seqLenDim, vocabDim, hshape, ?_, ?_⟩
          · omega
          · omega
        simp only [okOr_some, hzero, if_true]
        exact ⟨_, rfl⟩

/--
Either the tensor holds logits and a greatest element of its last row is chosen,
or there is an error; nothing panics.
-/
theorem argmaxLastToken_cases (logits : TensorData F) :
    (∃ seqLen vocabSize token,
      LogitsOf logits seqLen vocabSize ∧ argmaxLastToken logits = .ok token ∧
        IsArgmax logits seqLen vocabSize token) ∨
    (¬ ∃ seqLen vocabSize, LogitsOf logits seqLen vocabSize) ∧
      ∃ text, argmaxLastToken logits = .error (.message text) := by
  by_cases hgood : ∃ batch seqLenDim vocabDim : Int64,
      logits.shape = [batch, seqLenDim, vocabDim] ∧ 0 < seqLenDim.toInt ∧ 0 < vocabDim.toInt
  · obtain ⟨batch, seqLenDim, vocabDim, hshape, hseq, hvocab⟩ := hgood
    have hchoice := argmaxLastToken_of_shape hshape hseq hvocab
    have hseqNat : 0 < seqLenDim.toInt.toNat := by
      omega
    have hvocabNat : 0 < vocabDim.toInt.toNat := by
      omega
    by_cases hfits :
        seqLenDim.toInt.toNat * vocabDim.toInt.toNat < usizeCount ∧
          seqLenDim.toInt.toNat * vocabDim.toInt.toNat ≤ logits.data.length
    · have hdim := Int64.toInt_lt vocabDim
      obtain ⟨token, htoken, hargmax⟩ := argmaxOfRow_of_fits logits hseqNat hvocabNat
        (by omega) hfits.1 hfits.2
      refine Or.inl ⟨_, _, token, ⟨⟨batch, seqLenDim, vocabDim, hshape, ?_, ?_⟩, ?_, ?_,
        hfits.1, hfits.2⟩, hchoice.trans htoken, hargmax⟩
      · omega
      · omega
      · omega
      · omega
    · obtain ⟨text, htext⟩ := argmaxOfRow_of_not_fits logits hseqNat hfits
      refine Or.inr ⟨?_, text, hchoice.trans htext⟩
      rintro ⟨seqLen, vocabSize, hlogits⟩
      obtain ⟨batch', seqLenDim', vocabDim', hshape', hseqEq, hvocabEq⟩ := hlogits.shape
      rw [hshape] at hshape'
      cases hshape'
      rw [hseqEq, hvocabEq, Int.toNat_natCast, Int.toNat_natCast] at hfits
      exact hfits ⟨hlogits.fits_usize, hlogits.fits_data⟩
  · refine Or.inr ⟨?_, argmaxLastToken_of_bad_shape hgood⟩
    rintro ⟨seqLen, vocabSize, hlogits⟩
    obtain ⟨batch, seqLenDim, vocabDim, hshape, hseqEq, hvocabEq⟩ := hlogits.shape
    have hseq := hlogits.seqLen_pos
    have hvocab := hlogits.vocabSize_pos
    exact hgood ⟨batch, seqLenDim, vocabDim, hshape, by omega, by omega⟩

end Argmax

end FlorenceServer
