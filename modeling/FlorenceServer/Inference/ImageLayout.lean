import FlorenceServer.Lib.Buffers
import FlorenceServer.Inference.Tensor

/-!
# The layout of the image tensor

`preprocess_image` turns the pixels of the resized image, stored row by row with
their three bytes side by side, into three planes of normalised values, one for
each channel.  The side length is a parameter of the loops; `preprocess_image`
runs them with `IMAGE_SIDE`.  The operations on `f32` are parameters.

* `preprocess_image_transposes`: the loops stay in range, write every cell once,
  and leave in each cell the normalised byte of its channel and pixel.
-/

namespace FlorenceServer

/-- The operations on `f32` that `preprocess_image` uses. -/
structure FloatOps (F : Type) where
  /-- the literal with this value -/
  literal : ℚ → F
  /-- `u8 as f32` -/
  ofU8 : UInt8 → F
  sub : F → F → F
  div : F → F → F

/-- `IMAGE_SIDE`. -/
def imageSide : UInt32 := 768

/-- `mean`. -/
def channelMean : List ℚ := [0.485, 0.456, 0.406]

/-- `std`. -/
def channelStd : List ℚ := [0.229, 0.224, 0.225]

/-- `values[index]`, which panics out of bounds. -/
def indexed {α : Type} (values : List α) (index : Nat) : Except InferenceFailure α :=
  match values[index]? with
  | some value => .ok value
  | none => .error .panic

theorem getElem?_of_lt
    {α : Type} {values : List α} {index : Nat}
    (hindex : index < values.length) (default : α) :
    values[index]? = some (values.getD index default) := by
  rw [List.getD_eq_getElem?_getD, List.getElem?_eq_getElem hindex]
  rfl

theorem indexed_of_lt
    {α : Type} {values : List α} {index : Nat}
    (hindex : index < values.length) (default : α) :
    indexed values index = .ok (values.getD index default) := by
  rw [indexed, getElem?_of_lt hindex default]

variable {F : Type} (ops : FloatOps F)

/-- The value of a byte under the mean and the standard deviation of its channel. -/
def FloatOps.normalize (mean std : ℚ) (byte : UInt8) : F :=
  let value := ops.div (ops.ofU8 byte) (ops.literal 255)
  ops.div (ops.sub value (ops.literal mean)) (ops.literal std)

section Loops

/-- The body of the innermost loop. -/
def writeChannel (plane : Nat) (pixels : List UInt8) (src dst : Nat)
    (chw : Buffer F) (channel : Nat) : Except InferenceFailure (Buffer F) := do
  let byte ← indexed pixels (src + channel)
  let mean ← indexed channelMean channel
  let std ← indexed channelStd channel
  chw.write .panic (channel * plane + dst) (ops.normalize mean std byte)

/-- The body of the loop over `x`. -/
def writePixel (side plane : Nat) (pixels : List UInt8) (y : Nat)
    (chw : Buffer F) (x : Nat) : Except InferenceFailure (Buffer F) :=
  let src := (y * side + x) * 3
  let dst := y * side + x
  (List.range 3).foldlM (writeChannel ops plane pixels src dst) chw

/-- The body of the loop over `y`. -/
def writeRow (side plane : Nat) (pixels : List UInt8)
    (chw : Buffer F) (y : Nat) : Except InferenceFailure (Buffer F) :=
  (List.range side).foldlM (writePixel ops side plane pixels y) chw

/-- The three loops of `preprocess_image`, on a buffer of zeros. -/
def fillPlanes (side plane : Nat) (pixels : List UInt8) :
    Except InferenceFailure (Buffer F) :=
  (List.range side).foldlM (writeRow ops side plane pixels)
    (Buffer.filled (3 * plane) (ops.literal 0))

/-- `preprocess_image`, on the bytes of the resized image. -/
def preprocessImage (pixels : List UInt8) : Except InferenceFailure (List F) := do
  let plane := (imageSide * imageSide).toNat
  let chw ← fillPlanes ops imageSide.toNat plane pixels
  .ok chw.cells

/-- The plane size is computed in `u32` without overflow. -/
theorem plane_eq : (imageSide * imageSide).toNat = imageSide.toNat * imageSide.toNat := by
  decide

end Loops

section Writes

variable {side : Nat} {pixels : List UInt8}

/-- What the loops leave in the cell of a channel and a pixel. -/
def cellValue (pixels : List UInt8) (channel pixel : Nat) : F :=
  ops.normalize (channelMean.getD channel 0) (channelStd.getD channel 0)
    (pixels.getD (pixel * 3 + channel) 0)

/-- The writes for one pixel. -/
def pixelWrites (side : Nat) (pixels : List UInt8) (y x : Nat) : List (Nat × F) :=
  (List.range 3).flatMap fun channel =>
    [(channel * (side * side) + (y * side + x), cellValue ops pixels channel (y * side + x))]

/-- The writes of the three loops. -/
def planeWrites (side : Nat) (pixels : List UInt8) : List (Nat × F) :=
  (List.range side).flatMap fun y =>
    (List.range side).flatMap fun x => pixelWrites ops side pixels y x

theorem src_add_channel_lt
    {channel y x : Nat}
    (hlength : pixels.length = 3 * side * side)
    (hchannel : channel < 3)
    (hy : y < side)
    (hx : x < side) :
    (y * side + x) * 3 + channel < pixels.length := by
  rw [hlength, Nat.mul_assoc, Nat.mul_comm 3]
  exact rowMajor_lt (rowMajor_lt hy hx) hchannel

theorem performs_writePixel
    {y x : Nat}
    (hlength : pixels.length = 3 * side * side)
    (hy : y < side)
    (hx : x < side) :
    Buffer.Performs .panic
      (fun chw => writePixel ops side (side * side) pixels y chw x)
      (pixelWrites ops side pixels y x) := by
  refine Buffer.performs_foldlM fun channel hmem => ?_
  have hchannel : channel < 3 := List.mem_range.mp hmem
  intro chw
  have hbyte := indexed_of_lt (src_add_channel_lt hlength hchannel hy hx) 0
  have hmean : indexed channelMean channel = _ := indexed_of_lt hchannel 0
  have hstd : indexed channelStd channel = _ := indexed_of_lt hchannel 0
  change writeChannel ops (side * side) pixels _ _ chw channel = _
  rw [writeChannel, hbyte, hmean, hstd]
  exact Buffer.performs_write InferenceFailure.panic _ _ chw

theorem performs_fillPlanes
    (hlength : pixels.length = 3 * side * side) :
    Buffer.Performs .panic
      (fun chw => (List.range side).foldlM (writeRow ops side (side * side) pixels) chw)
      (planeWrites ops side pixels) := by
  refine Buffer.performs_foldlM fun y hy => Buffer.performs_foldlM fun x hx => ?_
  exact performs_writePixel ops hlength (List.mem_range.mp hy) (List.mem_range.mp hx)

theorem length_planeWrites :
    (planeWrites ops side pixels).length = 3 * (side * side) := by
  simp [planeWrites, pixelWrites, List.length_flatMap]
  ring

theorem mem_planeWrites
    {channel y x : Nat}
    (hchannel : channel < 3)
    (hy : y < side)
    (hx : x < side) :
    (channel * (side * side) + (y * side + x), cellValue ops pixels channel (y * side + x)) ∈
      planeWrites ops side pixels := by
  refine List.mem_flatMap.mpr ⟨y, List.mem_range.mpr hy, ?_⟩
  refine List.mem_flatMap.mpr ⟨x, List.mem_range.mpr hx, ?_⟩
  exact List.mem_flatMap.mpr ⟨channel, List.mem_range.mpr hchannel, List.mem_singleton_self _⟩

/-- The numbers of the written cells are all numbers of cells, each one once. -/
theorem planeWrites_perm :
    ((planeWrites ops side pixels).map Prod.fst).Perm (List.range (3 * (side * side))) := by
  refine perm_range_of_covers ?_ fun i hi => ?_
  · rw [List.length_map, length_planeWrites]
  · obtain ⟨channel, hchannel, pixel, hpixel, rfl⟩ := exists_rowMajor hi
    obtain ⟨y, hy, x, hx, rfl⟩ := exists_rowMajor hpixel
    exact List.mem_map.mpr ⟨_, mem_planeWrites ops hchannel hy hx, rfl⟩

end Writes

section Layout

variable {side : Nat} {pixels : List UInt8}

/-- The cells hold the planes of the three channels, each of them row by row. -/
structure HoldsPlanes (side : Nat) (pixels : List UInt8) (cells : List F) : Prop where
  length_eq : cells.length = 3 * side * side
  cell : ∀ channel < 3, ∀ y < side, ∀ x < side,
    ∃ mean std byte,
      channelMean[channel]? = some mean ∧ channelStd[channel]? = some std ∧
      pixels[(y * side + x) * 3 + channel]? = some byte ∧
      cells[channel * side * side + y * side + x]? = some (ops.normalize mean std byte)

/-- The loops fill the planes and write every cell once. -/
theorem exists_fillPlanes
    (hlength : pixels.length = 3 * side * side) :
    ∃ chw, fillPlanes ops side (side * side) pixels = .ok chw ∧
      chw.written.Perm (List.range (3 * side * side)) ∧
      HoldsPlanes ops side pixels chw.cells := by
  obtain ⟨chw, hrun, hcells, hwritten, hholds⟩ :=
    (performs_fillPlanes ops hlength).fills (ops.literal 0) (planeWrites_perm ops)
  rw [← Nat.mul_assoc] at hcells hwritten
  refine ⟨chw, hrun, hwritten, hcells, fun channel hchannel y hy x hx => ?_⟩
  have hmean : channelMean[channel]? = _ := getElem?_of_lt hchannel 0
  have hstd : channelStd[channel]? = _ := getElem?_of_lt hchannel 0
  have hbyte := getElem?_of_lt (src_add_channel_lt hlength hchannel hy hx) 0
  have hcell := hholds _ (mem_planeWrites ops hchannel hy hx)
  rw [← Nat.mul_assoc, ← Nat.add_assoc] at hcell
  exact ⟨_, _, _, hmean, hstd, hbyte, hcell⟩

/-- **The image layout is transposed.** For every side length and every buffer of
pixels the three loops stay in range, write every cell of the output once, and
leave in it the normalised byte of its channel and pixel; so does
`preprocess_image` with its own side length. -/
theorem preprocess_image_transposes :
    (∀ (side : Nat) (pixels : List UInt8),
      pixels.length = 3 * side * side →
      ∃ chw, fillPlanes ops side (side * side) pixels = .ok chw ∧
        chw.written.Perm (List.range (3 * side * side)) ∧
        HoldsPlanes ops side pixels chw.cells) ∧
    ∀ pixels : List UInt8,
      pixels.length = 3 * 768 * 768 →
      ∃ output, preprocessImage ops pixels = .ok output ∧
        HoldsPlanes ops 768 pixels output := by
  refine ⟨fun side pixels hlength => exists_fillPlanes ops hlength, fun pixels hlength => ?_⟩
  have hside : pixels.length = 3 * imageSide.toNat * imageSide.toNat := hlength
  obtain ⟨chw, hrun, -, hplanes⟩ := exists_fillPlanes ops hside
  refine ⟨chw.cells, ?_, hplanes⟩
  rw [preprocessImage, plane_eq, hrun]
  rfl

/-- Exact arithmetic. -/
def rationalOps : FloatOps ℚ where
  literal := fun value => value
  ofU8 := fun byte => byte.toNat
  sub := fun left right => left - right
  div := fun left right => left / right

/-- Four pixels: the green byte of the third one is the seventh value. -/
theorem four_pixels_transposed :
    ∃ chw : Buffer ℚ,
      fillPlanes rationalOps 2 (2 * 2) [1, 2, 3, 4, 5, 6, 7, 8, 9, 10, 11, 12] = .ok chw ∧
        chw.written.Perm (List.range 12) ∧
        chw.cells[6]? = some (rationalOps.normalize 0.456 0.224 8) := by
  obtain ⟨chw, hrun, hwritten, hplanes⟩ :=
    (preprocess_image_transposes rationalOps).1 2 [1, 2, 3, 4, 5, 6, 7, 8, 9, 10, 11, 12] rfl
  refine ⟨chw, hrun, hwritten, ?_⟩
  obtain ⟨mean, std, byte, hmean, hstd, hbyte, hcell⟩ :=
    hplanes.cell 1 (by decide) 1 (by decide) 0 (by decide)
  cases hmean
  cases hstd
  cases hbyte
  exact hcell

end Layout

section Tensors

/-- The tensor that `run_vision_encoder` makes of the output. -/
def imageTensor (input : List F) : TensorData F where
  shape := [1, 3, Int64.ofNat imageSide.toNat, Int64.ofNat imageSide.toNat]
  data := input

/-- The element at these indices; a tensor is stored with its last dimension innermost. -/
def TensorData.element (tensor : TensorData F) (indices : List Nat) : Option F :=
  tensor.data[flatIndex (tensor.shape.map (fun dim => dim.toInt.toNat)) indices]?

theorem imageTensor_dims (input : List F) :
    (imageTensor input).shape.map (fun dim => dim.toInt.toNat) = [1, 3, 768, 768] := by
  have hside : (Int64.ofNat imageSide.toNat).toInt.toNat = 768 := by
    decide
  simp only [imageTensor, List.map_cons, List.map_nil, hside]
  rfl

/-- The encoder finds the pixels of the image in the tensor, channel by channel. -/
theorem imageTensor_element
    {pixels : List UInt8} {output : List F} {channel y x : Nat}
    (hplanes : HoldsPlanes ops 768 pixels output)
    (hchannel : channel < 3)
    (hy : y < 768)
    (hx : x < 768) :
    ∃ mean std byte,
      channelMean[channel]? = some mean ∧ channelStd[channel]? = some std ∧
      pixels[(y * 768 + x) * 3 + channel]? = some byte ∧
      (imageTensor output).element [0, channel, y, x] =
        some (ops.normalize mean std byte) := by
  obtain ⟨mean, std, byte, hmean, hstd, hbyte, hcell⟩ :=
    hplanes.cell channel hchannel y hy x hx
  refine ⟨mean, std, byte, hmean, hstd, hbyte, ?_⟩
  have hindex : flatIndex [1, 3, 768, 768] [0, channel, y, x] =
      channel * 768 * 768 + y * 768 + x := by
    simp only [flatIndex, List.prod_cons, List.prod_nil]
    ring
  rw [TensorData.element, imageTensor_dims, hindex]
  exact hcell

/-- The tensor has as many elements as its shape says. -/
theorem imageTensor_length
    {pixels : List UInt8} {output : List F}
    (hplanes : HoldsPlanes ops 768 pixels output) :
    (imageTensor output).data.length =
      ((imageTensor output).shape.map (fun dim => dim.toInt.toNat)).prod := by
  rw [imageTensor_dims]
  exact hplanes.length_eq

end Tensors
end FlorenceServer
