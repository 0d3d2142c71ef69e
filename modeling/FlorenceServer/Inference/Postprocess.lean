import Mathlib.Tactic
import FlorenceServer.Lib.TextSlices
import FlorenceServer.Types.TaskSpec

/-!
# Parsing OCR regions

The text that the model returns for the task `OCR_WITH_REGION` and its parsing
into regions, as in `inference/postprocess.rs`.  The two nested `while` loops
are the transitions of `ocrStep` on the local variables of
`parse_ocr_regions`; cursors are byte offsets into the text, and slicing
inside a character or behind the end panics.

The coordinates are `f64` in the source and exact rationals here.
-/

namespace FlorenceServer

/-- `MAX_LOCATION_TOKEN`. -/
def maxLocationToken : Nat := 999

/-- The text that opens a location token. -/
def locPrefix : List Char := ['<', 'l', 'o', 'c', '_']

/-- A slice expression whose bounds are no character boundaries of the text. -/
inductive SlicePanic where
  | outOfBounds
deriving DecidableEq, Repr

section Numbers

/-- The digits of a number in base ten, each one checked by `char::to_digit`. -/
def parseDigits : List Char → Nat → Option Nat
  | [], value => some value
  | c :: digits, value =>
      if c.isDigit then parseDigits digits (10 * value + (c.toNat - '0'.toNat)) else none

/-- One leading plus sign is allowed in front of an unsigned number. -/
def stripPlus : List Char → List Char
  | '+' :: digits => digits
  | digits => digits

/-- `str::parse::<u16>`: there must be digits, and the value must fit. -/
def parseU16 (text : List Char) : Option Nat :=
  if (stripPlus text).isEmpty then
    none
  else
    (parseDigits (stripPlus text) 0).filter (fun value => value < 2 ^ 16)

/-- `f64::round`: halves are rounded away from zero. -/
def roundHalfAway (value : ℚ) : Int :=
  if 0 ≤ value then (value + 1 / 2).floor else -(-value + 1 / 2).floor

/-- `round3`. -/
def round3 (value : ℚ) : ℚ :=
  roundHalfAway (value * 1000) / 1000

/-- `scale_loc`: the location bins are normalised to 0..999. -/
def scaleLoc (value imageSide : Nat) : ℚ :=
  round3 ((value : ℚ) / 999 * imageSide)

end Numbers

structure BoundingBox where
  xMin : ℚ
  yMin : ℚ
  xMax : ℚ
  yMax : ℚ
  width : ℚ
  height : ℚ
deriving DecidableEq, Repr

/-- The JSON object of one OCR region. -/
structure OcrRegionItem where
  text : List Char
  bbox : BoundingBox
  bboxXyxy : List ℚ
  polygon : List (ℚ × ℚ)
  locTokens : List Nat
deriving DecidableEq, Repr

/-- `chunks_exact(2)`: an odd last value is dropped. -/
def chunksExact2 : List Nat → List (Nat × Nat)
  | x :: y :: rest => (x, y) :: chunksExact2 rest
  | _ => []

theorem chunksExact2_length (values : List Nat) :
    (chunksExact2 values).length = values.length / 2 := by
  induction values using chunksExact2.induct with
  | case1 x y rest ih =>
      simp only [chunksExact2, List.length_cons, ih]
      omega
  | case2 values hshort =>
      match values, hshort with
      | [], _ => rfl
      | [_], _ => simp [chunksExact2]
      | x :: y :: rest, hshort => exact absurd rfl (hshort x y rest)

/-- `ocr_region_item`: a region needs at least two points. -/
def ocrRegionItem (text : List Char) (locTokens : List Nat) (imageSize : Nat × Nat) :
    Option OcrRegionItem :=
  let points :=
    (chunksExact2 locTokens).map
      (fun pair => (scaleLoc pair.1 imageSize.1, scaleLoc pair.2 imageSize.2))
  match points with
  | first :: second :: others =>
      let rest := second :: others
      let xMin := rest.foldl (fun bound point => min bound point.1) first.1
      let yMin := rest.foldl (fun bound point => min bound point.2) first.2
      let xMax := rest.foldl (fun bound point => max bound point.1) first.1
      let yMax := rest.foldl (fun bound point => max bound point.2) first.2
      some
        { text
          bbox :=
            { xMin, yMin, xMax, yMax
              width := round3 (xMax - xMin)
              height := round3 (yMax - yMin) }
          bboxXyxy := [xMin, yMin, xMax, yMax]
          polygon := points
          locTokens }
  | _ => none

/-- `parse_loc_token_at`: the location value and the offset behind the token. -/
def parseLocTokenAt (input : List Char) (cursor : Nat) :
    Except SlicePanic (Option (Nat × Nat)) :=
  match sliceFrom input cursor with
  | none => .ok none
  | some remaining =>
      match stripPrefix locPrefix remaining with
      | none => .ok none
      | some remaining =>
          match findText ['>'] remaining with
          | none => .ok none
          | some stop =>
              match sliceTo remaining stop with
              | none => .error .outOfBounds
              | some digits =>
                  .ok ((parseU16 digits).map (fun loc =>
                    (min loc maxLocationToken, cursor + byteLength locPrefix + stop + 1)))

section Loops

/-- The variables of one round of the outer loop. -/
structure LocRun where
  text : List Char
  locStart : Nat
  locTokens : List Nat
  locCursor : Nat
deriving DecidableEq, Repr

/-- Where `parse_ocr_regions` is. -/
inductive OcrState where
  /-- At the condition of the outer loop. -/
  | searching (items : List OcrRegionItem) (cursor : Nat)
  /-- At the condition of the inner loop. -/
  | collecting (items : List OcrRegionItem) (cursor : Nat) (run : LocRun)
  | returned (items : List OcrRegionItem)
  | panicked
deriving DecidableEq, Repr

/-- What a round of the outer loop adds to the items. -/
def pushRegion (items : List OcrRegionItem) (run : LocRun) (imageSize : Nat × Nat) :
    List OcrRegionItem :=
  if run.locTokens.isEmpty then
    items
  else
    match ocrRegionItem run.text run.locTokens imageSize with
    | some item => items ++ [item]
    | none => items

/-- One evaluation of a loop condition, with the body behind it. -/
def ocrStep (generatedText : List Char) (imageSize : Nat × Nat) : OcrState → OcrState
  | .searching items cursor =>
      match sliceFrom generatedText cursor with
      | none => .panicked
      | some remaining =>
          match findText locPrefix remaining with
          | none => .returned items
          | some relativeLocStart =>
              let locStart := cursor + relativeLocStart
              match slice generatedText cursor locStart with
              | none => .panicked
              | some text =>
                  .collecting items cursor
                    { text := trimChars text, locStart, locTokens := [], locCursor := locStart }
  | .collecting items cursor run =>
      match parseLocTokenAt generatedText run.locCursor with
      | .error _ => .panicked
      | .ok (some (loc, nextCursor)) =>
          .collecting items cursor
            { run with locTokens := run.locTokens ++ [loc], locCursor := nextCursor }
      | .ok none => .searching (pushRegion items run imageSize) run.locCursor
  | .returned items => .returned items
  | .panicked => .panicked

/-- `parse_ocr_regions` when it starts. -/
def OcrState.start : OcrState :=
  .searching [] 0

/-- `parse_ocr_regions` after that many loop conditions. -/
def parseOcrRegions (generatedText : List Char) (imageSize : Nat × Nat) (rounds : Nat) :
    OcrState :=
  (ocrStep generatedText imageSize)^[rounds] OcrState.start

end Loops

end FlorenceServer
