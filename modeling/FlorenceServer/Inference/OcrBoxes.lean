import FlorenceServer.Inference.Postprocess
import FlorenceServer.Lib.Extremes

/-!
# Boxes of OCR regions

`ocr_region_item` in exact arithmetic.  Location values are clamped to 0..999 by
the parser, scaling and rounding are monotone and keep both edges of the image,
and the box is what the loop over the points finds.
-/

namespace FlorenceServer

/-! ## Rounding -/

theorem roundHalfAway_of_nonneg
    {value : ℚ}
    (h : 0 ≤ value) :
    roundHalfAway value = (value + 1 / 2).floor := by
  rw [roundHalfAway, if_pos h]

theorem roundHalfAway_of_neg
    {value : ℚ}
    (h : value < 0) :
    roundHalfAway value = -(-value + 1 / 2).floor := by
  rw [roundHalfAway, if_neg (not_le.mpr h)]

theorem floor_half_add_nonneg
    {value : ℚ}
    (h : 0 ≤ value) :
    0 ≤ (value + 1 / 2).floor := by
  refine Rat.le_floor_iff.mpr ?_
  push_cast
  linarith

/-- Rounding is monotone, also across zero. -/
theorem roundHalfAway_mono
    {left right : ℚ}
    (h : left ≤ right) :
    roundHalfAway left ≤ roundHalfAway right := by
  rcases lt_or_ge left 0 with hleft | hleft
  · rw [roundHalfAway_of_neg hleft]
    rcases lt_or_ge right 0 with hright | hright
    · rw [roundHalfAway_of_neg hright]
      have hfloor := Rat.floor_monotone (a := -right + 1 / 2) (b := -left + 1 / 2)
        (by linarith)
      omega
    · rw [roundHalfAway_of_nonneg hright]
      have hbelow : 0 ≤ (-left + 1 / 2).floor := floor_half_add_nonneg (by linarith)
      have habove := floor_half_add_nonneg hright
      omega
  · rw [roundHalfAway_of_nonneg hleft, roundHalfAway_of_nonneg (hleft.trans h)]
    exact Rat.floor_monotone (by linarith)

/-- A whole number is its own rounding. -/
theorem roundHalfAway_intCast (n : Int) :
    roundHalfAway (n : ℚ) = n := by
  have hfloor : ∀ m : Int, ((m : ℚ) + 1 / 2).floor = m := by
    intro m
    refine le_antisymm ?_ ?_
    · refine Int.le_of_lt_add_one ?_
      rw [← not_le, Rat.le_floor_iff]
      push_cast
      linarith
    · rw [Rat.le_floor_iff]
      linarith
  rcases lt_or_ge (n : ℚ) 0 with hneg | hnonneg
  · rw [roundHalfAway_of_neg hneg, ← Int.cast_neg, hfloor, Int.neg_neg]
  · rw [roundHalfAway_of_nonneg hnonneg, hfloor]

theorem round3_mono
    {left right : ℚ}
    (h : left ≤ right) :
    round3 left ≤ round3 right := by
  have hround : roundHalfAway (left * 1000) ≤ roundHalfAway (right * 1000) :=
    roundHalfAway_mono (by linarith)
  have hcast : (roundHalfAway (left * 1000) : ℚ) ≤ roundHalfAway (right * 1000) := by
    exact_mod_cast hround
  simp only [round3]
  linarith

/-- Whole thousandths. -/
def IsMilli (value : ℚ) : Prop :=
  ∃ n : Int, value = n / 1000

theorem isMilli_round3 (value : ℚ) : IsMilli (round3 value) :=
  ⟨_, rfl⟩

theorem IsMilli.sub
    {left right : ℚ}
    (hleft : IsMilli left)
    (hright : IsMilli right) :
    IsMilli (left - right) := by
  obtain ⟨n, rfl⟩ := hleft
  obtain ⟨m, rfl⟩ := hright
  refine ⟨n - m, ?_⟩
  push_cast
  ring

/-- Whole thousandths are not rounded. -/
theorem IsMilli.round3_eq
    {value : ℚ}
    (hvalue : IsMilli value) :
    round3 value = value := by
  obtain ⟨n, rfl⟩ := hvalue
  have hwhole : (n : ℚ) / 1000 * 1000 = n := by
    linarith
  rw [round3, hwhole, roundHalfAway_intCast]

theorem isMilli_natCast (n : Nat) : IsMilli n := by
  refine ⟨n * 1000, ?_⟩
  push_cast
  linarith

/-! ## Scaling -/

/-- A value that the parser can return. -/
def LocValue (value : Nat) : Prop :=
  ∃ input cursor nextCursor,
    parseLocTokenAt input cursor = .ok (some (value, nextCursor))

theorem LocValue.le_maxLocationToken
    {value : Nat}
    (hvalue : LocValue value) :
    value ≤ maxLocationToken := by
  obtain ⟨input, cursor, nextCursor, hparse⟩ := hvalue
  unfold parseLocTokenAt at hparse
  split at hparse
  · cases hparse
  · split at hparse
    · cases hparse
    · split at hparse
      · cases hparse
      · split at hparse
        · cases hparse
        · rename_i digits _
          obtain ⟨loc, -, hloc⟩ := Option.map_eq_some_iff.mp (Except.ok.inj hparse)
          cases hloc
          exact Nat.min_le_right _ _

/-- A larger location value does not give a smaller coordinate. -/
theorem scaleLoc_mono
    {value larger : Nat}
    (h : value ≤ larger)
    (imageSide : Nat) :
    scaleLoc value imageSide ≤ scaleLoc larger imageSide := by
  refine round3_mono ?_
  have hcast : (value : ℚ) ≤ larger := by
    exact_mod_cast h
  gcongr

theorem scaleLoc_zero (imageSide : Nat) :
    scaleLoc 0 imageSide = 0 := by
  have hzero : round3 ((0 : Nat) : ℚ) = ((0 : Nat) : ℚ) := (isMilli_natCast 0).round3_eq
  rw [scaleLoc, Nat.cast_zero, zero_div, zero_mul]
  exact_mod_cast hzero

theorem scaleLoc_max (imageSide : Nat) :
    scaleLoc maxLocationToken imageSide = imageSide := by
  have hside : ((maxLocationToken : Nat) : ℚ) / 999 * imageSide = imageSide := by
    rw [maxLocationToken]
    push_cast
    ring
  rw [scaleLoc, hside]
  exact (isMilli_natCast imageSide).round3_eq

/-- Both edges of the image are fixed points, so every coordinate lies in between. -/
theorem scaleLoc_mem_side
    {value : Nat}
    (hvalue : LocValue value)
    (imageSide : Nat) :
    0 ≤ scaleLoc value imageSide ∧ scaleLoc value imageSide ≤ imageSide := by
  constructor
  · rw [← scaleLoc_zero imageSide]
    exact scaleLoc_mono (Nat.zero_le _) imageSide
  · rw [← scaleLoc_max imageSide]
    exact scaleLoc_mono hvalue.le_maxLocationToken imageSide

/-! ## Points -/

/-- The pairs are the values two by two. -/
theorem getElem?_chunksExact2
    (values : List Nat)
    {i : Nat}
    {pair : Nat × Nat}
    (hpair : (chunksExact2 values)[i]? = some pair) :
    values[2 * i]? = some pair.1 ∧ values[2 * i + 1]? = some pair.2 := by
  fun_induction chunksExact2 values generalizing i with
  | case1 x y rest ih =>
      cases i with
      | zero =>
          cases hpair
          exact ⟨rfl, rfl⟩
      | succ i =>
          rw [List.getElem?_cons_succ] at hpair
          exact ih hpair
  | case2 values hshort =>
      cases hpair

/-- The points of a region: pairs of values, scaled to the image. -/
def regionPoints (locTokens : List Nat) (imageSize : Nat × Nat) : List (ℚ × ℚ) :=
  (chunksExact2 locTokens).map
    (fun pair => (scaleLoc pair.1 imageSize.1, scaleLoc pair.2 imageSize.2))

theorem length_regionPoints
    (locTokens : List Nat)
    (imageSize : Nat × Nat) :
    (regionPoints locTokens imageSize).length = locTokens.length / 2 := by
  rw [regionPoints, List.length_map, chunksExact2_length]

/-- Where the coordinates of a point come from. -/
theorem getElem?_regionPoints
    {locTokens : List Nat}
    {imageSize : Nat × Nat}
    {i : Nat}
    {point : ℚ × ℚ}
    (hpoint : (regionPoints locTokens imageSize)[i]? = some point) :
    ∃ x y, locTokens[2 * i]? = some x ∧ locTokens[2 * i + 1]? = some y ∧
      point = (scaleLoc x imageSize.1, scaleLoc y imageSize.2) := by
  rw [regionPoints, List.getElem?_map, Option.map_eq_some_iff] at hpoint
  obtain ⟨pair, hpair, rfl⟩ := hpoint
  obtain ⟨hx, hy⟩ := getElem?_chunksExact2 locTokens hpair
  exact ⟨pair.1, pair.2, hx, hy, rfl⟩

/-- The item that is built from two points and more. -/
theorem ocrRegionItem_of_points
    (text : List Char)
    {locTokens : List Nat}
    {imageSize : Nat × Nat}
    {first second : ℚ × ℚ}
    {others : List (ℚ × ℚ)}
    (hpoints : regionPoints locTokens imageSize = first :: second :: others) :
    ∃ item, ocrRegionItem text locTokens imageSize = some item ∧
      item.polygon = regionPoints locTokens imageSize ∧
      item.bbox.xMin =
        (second :: others).foldl (fun bound point => min bound point.1) first.1 ∧
      item.bbox.yMin =
        (second :: others).foldl (fun bound point => min bound point.2) first.2 ∧
      item.bbox.xMax =
        (second :: others).foldl (fun bound point => max bound point.1) first.1 ∧
      item.bbox.yMax =
        (second :: others).foldl (fun bound point => max bound point.2) first.2 ∧
      item.bbox.width = round3 (item.bbox.xMax - item.bbox.xMin) ∧
      item.bbox.height = round3 (item.bbox.yMax - item.bbox.yMin) := by
  have hmap :
      (chunksExact2 locTokens).map
          (fun pair => (scaleLoc pair.1 imageSize.1, scaleLoc pair.2 imageSize.2)) =
        first :: second :: others := hpoints
  rw [ocrRegionItem, hpoints]
  simp only [hmap]
  exact ⟨_, rfl, rfl, rfl, rfl, rfl, rfl, rfl, rfl⟩

theorem ocrRegionItem_of_few
    (text : List Char)
    {locTokens : List Nat}
    (imageSize : Nat × Nat)
    (hfew : locTokens.length < 4) :
    ocrRegionItem text locTokens imageSize = none := by
  have hlength := length_regionPoints locTokens imageSize
  have hmap :
      regionPoints locTokens imageSize =
        (chunksExact2 locTokens).map
          (fun pair => (scaleLoc pair.1 imageSize.1, scaleLoc pair.2 imageSize.2)) := rfl
  rw [ocrRegionItem, ← hmap]
  match hpoints : regionPoints locTokens imageSize with
  | [] => rfl
  | [first] => rfl
  | first :: second :: others =>
      rw [hpoints, List.length_cons, List.length_cons] at hlength
      omega

theorem exists_points
    {locTokens : List Nat}
    (imageSize : Nat × Nat)
    (hmany : 4 ≤ locTokens.length) :
    ∃ first second others,
      regionPoints locTokens imageSize = first :: second :: others := by
  have hlength := length_regionPoints locTokens imageSize
  match hpoints : regionPoints locTokens imageSize with
  | [] =>
      rw [hpoints, List.length_nil] at hlength
      omega
  | [first] =>
      rw [hpoints, List.length_singleton] at hlength
      omega
  | first :: second :: others =>
      exact ⟨first, second, others, rfl⟩

/-! ## The box -/

/-- `low` and `high` are attained bounds of the coordinate, and `extent` their distance. -/
structure TightBounds
    (coordinate : ℚ × ℚ → ℚ)
    (polygon : List (ℚ × ℚ))
    (low high extent : ℚ) : Prop where
  least : IsLeast (coordinate '' elements polygon) low
  greatest : IsGreatest (coordinate '' elements polygon) high
  extent_eq : extent = high - low
  extent_nonneg : 0 ≤ extent

/-- The loop over the points finds the bounds, and their distance is not rounded. -/
theorem tightBounds_of_loop
    {coordinate : ℚ × ℚ → ℚ}
    {first : ℚ × ℚ}
    {rest : List (ℚ × ℚ)}
    {low high : ℚ}
    (hlow : low = rest.foldl (fun bound point => min bound (coordinate point)) (coordinate first))
    (hhigh :
      high = rest.foldl (fun bound point => max bound (coordinate point)) (coordinate first))
    (hmilli : ∀ point ∈ first :: rest, IsMilli (coordinate point)) :
    TightBounds coordinate (first :: rest) low high (round3 (high - low)) := by
  have hset :
      coordinate '' elements (first :: rest) =
        insert (coordinate first) (coordinate '' elements rest) := by
    rw [elements_cons, Set.image_insert_eq]
  have hleast : IsLeast (coordinate '' elements (first :: rest)) low := by
    rw [hset, hlow]
    exact isLeast_foldl_min coordinate _ rest
  have hgreatest : IsGreatest (coordinate '' elements (first :: rest)) high := by
    rw [hset, hhigh]
    exact isGreatest_foldl_max coordinate _ rest
  have hattained : ∀ value ∈ coordinate '' elements (first :: rest), IsMilli value := by
    rintro _ ⟨point, hpoint, rfl⟩
    exact hmilli point hpoint
  have hexact : round3 (high - low) = high - low :=
    ((hattained high hgreatest.1).sub (hattained low hleast.1)).round3_eq
  refine ⟨hleast, hgreatest, hexact, ?_⟩
  rw [hexact]
  exact sub_nonneg.mpr (hleast.2 hgreatest.1)

/--
A region has no item exactly when it has fewer than four values.  The polygon of
an item pairs the values up, an odd last one is ignored, and lies in the image;
its box is tight, with the distances of the bounds as width and height.  A larger
value is not mapped to a smaller coordinate.
-/
theorem ocrRegionItem_box
    (text : List Char)
    (locTokens : List Nat)
    (imageSize : Nat × Nat)
    (hvalues : ∀ value ∈ locTokens, LocValue value) :
    (ocrRegionItem text locTokens imageSize = none ↔ locTokens.length < 4) ∧
    (∀ item, ocrRegionItem text locTokens imageSize = some item →
      item.polygon.length = locTokens.length / 2 ∧
      (∀ i point, item.polygon[i]? = some point →
        ∃ x y, locTokens[2 * i]? = some x ∧ locTokens[2 * i + 1]? = some y ∧
          point = (scaleLoc x imageSize.1, scaleLoc y imageSize.2)) ∧
      (∀ point ∈ item.polygon,
        0 ≤ point.1 ∧ point.1 ≤ imageSize.1 ∧ 0 ≤ point.2 ∧ point.2 ≤ imageSize.2) ∧
      TightBounds Prod.fst item.polygon item.bbox.xMin item.bbox.xMax item.bbox.width ∧
      TightBounds Prod.snd item.polygon item.bbox.yMin item.bbox.yMax item.bbox.height) ∧
    ∀ value larger imageSide : Nat, value ≤ larger →
      scaleLoc value imageSide ≤ scaleLoc larger imageSide := by
  refine ⟨⟨fun hnone => ?_, ocrRegionItem_of_few text imageSize⟩, ?_, ?_⟩
  · by_contra hmany
    obtain ⟨first, second, others, hpoints⟩ := exists_points imageSize (Nat.not_lt.mp hmany)
    obtain ⟨item, hitem, -⟩ := ocrRegionItem_of_points text hpoints
    rw [hnone] at hitem
    cases hitem
  · intro item hitem
    have hmany : 4 ≤ locTokens.length := by
      by_contra hfew
      rw [ocrRegionItem_of_few text imageSize (Nat.not_le.mp hfew)] at hitem
      cases hitem
    obtain ⟨first, second, others, hpoints⟩ := exists_points imageSize hmany
    obtain ⟨built, hbuilt, hpolygon, hxMin, hyMin, hxMax, hyMax, hwidth, hheight⟩ :=
      ocrRegionItem_of_points text hpoints
    rw [hitem] at hbuilt
    cases hbuilt
    have hscaled : ∀ point ∈ regionPoints locTokens imageSize,
        ∃ x y, LocValue x ∧ LocValue y ∧
          point = (scaleLoc x imageSize.1, scaleLoc y imageSize.2) := by
      intro point hpoint
      obtain ⟨i, hi⟩ := List.mem_iff_getElem?.mp hpoint
      obtain ⟨x, y, hx, hy, heq⟩ := getElem?_regionPoints hi
      exact ⟨x, y, hvalues x (List.mem_of_getElem? hx), hvalues y (List.mem_of_getElem? hy), heq⟩
    refine ⟨?_, ?_, ?_, ?_, ?_⟩
    · rw [hpolygon, length_regionPoints]
    · intro i point hpoint
      rw [hpolygon] at hpoint
      exact getElem?_regionPoints hpoint
    · intro point hpoint
      rw [hpolygon] at hpoint
      obtain ⟨x, y, hx, hy, rfl⟩ := hscaled point hpoint
      have hinX := scaleLoc_mem_side hx imageSize.1
      have hinY := scaleLoc_mem_side hy imageSize.2
      exact ⟨hinX.1, hinX.2, hinY.1, hinY.2⟩
    · rw [hpolygon, hpoints, hwidth]
      refine tightBounds_of_loop hxMin hxMax fun point hpoint => ?_
      rw [← hpoints] at hpoint
      obtain ⟨x, y, -, -, rfl⟩ := hscaled point hpoint
      exact isMilli_round3 _
    · rw [hpolygon, hpoints, hheight]
      refine tightBounds_of_loop hyMin hyMax fun point hpoint => ?_
      rw [← hpoints] at hpoint
      obtain ⟨x, y, -, -, rfl⟩ := hscaled point hpoint
      exact isMilli_round3 _
  · exact fun value larger imageSide h => scaleLoc_mono h imageSide

/-- Opposite corners of an image, and a value that is left over: the box is the image. -/
theorem ocrRegionItem_box_corners :
    ∃ item, ocrRegionItem [] [0, 0, 999, 999, 0] (640, 480) = some item ∧
      item.polygon = [(0, 0), (640, 480)] ∧
      TightBounds Prod.fst item.polygon 0 640 640 ∧
      TightBounds Prod.snd item.polygon 0 480 480 := by
  have hlow : LocValue 0 := ⟨"<loc_0>".toList, 0, 7, by rfl⟩
  have hhigh : LocValue 999 := ⟨"<loc_1000>".toList, 0, 10, by rfl⟩
  have hbox := ocrRegionItem_box [] [0, 0, 999, 999, 0] (640, 480) (by
    intro value hvalue
    simp only [List.mem_cons, List.not_mem_nil, or_false] at hvalue
    rcases hvalue with rfl | rfl | rfl | rfl | rfl
    · exact hlow
    · exact hlow
    · exact hhigh
    · exact hhigh
    · exact hlow)
  have hcorners : (ocrRegionItem [] [0, 0, 999, 999, 0] (640, 480)).map
      (fun item => (item.polygon, item.bbox)) =
        some ([(0, 0), (640, 480)], ⟨0, 0, 640, 480, 640, 480⟩) := by
    decide +kernel
  obtain ⟨item, hitem, hpair⟩ := Option.map_eq_some_iff.mp hcorners
  obtain ⟨hpolygon, hbbox⟩ := Prod.mk.inj hpair
  obtain ⟨-, -, -, hx, hy⟩ := hbox.2.1 item hitem
  rw [hbbox] at hx hy
  exact ⟨item, hitem, hpolygon, hx, hy⟩

end FlorenceServer
