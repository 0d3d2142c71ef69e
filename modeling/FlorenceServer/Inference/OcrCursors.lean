import FlorenceServer.Inference.OcrRegions

/-!
# The cursors of the OCR loops

The cursors of `parse_ocr_regions` are sums of offsets that were found in
different slices of the text.  The loops keep the text split at their cursors,
so every cursor stands between two characters.

* `ocr_cursors_on_boundaries`: the cursors are in order and on character
  boundaries after any number of loop conditions, `parse_loc_token_at` moves its
  cursor forward to such a boundary, and no slice expression panics.
-/

namespace FlorenceServer

section Cursors

variable {text : List Char}

/-- The cursors of a round stand between two characters, one after the other. -/
structure LocRun.OnBoundaries (text : List Char) (cursor : Nat) (run : LocRun) : Prop where
  cursor_boundary : IsCharBoundary text cursor
  locStart_boundary : IsCharBoundary text run.locStart
  locCursor_boundary : IsCharBoundary text run.locCursor
  cursor_le : cursor ≤ run.locStart
  locStart_le : run.locStart ≤ run.locCursor
  locCursor_le : run.locCursor ≤ byteLength text

/-- The cursors of a state stand between two characters. -/
def OcrState.OnBoundaries (text : List Char) : OcrState → Prop
  | .searching _ cursor => IsCharBoundary text cursor ∧ cursor ≤ byteLength text
  | .collecting _ cursor run => run.OnBoundaries text cursor
  | .returned _ => True
  | .panicked => False

theorem LocRun.Splits.onBoundaries
    {run : LocRun} {front skipped taken rest : List Char}
    (hrun : run.Splits text front skipped taken rest) :
    run.OnBoundaries text (byteLength front) := by
  have hlocStart : IsCharBoundary text run.locStart := by
    refine ⟨front ++ skipped, taken ++ rest, ?_, hrun.locStart_eq⟩
    rw [hrun.text_eq, List.append_assoc]
  have hlocCursor : IsCharBoundary text run.locCursor := by
    refine ⟨front ++ (skipped ++ taken), rest, ?_, hrun.locCursor_eq⟩
    rw [hrun.text_eq]
    simp
  exact
    { cursor_boundary := ⟨front, skipped ++ (taken ++ rest), hrun.text_eq, rfl⟩
      locStart_boundary := hlocStart
      locCursor_boundary := hlocCursor
      cursor_le := by
        rw [hrun.locStart_eq, byteLength_append]
        exact Nat.le_add_right _ _
      locStart_le := by
        rw [hrun.locStart_eq, hrun.locCursor_eq, ← List.append_assoc,
          byteLength_append (front ++ skipped)]
        exact Nat.le_add_right _ _
      locCursor_le := hlocCursor.le_byteLength }

theorem OcrState.Splits.onBoundaries
    {s : OcrState}
    (hs : s.Splits text) :
    s.OnBoundaries text := by
  cases s with
  | searching items cursor =>
      have hcursor : IsCharBoundary text cursor := hs
      exact ⟨hcursor, hcursor.le_byteLength⟩
  | collecting items cursor run =>
      obtain ⟨front, skipped, taken, rest, rfl, hrun⟩ := hs
      exact hrun.onBoundaries
  | returned items =>
      trivial
  | panicked =>
      exact hs.elim

/-- `parse_loc_token_at` at an offset inside a character or behind the end. -/
theorem parseLocTokenAt_of_not_boundary
    {cursor : Nat}
    (hcursor : ¬ IsCharBoundary text cursor) :
    parseLocTokenAt text cursor = .ok none := by
  have hslice : sliceFrom text cursor = none := by
    rw [Option.eq_none_iff_forall_ne_some]
    intro rest hrest
    exact hcursor (exists_sliceFrom_iff.mp ⟨rest, hrest⟩)
  rw [parseLocTokenAt, hslice]

/-- What `parse_loc_token_at` returns, whatever its cursor is. -/
theorem parseLocTokenAt_cases
    (text : List Char) (cursor : Nat) :
    parseLocTokenAt text cursor = .ok none ∨
    ∃ front token loc after,
      LocToken token loc ∧ text = front ++ (token ++ after) ∧ cursor = byteLength front ∧
        parseLocTokenAt text cursor = .ok (some (loc, byteLength (front ++ token))) := by
  by_cases hcursor : IsCharBoundary text cursor
  · obtain ⟨front, rest, rfl, rfl⟩ := hcursor
    rcases parseLocTokenAt_append front rest with
      ⟨token, loc, after, htoken, rfl, hparse⟩ | ⟨-, hparse⟩
    · exact Or.inr ⟨front, token, loc, after, htoken, rfl, rfl, hparse⟩
    · exact Or.inl hparse
  · exact Or.inl (parseLocTokenAt_of_not_boundary hcursor)

/-- A token moves the cursor forward, to the character behind it. -/
theorem parseLocTokenAt_advances
    {cursor loc nextCursor : Nat}
    (h : parseLocTokenAt text cursor = .ok (some (loc, nextCursor))) :
    cursor < nextCursor ∧ IsCharBoundary text nextCursor := by
  rcases parseLocTokenAt_cases text cursor with
    hnone | ⟨front, token, loc', after, htoken, rfl, rfl, hparse⟩
  · rw [hnone] at h
    cases h
  · rw [hparse] at h
    cases h
    constructor
    · have hpos := byteLength_pos htoken.ne_nil
      rw [byteLength_append]
      omega
    · exact ⟨front ++ token, after, (List.append_assoc _ _ _).symm, rfl⟩

end Cursors

/-- **The OCR loops slice between characters.** -/
theorem ocr_cursors_on_boundaries
    (generatedText : List Char) (imageSize : Nat × Nat) :
    (∀ rounds items cursor,
      parseOcrRegions generatedText imageSize rounds = .searching items cursor →
        cursor ≤ byteLength generatedText ∧ IsCharBoundary generatedText cursor) ∧
    (∀ rounds items cursor run,
      parseOcrRegions generatedText imageSize rounds = .collecting items cursor run →
        run.OnBoundaries generatedText cursor) ∧
    (∀ cursor loc nextCursor,
      parseLocTokenAt generatedText cursor = .ok (some (loc, nextCursor)) →
        cursor < nextCursor ∧ nextCursor ≤ byteLength generatedText ∧
          IsCharBoundary generatedText nextCursor) ∧
    (∀ cursor, parseLocTokenAt generatedText cursor ≠ .error .outOfBounds) ∧
    ∀ rounds, parseOcrRegions generatedText imageSize rounds ≠ .panicked := by
  have hstates : ∀ rounds,
      (parseOcrRegions generatedText imageSize rounds).OnBoundaries generatedText :=
    fun rounds => (parseOcrRegions_splits imageSize generatedText rounds).onBoundaries
  refine ⟨?_, ?_, ?_, ?_, ?_⟩
  · intro rounds items cursor hstate
    have hcursor := hstates rounds
    rw [hstate] at hcursor
    exact hcursor.symm
  · intro rounds items cursor run hstate
    have hrun := hstates rounds
    rw [hstate] at hrun
    exact hrun
  · intro cursor loc nextCursor hparse
    obtain ⟨hforward, hnext⟩ := parseLocTokenAt_advances hparse
    exact ⟨hforward, hnext.le_byteLength, hnext⟩
  · intro cursor hpanics
    rcases parseLocTokenAt_cases generatedText cursor with
      hnone | ⟨front, token, loc, after, -, -, -, hparse⟩
    · rw [hnone] at hpanics
      cases hpanics
    · rw [hparse] at hpanics
      cases hpanics
  · intro rounds hpanicked
    have hstate := hstates rounds
    rw [hpanicked] at hstate
    exact hstate

/-- A token between two characters of two bytes each. -/
theorem ocr_cursors_between_accents :
    (∃ run, parseOcrRegions "é<loc_12>ü".toList (640, 480) 2 = .collecting [] 0 run ∧
      run.locCursor = 10 ∧ run.OnBoundaries "é<loc_12>ü".toList 0) ∧
    IsCharBoundary "é<loc_12>ü".toList 10 ∧ ¬ IsCharBoundary "é<loc_12>ü".toList 11 := by
  obtain ⟨-, hcollecting, htoken, -, -⟩ :=
    ocr_cursors_on_boundaries "é<loc_12>ü".toList (640, 480)
  have hstate : parseOcrRegions "é<loc_12>ü".toList (640, 480) 2 =
      .collecting [] 0
        { text := ['é'], locStart := 2, locTokens := [12], locCursor := 10 } := by
    decide
  refine ⟨⟨_, hstate, rfl, hcollecting 2 [] 0 _ hstate⟩, (htoken 2 12 10 (by decide)).2.2, ?_⟩
  intro hinside
  obtain ⟨rest, hrest⟩ := exists_sliceFrom_iff.mpr hinside
  have hnone : sliceFrom "é<loc_12>ü".toList 11 = none := by decide
  rw [hnone] at hrest
  cases hrest

end FlorenceServer
