import Mathlib.Tactic
import FlorenceServer.Lib.Runs
import FlorenceServer.Inference.Postprocess

/-!
# What the OCR loops do with a text

`parse_loc_token_at` is described on the characters behind a cursor: it accepts
exactly the texts `LocToken` at their front.  With this the loops are followed
on a text that is split at the cursor.

* `ocr_loop_terminates_iff`: the loops end on a text exactly if every
  occurrence of `<loc_` opens a well-formed token.  At any other occurrence the
  inner loop reads nothing and the outer loop starts again at the same place.
* `ocr_regions_of_rendered`: rendered regions are read back, for any texts
  around the tokens.
-/

namespace FlorenceServer

section Tokens

/-- A well-formed location token and the value it is read as. -/
def LocToken (token : List Char) (loc : Nat) : Prop :=
  ∃ digits value,
    '>' ∉ digits ∧ parseU16 digits = some value ∧
      token = locPrefix ++ (digits ++ ['>']) ∧ loc = min value maxLocationToken

theorem LocToken.ne_nil {token : List Char} {loc : Nat} (h : LocToken token loc) :
    token ≠ [] := by
  obtain ⟨digits, value, -, -, rfl, -⟩ := h
  simp [locPrefix]

theorem LocToken.opens_append {token : List Char} {loc : Nat}
    (h : LocToken token loc) (after : List Char) :
    locPrefix <+: token ++ after := by
  obtain ⟨digits, value, -, -, rfl, -⟩ := h
  rw [List.append_assoc]
  exact List.prefix_append _ _

theorem isDigit_of_parseDigits
    {digits : List Char} {value result : Nat}
    (h : parseDigits digits value = some result) :
    ∀ c ∈ digits, c.isDigit = true := by
  induction digits generalizing value with
  | nil =>
      nofun
  | cons d digits ih =>
      unfold parseDigits at h
      split at h
      · rename_i hd
        intro c hc
        rcases List.mem_cons.mp hc with rfl | hc
        · exact hd
        · exact ih h c hc
      · cases h

theorem mem_stripPlus {c : Char} {text : List Char} (h : c ∈ text) (hc : c ≠ '+') :
    c ∈ stripPlus text := by
  unfold stripPlus
  split
  · exact (List.mem_cons.mp h).resolve_left hc
  · exact h

/-- The digits of a number do not open another token. -/
theorem lt_not_mem_of_parseU16
    {digits : List Char} {value : Nat}
    (h : parseU16 digits = some value) :
    '<' ∉ digits := by
  intro hmem
  unfold parseU16 at h
  split at h
  · cases h
  · obtain ⟨hparse, -⟩ := Option.filter_eq_some_iff.mp h
    have hdigit := isDigit_of_parseDigits hparse '<' (mem_stripPlus hmem (by decide))
    exact absurd hdigit (by decide)

/-- A text has at most one token at its front. -/
theorem LocToken.split_unique
    {digits digits' after after' : List Char}
    (hdigits : '>' ∉ digits) (hdigits' : '>' ∉ digits')
    (h : digits ++ '>' :: after = digits' ++ '>' :: after') :
    digits = digits' ∧ after = after' := by
  induction digits generalizing digits' with
  | nil =>
      cases digits' with
      | nil =>
          exact ⟨rfl, (List.cons.inj h).2⟩
      | cons d digits' =>
          have hhead := (List.cons.inj h).1
          exact absurd (hhead ▸ List.mem_cons_self) hdigits'
  | cons d digits ih =>
      cases digits' with
      | nil =>
          have hhead := (List.cons.inj h).1
          exact absurd (hhead ▸ List.mem_cons_self) hdigits
      | cons d' digits' =>
          obtain ⟨rfl, htail⟩ := List.cons.inj h
          obtain ⟨rfl, rfl⟩ := ih (fun hm => hdigits (List.mem_cons_of_mem _ hm))
            (fun hm => hdigits' (List.mem_cons_of_mem _ hm)) htail
          exact ⟨rfl, rfl⟩

/--
What `parse_loc_token_at` finds at a cursor: either a token stands there and the
new cursor is behind it, or no token does.
-/
theorem parseLocTokenAt_append
    (front rest : List Char) :
    (∃ token loc after, LocToken token loc ∧ rest = token ++ after ∧
      parseLocTokenAt (front ++ rest) (byteLength front) =
        .ok (some (loc, byteLength (front ++ token)))) ∨
    ((∀ token loc after, LocToken token loc → rest ≠ token ++ after) ∧
      parseLocTokenAt (front ++ rest) (byteLength front) = .ok none) := by
  unfold parseLocTokenAt
  cases hstrip : stripPrefix locPrefix rest with
  | none =>
      right
      refine ⟨?_, by simp [hstrip]⟩
      rintro token loc after htoken rfl
      exact stripPrefix_eq_none_iff.mp hstrip (htoken.opens_append after)
  | some remaining =>
      simp only [sliceFrom_append, hstrip]
      rw [stripPrefix_eq_some_iff] at hstrip
      subst hstrip
      cases hsplit : splitFirst ['>'] remaining with
      | none =>
          right
          refine ⟨?_, by simp [findText, hsplit]⟩
          rintro token loc after ⟨digits, value, -, -, rfl, -⟩ heq
          rw [splitFirst_eq_none_iff] at hsplit
          rw [List.append_assoc, List.append_cancel_left_eq] at heq
          exact hsplit ⟨digits, after, by rw [heq]⟩
      | some parts =>
          obtain ⟨digits, behind⟩ := parts
          have hdigits := not_infix_of_splitFirst (List.cons_ne_nil _ _) hsplit
          rw [List.singleton_infix_iff] at hdigits
          obtain ⟨rfl, after, rfl⟩ := splitFirst_some hsplit
          simp only [findText, hsplit, Option.map_some, sliceTo_append]
          cases hvalue : parseU16 digits with
          | none =>
              right
              refine ⟨?_, rfl⟩
              rintro token loc after' ⟨digits', value, hdigits', hvalue', rfl, -⟩ heq
              rw [List.append_assoc, List.append_assoc, List.append_cancel_left_eq] at heq
              obtain ⟨rfl, -⟩ := LocToken.split_unique hdigits hdigits' heq
              rw [hvalue] at hvalue'
              cases hvalue'
          | some value =>
              left
              refine ⟨locPrefix ++ (digits ++ ['>']), min value maxLocationToken, after,
                ⟨digits, value, hdigits, hvalue, rfl, rfl⟩, by simp, ?_⟩
              have hclose : '>'.utf8Size = 1 := by decide
              simp only [Option.map_some, byteLength_append, byteLength_cons, byteLength_nil,
                hclose]
              congr 3
              omega

theorem parseLocTokenAt_of_token
    {token : List Char} {loc : Nat} (htoken : LocToken token loc)
    (front after : List Char) :
    parseLocTokenAt (front ++ (token ++ after)) (byteLength front) =
      .ok (some (loc, byteLength (front ++ token))) := by
  rcases parseLocTokenAt_append front (token ++ after) with
    ⟨token', loc', after', htoken', heq, hparse⟩ | ⟨hnone, -⟩
  · obtain ⟨digits, value, hdigits, hvalue, rfl, rfl⟩ := htoken
    obtain ⟨digits', value', hdigits', hvalue', rfl, rfl⟩ := htoken'
    simp only [List.append_assoc, List.append_cancel_left_eq] at heq
    obtain ⟨rfl, -⟩ := LocToken.split_unique hdigits hdigits' heq
    rw [hvalue, Option.some.injEq] at hvalue'
    subst hvalue'
    exact hparse
  · exact absurd rfl (hnone token loc after htoken)

/-- The next occurrence of the opening text starts at a token or behind it. -/
theorem LocToken.suffix_cases
    {token after later : List Char} {loc : Nat} (htoken : LocToken token loc)
    (hlater : locPrefix <+: later)
    (hsuffix : later <:+ token ++ after) :
    later = token ++ after ∨ later <:+ after := by
  obtain ⟨digits, value, -, hvalue, rfl, -⟩ := htoken
  obtain ⟨tail, rfl⟩ := hlater
  have hdigits := lt_not_mem_of_parseU16 hvalue
  have hbody : '<' ∉ ['l', 'o', 'c', '_'] ++ (digits ++ ['>']) := by
    simp [hdigits]
  rcases List.suffix_cons_iff.mp hsuffix with heq | hsuffix
  · exact Or.inl heq
  · exact Or.inr (suffix_of_not_mem hbody hsuffix)

end Tokens

section Termination

/-- The loops get to the end of a text. -/
def OcrLoopTerminates (generatedText : List Char) (imageSize : Nat × Nat) : Prop :=
  ∃ rounds items, parseOcrRegions generatedText imageSize rounds = .returned items

/-- Every iteration of the outer loop moves `cursor` strictly forward. -/
def OcrCursorAdvances (generatedText : List Char) (imageSize : Nat × Nat) : Prop :=
  ∀ rounds items cursor run items' cursor',
    parseOcrRegions generatedText imageSize rounds = .collecting items cursor run →
    parseOcrRegions generatedText imageSize (rounds + 1) = .searching items' cursor' →
    cursor < cursor'

/-- Every occurrence of `<loc_` in the text opens a token that can be parsed. -/
def EveryLocTokenParses (generatedText : List Char) : Prop :=
  ∀ front rest, generatedText = front ++ (locPrefix ++ rest) →
    ∃ token, parseLocTokenAt generatedText (byteLength front) = .ok (some token)

/-- A round of the outer loop: the text it skips and the tokens it has read. -/
structure LocRun.Splits
    (run : LocRun) (text front skipped taken rest : List Char) : Prop where
  text_eq : text = front ++ (skipped ++ (taken ++ rest))
  locStart_eq : run.locStart = byteLength (front ++ skipped)
  locCursor_eq : run.locCursor = byteLength (front ++ (skipped ++ taken))
  opened : locPrefix <+: taken ++ rest
  locTokens_nil_iff : run.locTokens = [] ↔ taken = []

/-- The cursors of a state split the text. -/
def OcrState.Splits (text : List Char) : OcrState → Prop
  | .searching _ cursor =>
      ∃ front rest, text = front ++ rest ∧ cursor = byteLength front
  | .collecting _ cursor run =>
      ∃ front skipped taken rest,
        cursor = byteLength front ∧ run.Splits text front skipped taken rest
  | .returned _ => True
  | .panicked => False

variable (imageSize : Nat × Nat)

theorem ocrStep_searching_found
    (front skipped later : List Char) (items : List OcrRegionItem)
    (hsplit : splitFirst locPrefix (skipped ++ later) = some (skipped, later)) :
    ocrStep (front ++ (skipped ++ later)) imageSize (.searching items (byteLength front)) =
      .collecting items (byteLength front)
        { text := trimChars skipped
          locStart := byteLength (front ++ skipped)
          locTokens := []
          locCursor := byteLength (front ++ skipped) } := by
  simp [ocrStep, findText, hsplit, slice_append]

theorem ocrStep_searching_absent
    (front rest : List Char) (items : List OcrRegionItem)
    (habsent : ¬ locPrefix <:+: rest) :
    ocrStep (front ++ rest) imageSize (.searching items (byteLength front)) =
      .returned items := by
  simp [ocrStep, findText_eq_none_iff.mpr habsent]

theorem ocrStep_collecting_token
    {token : List Char} {loc : Nat} (htoken : LocToken token loc)
    (front after : List Char) (items : List OcrRegionItem) (cursor : Nat) (run : LocRun)
    (hcursor : run.locCursor = byteLength front) :
    ocrStep (front ++ (token ++ after)) imageSize (.collecting items cursor run) =
      .collecting items cursor
        { run with
          locTokens := run.locTokens ++ [loc]
          locCursor := byteLength (front ++ token) } := by
  simp only [ocrStep, hcursor, parseLocTokenAt_of_token htoken front after]

theorem ocrStep_collecting_stop
    {text : List Char} {run : LocRun}
    (hparse : parseLocTokenAt text run.locCursor = .ok none)
    (items : List OcrRegionItem) (cursor : Nat) :
    ocrStep text imageSize (.collecting items cursor run) =
      .searching (pushRegion items run imageSize) run.locCursor := by
  simp only [ocrStep, hparse]

/-- What a loop condition can do in a state whose cursors split the text. -/
theorem ocrStep_cases
    {text : List Char} {s : OcrState} (hs : s.Splits text) :
    (∃ items front rest,
      text = front ++ rest ∧ s = .searching items (byteLength front) ∧
      ¬ locPrefix <:+: rest ∧ ocrStep text imageSize s = .returned items) ∨
    (∃ items front skipped later,
      text = front ++ (skipped ++ later) ∧ s = .searching items (byteLength front) ∧
      splitFirst locPrefix (skipped ++ later) = some (skipped, later) ∧
      ocrStep text imageSize s =
        .collecting items (byteLength front)
          { text := trimChars skipped
            locStart := byteLength (front ++ skipped)
            locTokens := []
            locCursor := byteLength (front ++ skipped) }) ∨
    (∃ items front skipped taken token loc after run,
      s = .collecting items (byteLength front) run ∧
      run.Splits text front skipped taken (token ++ after) ∧ LocToken token loc ∧
      ocrStep text imageSize s =
        .collecting items (byteLength front)
          { run with
            locTokens := run.locTokens ++ [loc]
            locCursor := byteLength (front ++ (skipped ++ (taken ++ token))) }) ∨
    (∃ items front skipped taken rest run,
      s = .collecting items (byteLength front) run ∧
      run.Splits text front skipped taken rest ∧
      parseLocTokenAt text run.locCursor = .ok none ∧
      (∀ token loc after, LocToken token loc → rest ≠ token ++ after) ∧
      ocrStep text imageSize s =
        .searching (pushRegion items run imageSize) run.locCursor) ∨
    (∃ items, s = .returned items ∧ ocrStep text imageSize s = .returned items) := by
  cases s with
  | searching items cursor =>
      obtain ⟨front, rest, rfl, rfl⟩ := hs
      cases hsplit : splitFirst locPrefix rest with
      | none =>
          have habsent := splitFirst_eq_none_iff.mp hsplit
          exact Or.inl ⟨items, front, rest, rfl, rfl, habsent,
            ocrStep_searching_absent imageSize front rest items habsent⟩
      | some parts =>
          obtain ⟨skipped, later⟩ := parts
          obtain ⟨rfl, -⟩ := splitFirst_some hsplit
          exact Or.inr (Or.inl ⟨items, front, skipped, later, rfl, rfl, hsplit,
            ocrStep_searching_found imageSize front skipped later items hsplit⟩)
  | collecting items cursor run =>
      obtain ⟨front, skipped, taken, rest, rfl, hrun⟩ := hs
      have htext : text = (front ++ (skipped ++ taken)) ++ rest := by
        rw [hrun.text_eq]
        simp
      rcases parseLocTokenAt_append (front ++ (skipped ++ taken)) rest with
        ⟨token, loc, after, htoken, rfl, -⟩ | ⟨hnone, hparse⟩
      · have hstep := ocrStep_collecting_token imageSize htoken (front ++ (skipped ++ taken))
          after items (byteLength front) run hrun.locCursor_eq
        rw [← htext, List.append_assoc, List.append_assoc] at hstep
        exact Or.inr (Or.inr (Or.inl ⟨items, front, skipped, taken, token, loc, after, run,
          rfl, hrun, htoken, hstep⟩))
      · rw [← hrun.locCursor_eq, ← htext] at hparse
        exact Or.inr (Or.inr (Or.inr (Or.inl ⟨items, front, skipped, taken, rest, run,
          rfl, hrun, hparse, hnone, ocrStep_collecting_stop imageSize hparse items _⟩)))
  | returned items =>
      exact Or.inr (Or.inr (Or.inr (Or.inr ⟨items, rfl, rfl⟩)))
  | panicked =>
      exact hs.elim

/-- No loop condition slices inside a character or behind the end. -/
theorem OcrState.Splits.step
    {text : List Char} {s : OcrState} (hs : s.Splits text) :
    (ocrStep text imageSize s).Splits text := by
  rcases ocrStep_cases imageSize hs with
    ⟨items, front, rest, -, -, -, hstep⟩ |
    ⟨items, front, skipped, later, htext, -, hsplit, hstep⟩ |
    ⟨items, front, skipped, taken, token, loc, after, run, -, hrun, htoken, hstep⟩ |
    ⟨items, front, skipped, taken, rest, run, -, hrun, -, -, hstep⟩ |
    ⟨items, -, hstep⟩
  · rw [hstep]
    trivial
  · rw [hstep]
    refine ⟨front, skipped, [], later, rfl, ?_⟩
    exact
      { text_eq := htext
        locStart_eq := rfl
        locCursor_eq := by simp
        opened := (splitFirst_some hsplit).2
        locTokens_nil_iff := by simp }
  · rw [hstep]
    refine ⟨front, skipped, taken ++ token, after, rfl, ?_⟩
    exact
      { text_eq := by rw [hrun.text_eq, List.append_assoc taken]
        locStart_eq := hrun.locStart_eq
        locCursor_eq := rfl
        opened := by rw [List.append_assoc]; exact hrun.opened
        locTokens_nil_iff := by simp [htoken.ne_nil] }
  · rw [hstep]
    refine ⟨front ++ (skipped ++ taken), rest, ?_, hrun.locCursor_eq⟩
    rw [hrun.text_eq]
    simp
  · rw [hstep]
    trivial

theorem parseOcrRegions_succ (text : List Char) (rounds : Nat) :
    parseOcrRegions text imageSize (rounds + 1) =
      ocrStep text imageSize (parseOcrRegions text imageSize rounds) :=
  Function.iterate_succ_apply' _ _ _

/-- The cursors split the text after any number of loop conditions. -/
theorem parseOcrRegions_splits (text : List Char) (rounds : Nat) :
    (parseOcrRegions text imageSize rounds).Splits text := by
  induction rounds with
  | zero =>
      exact ⟨[], text, rfl, rfl⟩
  | succ rounds ih =>
      rw [parseOcrRegions_succ]
      exact ih.step imageSize

/-- A round that has read a token leaves the cursor behind it. -/
theorem OcrCursorAdvances.of_everyLocTokenParses
    {text : List Char} (h : EveryLocTokenParses text) :
    OcrCursorAdvances text imageSize := by
  intro rounds items cursor run items' cursor' hcollecting hsearching
  have hsplits := parseOcrRegions_splits imageSize text rounds
  rw [parseOcrRegions_succ, hcollecting] at hsearching
  rw [hcollecting] at hsplits
  rcases ocrStep_cases imageSize hsplits with
    ⟨_, _, _, _, hstate, _⟩ | ⟨_, _, _, _, _, hstate, _⟩ |
    ⟨_, _, _, _, _, _, _, _, _, _, _, hstep⟩ |
    ⟨_, front, skipped, taken, rest, _, hstate, hrun, hparse, -, hstep⟩ | ⟨_, hstate, _⟩
  · cases hstate
  · cases hstate
  · rw [hstep] at hsearching
    cases hsearching
  · cases hstate
    rw [hstep] at hsearching
    cases hsearching
    have htaken : taken ≠ [] := by
      -- otherwise the round began at an occurrence without a token
      rintro rfl
      obtain ⟨behind, hbehind⟩ := hrun.opened
      obtain ⟨token, htoken⟩ := h (front ++ skipped) behind (by
        rw [hrun.text_eq, hbehind]
        simp)
      have hcursor := hrun.locCursor_eq
      rw [List.append_nil] at hcursor
      rw [hcursor, htoken] at hparse
      cases hparse
    have hpos := byteLength_pos htaken
    rw [hrun.locCursor_eq]
    simp only [byteLength_append]
    omega
  · cases hstate

/-- The bytes behind the cursors; a round counts after the token it reads. -/
def OcrState.rank (text : List Char) : OcrState → Nat × Nat × Nat
  | .searching _ cursor => (byteLength text - cursor, 1, 0)
  | .collecting _ cursor run => (byteLength text - cursor, 0, byteLength text - run.locCursor)
  | .returned _ => (0, 0, 0)
  | .panicked => (0, 0, 0)

/-- If every round moves the cursor forward, there are finitely many rounds. -/
theorem OcrCursorAdvances.terminates
    {text : List Char} (h : OcrCursorAdvances text imageSize) :
    OcrLoopTerminates text imageSize := by
  have hwf : WellFounded (Prod.Lex (· < ·) (Prod.Lex (· < ·) (· < ·)) :
      Nat × Nat × Nat → Nat × Nat × Nat → Prop) :=
    WellFounded.prod_lex wellFounded_lt (WellFounded.prod_lex wellFounded_lt wellFounded_lt)
  refine Runs.exists_iterate_of_rank hwf (ocrStep text imageSize) OcrState.start
    (fun s => ∃ items, s = .returned items) (OcrState.rank text) ?_
  intro rounds hrunning
  change Prod.Lex _ _ (OcrState.rank text (parseOcrRegions text imageSize (rounds + 1)))
    (OcrState.rank text (parseOcrRegions text imageSize rounds))
  change ¬ ∃ items, parseOcrRegions text imageSize rounds = .returned items at hrunning
  have hadvances := h rounds
  have hsplits := parseOcrRegions_splits imageSize text rounds
  rw [parseOcrRegions_succ] at hadvances ⊢
  rcases ocrStep_cases imageSize hsplits with
    ⟨items, front, rest, -, hstate, -, hstep⟩ |
    ⟨items, front, skipped, later, -, hstate, -, hstep⟩ |
    ⟨items, front, skipped, taken, token, loc, after, run, hstate, hrun, htoken, hstep⟩ |
    ⟨items, front, skipped, taken, rest, run, hstate, hrun, -, -, hstep⟩ |
    ⟨items, hstate, -⟩
  · rw [hstep, hstate]
    rcases Nat.eq_zero_or_pos (byteLength text - byteLength front) with hzero | hpos
    · simp only [OcrState.rank, hzero]
      exact Prod.Lex.right _ (Prod.Lex.left _ _ Nat.zero_lt_one)
    · exact Prod.Lex.left _ _ hpos
  · rw [hstep, hstate]
    exact Prod.Lex.right _ (Prod.Lex.left _ _ Nat.zero_lt_one)
  · rw [hstep, hstate]
    have hpos := byteLength_pos htoken.ne_nil
    refine Prod.Lex.right _ (Prod.Lex.right _ ?_)
    rw [hrun.text_eq, hrun.locCursor_eq]
    simp only [byteLength_append]
    omega
  · have hforward := hadvances _ _ _ _ _ hstate hstep
    rw [hstep, hstate]
    refine Prod.Lex.left _ _ ?_
    have hlength := congrArg byteLength hrun.text_eq
    have hcursor := hrun.locCursor_eq
    simp only [byteLength_append] at hlength hcursor
    omega
  · exact absurd ⟨items, hstate⟩ hrunning

/-- The loops are still in front of an occurrence. -/
def OcrState.Before (text later : List Char) : OcrState → Prop
  | .searching _ cursor =>
      ∃ front rest, text = front ++ rest ∧ cursor = byteLength front ∧ later <:+ rest
  | .collecting _ _ run =>
      ∃ front rest, text = front ++ rest ∧ run.locCursor = byteLength front ∧ later <:+ rest
  | .returned _ => False
  | .panicked => False

/-- The loops do not get past an occurrence without a token. -/
theorem OcrState.Before.step
    {text later : List Char} {s : OcrState}
    (hlater : locPrefix <+: later)
    (hmalformed : ∀ token loc after, LocToken token loc → later ≠ token ++ after)
    (hs : s.Before text later) :
    (ocrStep text imageSize s).Before text later := by
  cases s with
  | searching items cursor =>
      obtain ⟨front, rest, rfl, rfl, hsuffix⟩ := hs
      obtain ⟨skipped, found, hsplit, hfound⟩ := splitFirst_of_occurrence later hsuffix hlater
      obtain ⟨rfl, -⟩ := splitFirst_some hsplit
      rw [ocrStep_searching_found imageSize front skipped found items hsplit]
      exact ⟨front ++ skipped, found, (List.append_assoc _ _ _).symm, rfl, hfound⟩
  | collecting items cursor run =>
      obtain ⟨front, rest, rfl, hcursor, hsuffix⟩ := hs
      rcases parseLocTokenAt_append front rest with
        ⟨token, loc, after, htoken, rfl, -⟩ | ⟨-, hparse⟩
      · rw [ocrStep_collecting_token imageSize htoken front after items cursor run hcursor]
        rcases htoken.suffix_cases hlater hsuffix with rfl | hbehind
        · exact absurd rfl (hmalformed token loc after htoken)
        · exact ⟨front ++ token, after, (List.append_assoc _ _ _).symm, rfl, hbehind⟩
      · rw [← hcursor] at hparse
        rw [ocrStep_collecting_stop imageSize hparse items cursor]
        exact ⟨front, rest, rfl, hcursor, hsuffix⟩
  | returned items =>
      exact hs.elim
  | panicked =>
      exact hs.elim

/-- At an occurrence without a token the loops do not end. -/
theorem not_ocrLoopTerminates_of_malformed
    {later : List Char} (front : List Char)
    (hlater : locPrefix <+: later)
    (hmalformed : ∀ token loc after, LocToken token loc → later ≠ token ++ after) :
    ¬ OcrLoopTerminates (front ++ later) imageSize := by
  rintro ⟨rounds, items, hreturned⟩
  have hbefore : ∀ n, (parseOcrRegions (front ++ later) imageSize n).Before
      (front ++ later) later := by
    intro n
    induction n with
    | zero =>
        exact ⟨[], front ++ later, rfl, rfl, List.suffix_append _ _⟩
    | succ n ih =>
        rw [parseOcrRegions_succ]
        exact ih.step imageSize hlater hmalformed
  have hhere := hbefore rounds
  rw [hreturned] at hhere
  exact hhere

theorem OcrLoopTerminates.everyLocTokenParses
    {text : List Char} (h : OcrLoopTerminates text imageSize) :
    EveryLocTokenParses text := by
  rintro front rest rfl
  rcases parseLocTokenAt_append front (locPrefix ++ rest) with
    ⟨token, loc, after, -, -, hparse⟩ | ⟨hmalformed, -⟩
  · exact ⟨_, hparse⟩
  · exact absurd h
      (not_ocrLoopTerminates_of_malformed imageSize front (List.prefix_append _ _) hmalformed)

/--
The loops of `parse_ocr_regions` end on a text exactly if every occurrence of
`<loc_` in it opens a token that can be parsed, and these are also the texts on
which every iteration of the outer loop moves its cursor strictly forward.
-/
theorem ocr_loop_terminates_iff
    (generatedText : List Char) (imageSize : Nat × Nat) :
    (OcrLoopTerminates generatedText imageSize ↔ EveryLocTokenParses generatedText) ∧
    (OcrCursorAdvances generatedText imageSize ↔ EveryLocTokenParses generatedText) := by
  have hadvances : EveryLocTokenParses generatedText →
      OcrCursorAdvances generatedText imageSize :=
    fun h => OcrCursorAdvances.of_everyLocTokenParses imageSize h
  refine ⟨⟨fun h => h.everyLocTokenParses imageSize, fun h => ?_⟩,
    ⟨fun h => ?_, hadvances⟩⟩
  · exact (hadvances h).terminates imageSize
  · exact (h.terminates imageSize).everyLocTokenParses imageSize

/-- On `total<loc_` the loops start again at the same cursor for ever. -/
theorem ocr_loop_hangs_on_open_token :
    ¬ OcrLoopTerminates "total<loc_".toList (768, 768) := by
  have htext : "total<loc_".toList = "total".toList ++ locPrefix := by decide
  rw [htext]
  refine not_ocrLoopTerminates_of_malformed (768, 768) "total".toList List.prefix_rfl ?_
  rintro token loc after ⟨digits, value, -, -, rfl, -⟩ heq
  have hlength := congrArg List.length heq
  simp [locPrefix] at hlength

end Termination

section Rendering

/-- A region before it is rendered: its text and its location numbers. -/
structure OcrRegion where
  text : List Char
  locs : List Nat
deriving DecidableEq, Repr

/-- A location number as the model writes it. -/
def renderLoc (loc : Nat) : List Char :=
  locPrefix ++ (Nat.toDigits 10 loc ++ ['>'])

def OcrRegion.render (region : OcrRegion) : List Char :=
  region.text ++ region.locs.flatMap renderLoc

/-- The regions one after the other, and a trailing text. -/
def renderRegions (regions : List OcrRegion) (trailing : List Char) : List Char :=
  regions.flatMap OcrRegion.render ++ trailing

/-- A region that the text it is rendered to determines. -/
structure OcrRegion.Renderable (region : OcrRegion) : Prop where
  text_ne_nil : region.text ≠ []
  text_trimmed : trimChars region.text = region.text
  text_plain : ¬ locPrefix <:+: region.text
  locs_length : 4 ≤ region.locs.length
  locs_le : ∀ loc ∈ region.locs, loc ≤ maxLocationToken

/-- The item has the text, the tokens and the number of points of the region. -/
structure OcrRegion.ReadAs (region : OcrRegion) (item : OcrRegionItem) : Prop where
  text_eq : item.text = region.text
  locTokens_eq : item.locTokens = region.locs
  polygon_length : item.polygon.length = region.locs.length / 2

theorem parseDigits_eq_ofDigitChars
    (digits : List Char) (hdigits : ∀ c ∈ digits, c.isDigit = true) (value : Nat) :
    parseDigits digits value = some (Nat.ofDigitChars 10 digits value) := by
  induction digits generalizing value with
  | nil =>
      rfl
  | cons c digits ih =>
      rw [parseDigits, if_pos (hdigits c List.mem_cons_self), Nat.ofDigitChars_cons,
        ih (fun d hd => hdigits d (List.mem_cons_of_mem _ hd))]

theorem isDigit_of_mem_toDigits_ten {n : Nat} :
    ∀ c ∈ Nat.toDigits 10 n, c.isDigit = true :=
  fun _ hc => Nat.isDigit_of_mem_toDigits (by decide) (by decide) hc

/-- A rendered number in range is read back. -/
theorem parseU16_toDigits {n : Nat} (hn : n < 2 ^ 16) :
    parseU16 (Nat.toDigits 10 n) = some n := by
  have hplus : stripPlus (Nat.toDigits 10 n) = Nat.toDigits 10 n := by
    unfold stripPlus
    split
    · rename_i rest heq
      have hdigit := isDigit_of_mem_toDigits_ten '+' (heq ▸ List.mem_cons_self)
      exact absurd hdigit (by decide)
    · rfl
  have hempty : ¬ (Nat.toDigits 10 n).isEmpty = true := by
    rw [List.isEmpty_iff]
    exact Nat.toDigits_ne_nil
  rw [parseU16, hplus, if_neg hempty,
    parseDigits_eq_ofDigitChars _ isDigit_of_mem_toDigits_ten, Nat.ofDigitChars_ten_toDigits]
  exact if_pos (decide_eq_true hn)

theorem LocToken.renderLoc {loc : Nat} (hloc : loc ≤ maxLocationToken) :
    LocToken (renderLoc loc) loc := by
  have hrange : maxLocationToken = 999 := rfl
  refine ⟨Nat.toDigits 10 loc, loc, ?_, parseU16_toDigits (by omega), rfl,
    (Nat.min_eq_left hloc).symm⟩
  intro hmem
  exact absurd (isDigit_of_mem_toDigits_ten '>' hmem) (by decide)

variable (imageSize : Nat × Nat)

/-- Four numbers or more make an item. -/
theorem ocrRegionItem_readAs
    (region : OcrRegion) (hlength : 4 ≤ region.locs.length) :
    ∃ item, ocrRegionItem region.text region.locs imageSize = some item ∧
      region.ReadAs item := by
  have hpoints := chunksExact2_length region.locs
  unfold ocrRegionItem
  match hchunks : chunksExact2 region.locs with
  | [] =>
      rw [hchunks, List.length_nil] at hpoints
      omega
  | [pair] =>
      rw [hchunks, List.length_singleton] at hpoints
      omega
  | first :: second :: others =>
      refine ⟨_, rfl, rfl, rfl, ?_⟩
      rw [← hpoints, hchunks]
      simp

/-- The inner loop reads a run of rendered tokens. -/
theorem ocrStep_collect
    (locs : List Nat) (hlocs : ∀ loc ∈ locs, loc ≤ maxLocationToken)
    (front after : List Char) (items : List OcrRegionItem) (cursor : Nat) (run : LocRun)
    (hcursor : run.locCursor = byteLength front) :
    (ocrStep (front ++ (locs.flatMap renderLoc ++ after)) imageSize)^[locs.length]
        (.collecting items cursor run) =
      .collecting items cursor
        { run with
          locTokens := run.locTokens ++ locs
          locCursor := byteLength (front ++ locs.flatMap renderLoc) } := by
  induction locs generalizing front run with
  | nil =>
      cases run
      simpa using hcursor
  | cons loc locs ih =>
      have htoken := LocToken.renderLoc (hlocs loc List.mem_cons_self)
      have htail := ih (fun other hother => hlocs other (List.mem_cons_of_mem _ hother))
        (front ++ renderLoc loc)
        { run with
          locTokens := run.locTokens ++ [loc]
          locCursor := byteLength (front ++ renderLoc loc) } rfl
      simp only [List.append_assoc, List.singleton_append] at htail
      rw [List.flatMap_cons, List.append_assoc, List.length_cons, Function.iterate_succ_apply,
        ocrStep_collecting_token imageSize htoken front _ items cursor run hcursor, htail]

theorem splitFirst_locPrefix
    {text : List Char} (htext : ¬ locPrefix <:+: text) (rest : List Char) :
    splitFirst locPrefix (text ++ (locPrefix ++ rest)) = some (text, locPrefix ++ rest) :=
  splitFirst_append (by decide) htext rest

theorem parseLocTokenAt_of_not_open
    {rest : List Char} (hrest : ¬ locPrefix <+: rest) (front : List Char) :
    parseLocTokenAt (front ++ rest) (byteLength front) = .ok none := by
  rcases parseLocTokenAt_append front rest with
    ⟨token, loc, after, htoken, rfl, -⟩ | ⟨-, hparse⟩
  · exact absurd (htoken.opens_append after) hrest
  · exact hparse

/-- The tokens of a region open with the text the outer loop searches for. -/
theorem OcrRegion.Renderable.tokens_open
    {region : OcrRegion} (hregion : region.Renderable) (after : List Char) :
    ∃ behind, region.locs.flatMap renderLoc ++ after = locPrefix ++ behind := by
  have hlength := hregion.locs_length
  cases hlocs : region.locs with
  | nil =>
      rw [hlocs, List.length_nil] at hlength
      omega
  | cons loc locs =>
      refine ⟨Nat.toDigits 10 loc ++ ['>'] ++ locs.flatMap renderLoc ++ after, ?_⟩
      simp [renderLoc]

/-- A rendered region in front of something that opens no token. -/
theorem ocrStep_region
    {region : OcrRegion} (hregion : region.Renderable)
    (front after : List Char) (hafter : ¬ locPrefix <+: after)
    (items : List OcrRegionItem) :
    ∃ rounds item, region.ReadAs item ∧
      (ocrStep (front ++ (region.render ++ after)) imageSize)^[rounds]
          (.searching items (byteLength front)) =
        .searching (items ++ [item]) (byteLength (front ++ region.render)) := by
  obtain ⟨item, hitem, hread⟩ := ocrRegionItem_readAs imageSize region hregion.locs_length
  obtain ⟨behind, hbehind⟩ := hregion.tokens_open after
  have hsplit := splitFirst_locPrefix hregion.text_plain behind
  rw [← hbehind] at hsplit
  have hsearch := ocrStep_searching_found imageSize front region.text
    (region.locs.flatMap renderLoc ++ after) items hsplit
  rw [hregion.text_trimmed] at hsearch
  have hcollect := ocrStep_collect imageSize region.locs hregion.locs_le
    (front ++ region.text) after items (byteLength front)
    { text := region.text
      locStart := byteLength (front ++ region.text)
      locTokens := []
      locCursor := byteLength (front ++ region.text) } rfl
  have hparse := parseLocTokenAt_of_not_open hafter (front ++ region.render)
  have hne : region.locs.isEmpty = false := by
    have hlength := hregion.locs_length
    rw [List.isEmpty_eq_false_iff, ← List.length_pos_iff]
    omega
  refine ⟨(region.locs.length + 1) + 1, item, hread, ?_⟩
  simp only [OcrRegion.render, List.append_assoc, List.nil_append] at hsearch hcollect hparse ⊢
  rw [Function.iterate_succ_apply, hsearch, Function.iterate_succ_apply', hcollect,
    ocrStep_collecting_stop imageSize hparse items]
  simp [pushRegion, hne, hitem]

/-- A rendered region does not open with a token. -/
theorem OcrRegion.Renderable.not_open
    {region : OcrRegion} (hregion : region.Renderable) (after : List Char) :
    ¬ locPrefix <+: region.render ++ after := by
  intro hopens
  obtain ⟨behind, hbehind⟩ := hregion.tokens_open after
  have hsplit := splitFirst_locPrefix hregion.text_plain behind
  rw [← hbehind, ← List.append_assoc] at hsplit
  change splitFirst locPrefix (region.render ++ after) = _ at hsplit
  cases htext : region.render ++ after with
  | nil =>
      have hrender := (List.append_eq_nil_iff.mp htext).1
      exact hregion.text_ne_nil (List.append_eq_nil_iff.mp hrender).1
  | cons c rest =>
      rw [htext] at hsplit hopens
      rw [splitFirst, if_pos (List.isPrefixOf_iff_prefix.mpr hopens)] at hsplit
      have hparts := Option.some.inj hsplit
      exact hregion.text_ne_nil (congrArg Prod.fst hparts).symm

theorem renderRegions_not_open
    (regions : List OcrRegion) (hregions : ∀ region ∈ regions, region.Renderable)
    (trailing : List Char) (htrailing : ¬ locPrefix <:+: trailing) :
    ¬ locPrefix <+: renderRegions regions trailing := by
  cases regions with
  | nil =>
      exact fun hopens => htrailing hopens.isInfix
  | cons region regions =>
      have hregion := hregions region List.mem_cons_self
      unfold renderRegions
      rw [List.flatMap_cons, List.append_assoc]
      exact hregion.not_open _

/-- The loops read the rendered regions one after the other. -/
theorem ocrStep_regions
    (regions : List OcrRegion) (hregions : ∀ region ∈ regions, region.Renderable)
    (trailing : List Char) (htrailing : ¬ locPrefix <:+: trailing)
    (front : List Char) (items : List OcrRegionItem) :
    ∃ rounds found, List.Forall₂ OcrRegion.ReadAs regions found ∧
      (ocrStep (front ++ renderRegions regions trailing) imageSize)^[rounds]
          (.searching items (byteLength front)) =
        .returned (items ++ found) := by
  induction regions generalizing front items with
  | nil =>
      refine ⟨1, [], List.Forall₂.nil, ?_⟩
      rw [List.append_nil]
      exact ocrStep_searching_absent imageSize front trailing items htrailing
  | cons region regions ih =>
      have hregion := hregions region List.mem_cons_self
      have hrest : ∀ other ∈ regions, other.Renderable :=
        fun other hother => hregions other (List.mem_cons_of_mem _ hother)
      have hafter := renderRegions_not_open regions hrest trailing htrailing
      obtain ⟨rounds, item, hread, hfirst⟩ := ocrStep_region imageSize hregion front
        (renderRegions regions trailing) hafter items
      obtain ⟨rounds', found, hfound, hothers⟩ := ih hrest (front ++ region.render)
        (items ++ [item])
      have htext : front ++ renderRegions (region :: regions) trailing =
          front ++ (region.render ++ renderRegions regions trailing) := by
        simp [renderRegions]
      refine ⟨rounds' + rounds, item :: found, List.Forall₂.cons hread hfound, ?_⟩
      rw [List.append_assoc] at hothers
      rw [htext, Function.iterate_add_apply, hfirst, hothers]
      simp

theorem ocrStep_returned (text : List Char) (items : List OcrRegionItem) (rounds : Nat) :
    (ocrStep text imageSize)^[rounds] (.returned items) = .returned items :=
  Function.iterate_fixed rfl rounds

/--
Rendered regions are read back: one item for each region, in order, with its
text, its location numbers and a polygon of half as many points.
-/
theorem ocr_regions_of_rendered
    (regions : List OcrRegion) (trailing : List Char) (imageSize : Nat × Nat)
    (hregions : ∀ region ∈ regions, region.Renderable)
    (htrailing : ¬ locPrefix <:+: trailing) :
    ∃ rounds items, List.Forall₂ OcrRegion.ReadAs regions items ∧
      ∀ later, rounds ≤ later →
        parseOcrRegions (renderRegions regions trailing) imageSize later = .returned items := by
  obtain ⟨rounds, items, hread, hreturned⟩ :=
    ocrStep_regions imageSize regions hregions trailing htrailing [] []
  refine ⟨rounds, items, hread, ?_⟩
  intro later hlater
  obtain ⟨more, rfl⟩ := Nat.exists_eq_add_of_le' hlater
  unfold parseOcrRegions
  rw [Function.iterate_add_apply]
  exact (congrArg _ hreturned).trans (ocrStep_returned imageSize _ items more)

/-- Two regions whose texts end in the first characters of a token. -/
theorem ocr_regions_of_rendered_sample :
    ∃ rounds items,
      List.Forall₂ OcrRegion.ReadAs
        [⟨"é <loc".toList, [0, 999, 5, 7, 8]⟩, ⟨"5>".toList, [1, 2, 3, 4]⟩] items ∧
      ∀ later, rounds ≤ later →
        parseOcrRegions
          (renderRegions [⟨"é <loc".toList, [0, 999, 5, 7, 8]⟩, ⟨"5>".toList, [1, 2, 3, 4]⟩]
            " <loc".toList) (640, 480) later = .returned items := by
  refine ocr_regions_of_rendered _ _ _ ?_ (by decide)
  intro region hregion
  simp only [List.mem_cons, List.not_mem_nil, or_false] at hregion
  rcases hregion with rfl | rfl
  · exact ⟨by decide, by decide, by decide, by decide, by decide⟩
  · exact ⟨by decide, by decide, by decide, by decide, by decide⟩

end Rendering

end FlorenceServer
