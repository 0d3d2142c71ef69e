import FlorenceServer.Lib.TokenRemoval
import FlorenceServer.Lib.Trimming
import FlorenceServer.Types.TaskSpec

/-!
# Cleaning generated text

`clean_generated_text` of `inference/postprocess.rs` removes three special tokens,
one after the other, and trims.  Each token is looked for once.  What stands
between two characters of a token may be removed by its own pass or by a later
one, and then the token comes together behind the search for it.
-/

namespace FlorenceServer

/-- `<s>`. -/
def startToken : List Char := ['<', 's', '>']

/-- `</s>`. -/
def endToken : List Char := ['<', '/', 's', '>']

/-- `<pad>`. -/
def padToken : List Char := ['<', 'p', 'a', 'd', '>']

/-- `clean_generated_text`. -/
def cleanGeneratedText (raw : List Char) : List Char :=
  trimChars (removeToken padToken (removeToken endToken (removeToken startToken raw)))

/-- The tokens, the one that is removed last in front. -/
def specialTokens : List (List Char) :=
  [padToken, endToken, startToken]

/-- The text has no special token and no white space at its ends, and is not
changed by another cleaning. -/
structure CleanText (text : List Char) : Prop where
  no_token : ∀ token ∈ specialTokens, ¬ token <:+: text
  trimmed : Trimmed isWhitespace text
  stable : cleanGeneratedText text = text

/-- Some special token is spliced apart by text that its own pass or a later one removes. -/
def HasSplicedToken (raw : List Char) : Prop :=
  ∃ later token earlier,
    later ++ token :: earlier = specialTokens ∧ Spliced later token earlier raw

theorem bracketed_specialTokens :
    ∀ token ∈ specialTokens, Bracketed '<' '>' token := by
  intro token hmem
  simp only [specialTokens, List.mem_cons, List.not_mem_nil, or_false] at hmem
  rcases hmem with rfl | rfl | rfl
  · exact ⟨⟨['p', 'a', 'd', '>'], rfl, by decide⟩, ⟨['<', 'p', 'a', 'd'], rfl, by decide⟩⟩
  · exact ⟨⟨['/', 's', '>'], rfl, by decide⟩, ⟨['<', '/', 's'], rfl, by decide⟩⟩
  · exact ⟨⟨['s', '>'], rfl, by decide⟩, ⟨['<', 's'], rfl, by decide⟩⟩

theorem visible_specialTokens :
    ∀ token ∈ specialTokens, ∀ c ∈ token, isWhitespace c = false := by
  intro token hmem c hc
  have hall : specialTokens.all (fun token => token.all (fun c => !isWhitespace c)) = true := by
    decide
  have htoken := List.all_eq_true.mp hall token hmem
  have hvisible := List.all_eq_true.mp htoken c hc
  rwa [Bool.not_eq_eq_eq_not, Bool.not_true] at hvisible

theorem cleanGeneratedText_eq
    (raw : List Char) :
    cleanGeneratedText raw = trimBlank isWhitespace (removeTokens specialTokens raw) :=
  rfl

/-- What is left of a token is left by the passes. -/
theorem infix_cleanGeneratedText_iff
    {token : List Char}
    (htoken : token ∈ specialTokens)
    (raw : List Char) :
    token <:+: cleanGeneratedText raw ↔ token <:+: removeTokens specialTokens raw := by
  rw [cleanGeneratedText_eq]
  exact infix_trimBlank_iff (bracketed_specialTokens token htoken).ne_nil
    (visible_specialTokens token htoken)

/-- A result without tokens is clean in every respect. -/
theorem cleanText_of_no_token
    {raw : List Char}
    (hnone : ∀ token ∈ specialTokens, ¬ token <:+: cleanGeneratedText raw) :
    CleanText (cleanGeneratedText raw) := by
  have htrimmed : Trimmed isWhitespace (cleanGeneratedText raw) :=
    trimmed_trimBlank isWhitespace _
  refine ⟨hnone, htrimmed, ?_⟩
  rw [cleanGeneratedText_eq (cleanGeneratedText raw),
    removeTokens_of_not_infix bracketed_specialTokens _ hnone]
  exact trimBlank_of_trimmed htrimmed

/--
Cleaning leaves a clean text exactly when no special token of the raw text is
spliced apart by text that its own pass or a later one removes.
-/
theorem cleanGeneratedText_clean_iff (raw : List Char) :
    CleanText (cleanGeneratedText raw) ↔ ¬ HasSplicedToken raw := by
  have hleft : ∀ later token earlier, later ++ token :: earlier = specialTokens →
      (token <:+: cleanGeneratedText raw ↔ Spliced later token earlier raw) := by
    intro later token earlier hsplit
    have htoken : token ∈ specialTokens := by
      rw [← hsplit]
      exact List.mem_append_right _ List.mem_cons_self
    rw [infix_cleanGeneratedText_iff htoken, ← hsplit]
    have hbracketed : ∀ other ∈ later ++ token :: earlier, Bracketed '<' '>' other := by
      rw [hsplit]
      exact bracketed_specialTokens
    refine infix_removeTokens_iff hbracketed ?_ raw
    · rw [hsplit]
      decide
  constructor
  · rintro hclean ⟨later, token, earlier, hsplit, hspliced⟩
    refine hclean.no_token token ?_ ((hleft later token earlier hsplit).mpr hspliced)
    rw [← hsplit]
    exact List.mem_append_right _ List.mem_cons_self
  · intro hnone
    refine cleanText_of_no_token fun token hmem hinfix => ?_
    obtain ⟨later, earlier, hsplit⟩ := List.append_of_mem hmem
    exact hnone ⟨later, token, earlier, hsplit.symm,
      (hleft later token earlier hsplit.symm).mp hinfix⟩

/-- The inner token is removed and leaves one of the outer characters. -/
theorem cleanGeneratedText_leaves_start :
    cleanGeneratedText ['<', '<', 's', '>', 's', '>'] = startToken ∧
      ¬ CleanText (cleanGeneratedText ['<', '<', 's', '>', 's', '>']) := by
  have hleft : cleanGeneratedText ['<', '<', 's', '>', 's', '>'] = startToken := by
    decide
  refine ⟨hleft, fun hclean => ?_⟩
  rw [hleft] at hclean
  exact hclean.no_token startToken (by decide) List.infix_rfl

end FlorenceServer
