import Mathlib.Data.List.Infix
import Mathlib.Tactic.Common

/-!
# Removing tokens from a text

One pass removes the occurrences of a token from left to right, and several
passes follow each other.  The tokens are bracketed: the character that opens a
token occurs at its front only, the one that closes it at its end only.  So no
occurrence reaches into a part of the text that begins with an opening or ends
with a closing character, and such parts can be cleaned on their own.

Removing what stands between the characters of a token brings the token together.
A token is left over exactly where its characters are kept apart by text that the
passes remove, and not all of it before the token's own pass.
-/

namespace FlorenceServer

universe u

variable {α : Type u}

section Removal

variable [DecidableEq α]

/-- One pass, with so many characters of an occurrence still to be skipped. -/
def removeFrom (token : List α) : Nat → List α → List α
  | _, [] => []
  | skip + 1, _ :: rest => removeFrom token skip rest
  | 0, a :: rest =>
      if token.isPrefixOf (a :: rest) then removeFrom token (token.length - 1) rest
      else a :: removeFrom token 0 rest

/-- `text.replace(token, "")`. -/
def removeToken (token text : List α) : List α :=
  removeFrom token 0 text

/-- The passes over a text, the latest one first. -/
def removeTokens : List (List α) → List α → List α
  | [], text => text
  | token :: earlier, text => removeToken token (removeTokens earlier text)

theorem removeFrom_eq_drop
    (token : List α)
    (skip : Nat)
    (text : List α) :
    removeFrom token skip text = removeToken token (text.drop skip) := by
  induction text generalizing skip with
  | nil =>
      rw [List.drop_nil]
      cases skip <;> rfl
  | cons a rest ih =>
      cases skip with
      | zero =>
          rfl
      | succ skip =>
          exact ih skip

@[simp] theorem removeToken_nil (token : List α) :
    removeToken token [] = [] :=
  rfl

variable {token : List α}

theorem removeToken_token_append
    (hne : token ≠ [])
    (rest : List α) :
    removeToken token (token ++ rest) = removeToken token rest := by
  obtain ⟨a, tail, rfl⟩ := List.exists_cons_of_ne_nil hne
  rw [List.cons_append, removeToken, removeFrom, if_pos (by simp), removeFrom_eq_drop]
  simp

theorem removeToken_cons
    {a : α}
    {rest : List α}
    (hnot : ¬ token <+: a :: rest) :
    removeToken token (a :: rest) = a :: removeToken token rest := by
  rw [removeToken, removeFrom, if_neg (by simpa using hnot)]
  rfl

/-- A text is empty, starts with the token, or starts with another character. -/
theorem tokenInduction
    (hne : token ≠ [])
    {motive : List α → Prop}
    (nil : motive [])
    (occurrence : ∀ rest, motive rest → motive (token ++ rest))
    (character : ∀ a rest, ¬ token <+: a :: rest → motive rest → motive (a :: rest))
    (text : List α) :
    motive text := by
  induction hlength : text.length using Nat.strong_induction_on generalizing text with
  | _ length ih =>
      cases text with
      | nil =>
          exact nil
      | cons a rest =>
          by_cases hstarts : token <+: a :: rest
          · obtain ⟨behind, hbehind⟩ := hstarts
            have hpos : 0 < token.length := List.length_pos_of_ne_nil hne
            have hsum := congrArg List.length hbehind
            rw [List.length_append] at hsum
            rw [← hbehind]
            exact occurrence behind (ih behind.length (by omega) behind rfl)
          · refine character a rest hstarts (ih rest.length ?_ rest rfl)
            rw [← hlength, List.length_cons]
            exact Nat.lt_succ_self _

/-- A text without the token stays as it is. -/
theorem removeToken_of_not_infix
    (hne : token ≠ [])
    (text : List α)
    (hnot : ¬ token <:+: text) :
    removeToken token text = text := by
  induction text using tokenInduction hne with
  | nil =>
      rfl
  | occurrence rest ih =>
      exact absurd (List.prefix_append token rest).isInfix hnot
  | character a rest hstarts ih =>
      rw [removeToken_cons hstarts, ih fun hinside => hnot (List.infix_cons hinside)]

/-- The output of a pass can be split where the text can. -/
theorem removeToken_eq_append
    (hne : token ≠ [])
    (text : List α)
    {front back : List α}
    (htext : removeToken token text = front ++ back) :
    ∃ left right, text = left ++ right ∧
      removeToken token left = front ∧ removeToken token right = back := by
  induction text using tokenInduction hne generalizing front with
  | nil =>
      obtain ⟨rfl, rfl⟩ := List.append_eq_nil_iff.mp htext.symm
      exact ⟨[], [], rfl, rfl, rfl⟩
  | occurrence rest ih =>
      rw [removeToken_token_append hne] at htext
      obtain ⟨left, right, rfl, hleft, hright⟩ := ih htext
      refine ⟨token ++ left, right, (List.append_assoc _ _ _).symm, ?_, hright⟩
      rw [removeToken_token_append hne, hleft]
  | character a rest hstarts ih =>
      cases front with
      | nil =>
          exact ⟨[], a :: rest, rfl, rfl, htext⟩
      | cons b front =>
          rw [removeToken_cons hstarts, List.cons_append] at htext
          obtain ⟨rfl, hrest⟩ := List.cons.inj htext
          obtain ⟨left, right, rfl, hleft, hright⟩ := ih hrest
          refine ⟨a :: left, right, rfl, ?_, hright⟩
          rw [removeToken_cons ?_, hleft]
          exact fun hshort => hstarts (hshort.trans (List.prefix_append (a :: left) right))

/-- What is removed around a single character that is left. -/
theorem removeToken_eq_singleton
    (hne : token ≠ [])
    (text : List α)
    {c : α}
    (htext : removeToken token text = [c]) :
    ∃ before after, text = before ++ c :: after ∧
      removeToken token before = [] ∧ removeToken token after = [] := by
  induction text using tokenInduction hne with
  | nil =>
      cases htext
  | occurrence rest ih =>
      rw [removeToken_token_append hne] at htext
      obtain ⟨before, after, rfl, hbefore, hafter⟩ := ih htext
      refine ⟨token ++ before, after, (List.append_assoc _ _ _).symm, ?_, hafter⟩
      rw [removeToken_token_append hne, hbefore]
  | character a rest hstarts ih =>
      rw [removeToken_cons hstarts] at htext
      obtain ⟨rfl, hrest⟩ := List.cons.inj htext
      exact ⟨[], rest, rfl, rfl, hrest⟩

/-- A pass that leaves nothing removed copies of the token. -/
theorem removeToken_eq_nil
    (hne : token ≠ [])
    (text : List α)
    (htext : removeToken token text = []) :
    ∃ copies, text = (List.replicate copies token).flatten := by
  induction text using tokenInduction hne with
  | nil =>
      exact ⟨0, rfl⟩
  | occurrence rest ih =>
      rw [removeToken_token_append hne] at htext
      obtain ⟨copies, rfl⟩ := ih htext
      exact ⟨copies + 1, rfl⟩
  | character a rest hstarts ih =>
      rw [removeToken_cons hstarts] at htext
      cases htext

end Removal

section Brackets

variable (opening closing : α)

/-- `opening` stands at the front of the token only, `closing` at its end only. -/
structure Bracketed (token : List α) : Prop where
  front : ∃ rest, token = opening :: rest ∧ opening ∉ rest
  back : ∃ init, token = init ++ [closing] ∧ closing ∉ init

/-- The text is empty or begins with an opening character. -/
def Opens (text : List α) : Prop :=
  ∀ a ∈ text.head?, a = opening

/-- The text is empty or ends with a closing character. -/
def Closes (text : List α) : Prop :=
  ∀ a ∈ text.getLast?, a = closing

variable {opening closing} {token : List α}

theorem opens_nil : Opens opening ([] : List α) :=
  fun _ h => by cases h

theorem closes_nil : Closes closing ([] : List α) :=
  fun _ h => by cases h

theorem Bracketed.ne_nil
    (htoken : Bracketed opening closing token) :
    token ≠ [] := by
  obtain ⟨rest, rfl, -⟩ := htoken.front
  exact List.cons_ne_nil _ _

theorem Bracketed.opens
    (htoken : Bracketed opening closing token) :
    Opens opening token := by
  obtain ⟨rest, rfl, -⟩ := htoken.front
  intro a ha
  cases ha
  rfl

theorem Bracketed.closes
    (htoken : Bracketed opening closing token) :
    Closes closing token := by
  obtain ⟨init, rfl, -⟩ := htoken.back
  intro a ha
  rw [List.getLast?_append, List.getLast?_singleton, Option.some_or] at ha
  cases ha
  rfl

/-- Behind its front a token does not open again. -/
theorem Bracketed.not_mem_behind
    (htoken : Bracketed opening closing token)
    {left right : List α}
    (hsplit : token = left ++ right)
    (hleft : left ≠ []) :
    opening ∉ right := by
  obtain ⟨rest, hrest, hnot⟩ := htoken.front
  obtain ⟨a, left, rfl⟩ := List.exists_cons_of_ne_nil hleft
  rw [hrest, List.cons_append] at hsplit
  obtain ⟨-, rfl⟩ := List.cons.inj hsplit
  exact fun hmem => hnot (List.mem_append_right _ hmem)

/-- Before its end a token does not close. -/
theorem Bracketed.not_mem_before
    (htoken : Bracketed opening closing token)
    {left right : List α}
    (hsplit : token = left ++ right)
    (hright : right ≠ []) :
    closing ∉ left := by
  obtain ⟨init, hinit, hnot⟩ := htoken.back
  obtain ⟨right, a, rfl⟩ := List.eq_nil_or_concat right |>.resolve_left hright
  rw [List.concat_eq_append, ← List.append_assoc] at hsplit
  rw [hinit] at hsplit
  obtain ⟨rfl, -⟩ := List.append_inj' hsplit rfl
  exact fun hmem => hnot (List.mem_append_left _ hmem)

/-- A token that occurs in another one is the other one. -/
theorem Bracketed.eq_of_infix
    {other : List α}
    (htoken : Bracketed opening closing token)
    (hother : Bracketed opening closing other)
    (hinside : token <:+: other) :
    token = other := by
  obtain ⟨left, right, hsplit⟩ := hinside
  have hopening : opening ∈ token := by
    obtain ⟨rest, rfl, -⟩ := htoken.front
    exact List.mem_cons_self
  have hclosing : closing ∈ token := by
    obtain ⟨init, rfl, -⟩ := htoken.back
    exact List.mem_append_right _ (List.mem_singleton.mpr rfl)
  have hleft : left = [] := by
    by_contra hne
    exact hother.not_mem_behind (by rw [← hsplit, List.append_assoc]) hne
      (List.mem_append_left _ hopening)
  have hright : right = [] := by
    by_contra hne
    exact hother.not_mem_before hsplit.symm hne (List.mem_append_right _ hclosing)
  rw [← hsplit, hleft, hright, List.append_nil, List.nil_append]

/-- No occurrence crosses into a part that opens, or out of one that closes. -/
theorem Bracketed.prefix_of_prefix_append
    (htoken : Bracketed opening closing token)
    {left right : List α}
    (hedge : Opens opening right ∨ Closes closing left)
    (hleft : left ≠ [])
    (hstarts : token <+: left ++ right) :
    token <+: left := by
  rcases List.prefix_or_prefix_of_prefix hstarts (List.prefix_append left right) with
    hshort | ⟨tail, htail⟩
  · exact hshort
  · by_cases hnil : tail = []
    · rw [← htail, hnil, List.append_nil]
    · exfalso
      rcases hedge with hopens | hcloses
      · -- the rest of the occurrence begins with an opening character
        obtain ⟨b, rest, rfl⟩ := List.exists_cons_of_ne_nil hnil
        rw [← htail] at hstarts
        obtain ⟨behind, hbehind⟩ := (List.prefix_append_right_inj left).mp hstarts
        have hb : b = opening := by
          refine hopens b ?_
          rw [← hbehind]
          rfl
        refine htoken.not_mem_behind htail.symm hleft ?_
        rw [hb]
        exact List.mem_cons_self
      · have hlast : left.getLast hleft = closing :=
          hcloses _ (List.getLast?_eq_some_getLast hleft)
        refine htoken.not_mem_before htail.symm hnil ?_
        rw [← hlast]
        exact List.getLast_mem hleft

variable [DecidableEq α]

/-- A text can be cleaned in two parts if the second opens or the first closes. -/
theorem Bracketed.removeToken_append
    (htoken : Bracketed opening closing token)
    (left right : List α)
    (hedge : Opens opening right ∨ Closes closing left) :
    removeToken token (left ++ right) =
      removeToken token left ++ removeToken token right := by
  induction left using tokenInduction htoken.ne_nil with
  | nil =>
      rfl
  | occurrence rest ih =>
      have hrest : Opens opening right ∨ Closes closing rest := by
        refine hedge.imp_right fun hcloses a ha => hcloses a ?_
        rw [List.getLast?_append, Option.mem_def.mp ha, Option.some_or]
        rfl
      rw [List.append_assoc, removeToken_token_append htoken.ne_nil,
        removeToken_token_append htoken.ne_nil, ih hrest]
  | character a rest hstarts ih =>
      have hrest : Opens opening right ∨ Closes closing rest := by
        refine hedge.imp_right fun hcloses b hb => hcloses b ?_
        rw [List.getLast?_cons, Option.mem_def.mp hb]
        rfl
      have hboth : ¬ token <+: a :: (rest ++ right) := by
        rw [← List.cons_append]
        exact fun hlong =>
          hstarts (htoken.prefix_of_prefix_append hedge (List.cons_ne_nil _ _) hlong)
      rw [List.cons_append, removeToken_cons hboth, removeToken_cons hstarts, ih hrest,
        List.cons_append]

/-- A pass does not make a text open. -/
theorem Bracketed.opens_of_removeToken
    (htoken : Bracketed opening closing token)
    {text : List α}
    (hopens : Opens opening (removeToken token text)) :
    Opens opening text := by
  cases text with
  | nil =>
      exact opens_nil
  | cons a rest =>
      intro b hb
      cases hb
      by_contra hne
      have hstarts : ¬ token <+: a :: rest := by
        rintro ⟨behind, hbehind⟩
        obtain ⟨tail, rfl, -⟩ := htoken.front
        rw [List.cons_append] at hbehind
        exact hne (List.cons.inj hbehind).1.symm
      rw [removeToken_cons hstarts] at hopens
      exact hne (hopens a rfl)

/-- A pass does not make a text close. -/
theorem Bracketed.closes_of_removeToken
    (htoken : Bracketed opening closing token)
    {text : List α}
    (hcloses : Closes closing (removeToken token text)) :
    Closes closing text := by
  induction text using tokenInduction htoken.ne_nil with
  | nil =>
      exact closes_nil
  | occurrence rest ih =>
      rw [removeToken_token_append htoken.ne_nil] at hcloses
      intro a ha
      rw [List.getLast?_append] at ha
      cases hlast : rest.getLast? with
      | none =>
          rw [hlast, Option.none_or] at ha
          exact htoken.closes a ha
      | some b =>
          rw [hlast, Option.some_or] at ha
          exact ih hcloses a (hlast.trans ha)
  | character b rest hstarts ih =>
      rw [removeToken_cons hstarts] at hcloses
      intro a ha
      by_cases hnil : rest = []
      · rw [hnil] at ha hcloses
        exact hcloses a ha
      · have hrest : Closes closing (removeToken token rest) := by
          intro c hc
          refine hcloses c ?_
          rw [List.getLast?_cons, Option.mem_def.mp hc]
          rfl
        rw [List.getLast?_cons_of_ne_nil hnil] at ha
        exact ih hrest a ha

end Brackets

section Passes

variable [DecidableEq α] {opening closing : α} {tokens : List (List α)}

/-- Parts of a text can be cleaned on their own where one of them stays apart. -/
theorem removeTokens_append
    (htokens : ∀ token ∈ tokens, Bracketed opening closing token)
    (left right : List α)
    (hedge :
      Opens opening (removeTokens tokens right) ∨
        Closes closing (removeTokens tokens left)) :
    removeTokens tokens (left ++ right) =
      removeTokens tokens left ++ removeTokens tokens right := by
  induction tokens with
  | nil =>
      rfl
  | cons token earlier ih =>
      have htoken := htokens token List.mem_cons_self
      have hbefore :
          Opens opening (removeTokens earlier right) ∨
            Closes closing (removeTokens earlier left) :=
        hedge.imp htoken.opens_of_removeToken htoken.closes_of_removeToken
      rw [removeTokens, ih (fun other hmem => htokens other (List.mem_cons_of_mem _ hmem))
        hbefore, htoken.removeToken_append _ _ hbefore]
      rfl

/-- Passes over a text without their tokens do nothing. -/
theorem removeTokens_of_not_infix
    (htokens : ∀ token ∈ tokens, Bracketed opening closing token)
    (text : List α)
    (hnone : ∀ token ∈ tokens, ¬ token <:+: text) :
    removeTokens tokens text = text := by
  induction tokens with
  | nil =>
      rfl
  | cons token earlier ih =>
      rw [removeTokens, ih (fun other hmem => htokens other (List.mem_cons_of_mem _ hmem))
        (fun other hmem => hnone other (List.mem_cons_of_mem _ hmem))]
      exact removeToken_of_not_infix (htokens token List.mem_cons_self).ne_nil _
        (hnone token List.mem_cons_self)

theorem removeTokens_append_of_erased_right
    (htokens : ∀ token ∈ tokens, Bracketed opening closing token)
    (left : List α)
    {right : List α}
    (hright : removeTokens tokens right = []) :
    removeTokens tokens (left ++ right) = removeTokens tokens left := by
  rw [removeTokens_append htokens left right (Or.inl (by rw [hright]; exact opens_nil)),
    hright, List.append_nil]

theorem removeTokens_append_of_erased_left
    (htokens : ∀ token ∈ tokens, Bracketed opening closing token)
    {left : List α}
    (right : List α)
    (hleft : removeTokens tokens left = []) :
    removeTokens tokens (left ++ right) = removeTokens tokens right := by
  rw [removeTokens_append htokens left right (Or.inr (by rw [hleft]; exact closes_nil)),
    hleft, List.nil_append]

/-- The output of the passes can be split where the text can. -/
theorem removeTokens_eq_append
    (htokens : ∀ token ∈ tokens, Bracketed opening closing token)
    {text front back : List α}
    (htext : removeTokens tokens text = front ++ back) :
    ∃ left right, text = left ++ right ∧
      removeTokens tokens left = front ∧ removeTokens tokens right = back := by
  induction tokens generalizing front back with
  | nil =>
      exact ⟨front, back, htext, rfl, rfl⟩
  | cons token earlier ih =>
      have hne := (htokens token List.mem_cons_self).ne_nil
      obtain ⟨leftImage, rightImage, himage, hfront, hback⟩ :=
        removeToken_eq_append hne _ htext
      obtain ⟨left, right, rfl, hleft, hright⟩ :=
        ih (fun other hmem => htokens other (List.mem_cons_of_mem _ hmem)) himage
      refine ⟨left, right, rfl, ?_, ?_⟩
      · rw [removeTokens, hleft, hfront]
      · rw [removeTokens, hright, hback]

/-- Around a single character that is left everything is removed. -/
theorem removeTokens_eq_singleton
    (htokens : ∀ token ∈ tokens, Bracketed opening closing token)
    {text : List α}
    {c : α}
    (htext : removeTokens tokens text = [c]) :
    ∃ before after, text = before ++ c :: after ∧
      removeTokens tokens before = [] ∧ removeTokens tokens after = [] := by
  induction tokens generalizing text with
  | nil =>
      exact ⟨[], [], htext, rfl, rfl⟩
  | cons token earlier ih =>
      have hne := (htokens token List.mem_cons_self).ne_nil
      have hearlier : ∀ other ∈ earlier, Bracketed opening closing other :=
        fun other hmem => htokens other (List.mem_cons_of_mem _ hmem)
      obtain ⟨beforeImage, afterImage, himage, hbeforeImage, hafterImage⟩ :=
        removeToken_eq_singleton hne _ htext
      obtain ⟨outerBefore, rest, rfl, houterBefore, hrest⟩ :=
        removeTokens_eq_append hearlier himage
      obtain ⟨middle, outerAfter, rfl, hmiddle, houterAfter⟩ :=
        removeTokens_eq_append hearlier
          (show removeTokens earlier rest = [c] ++ afterImage from hrest)
      obtain ⟨before, after, rfl, hbefore, hafter⟩ := ih hearlier hmiddle
      refine ⟨outerBefore ++ before, after ++ outerAfter, ?_, ?_, ?_⟩
      · simp only [List.append_assoc, List.cons_append]
      · rw [removeTokens, removeTokens_append_of_erased_right hearlier _ hbefore,
          houterBefore, hbeforeImage]
      · rw [removeTokens, removeTokens_append_of_erased_left hearlier _ hafter,
          houterAfter, hafterImage]

end Passes

section Weaving

/-- The characters of a word with a gap behind each of them but the last. -/
def weave : List α → List (List α) → List α
  | c :: word, gap :: gaps => c :: (gap ++ weave word gaps)
  | word, [] => word
  | [], _ :: _ => []

/-- One gap between any two neighbours of the word. -/
def Fits (word : List α) (gaps : List (List α)) : Prop :=
  gaps.length + 1 = word.length

theorem weave_nil_right (word : List α) :
    weave word [] = word := by
  cases word <;> rfl

theorem weave_of_empty_gaps
    {word : List α}
    {gaps : List (List α)}
    (hfits : Fits word gaps)
    (hempty : ∀ gap ∈ gaps, gap = []) :
    weave word gaps = word := by
  induction word generalizing gaps with
  | nil =>
      cases gaps <;> rfl
  | cons c word ih =>
      cases gaps with
      | nil =>
          rfl
      | cons gap gaps =>
          rw [weave, hempty gap List.mem_cons_self, List.nil_append,
            ih (Nat.succ.inj hfits) fun other hmem => hempty other (List.mem_cons_of_mem _ hmem)]

variable [DecidableEq α] {opening closing : α} {tokens : List (List α)}

/-- A word that is left was woven with gaps that are removed. -/
theorem exists_weave_of_removeTokens
    (htokens : ∀ token ∈ tokens, Bracketed opening closing token)
    {word text : List α}
    (hne : word ≠ [])
    (htext : removeTokens tokens text = word) :
    ∃ before gaps after,
      text = before ++ weave word gaps ++ after ∧ Fits word gaps ∧
        removeTokens tokens before = [] ∧ removeTokens tokens after = [] ∧
        ∀ gap ∈ gaps, removeTokens tokens gap = [] := by
  induction word generalizing text with
  | nil =>
      exact absurd rfl hne
  | cons c word ih =>
      by_cases hlast : word = []
      · rw [hlast] at htext
        obtain ⟨before, after, rfl, hbefore, hafter⟩ := removeTokens_eq_singleton htokens htext
        refine ⟨before, [], after, ?_, ?_, hbefore, hafter, fun _ h => by cases h⟩
        · rw [hlast, weave_nil_right, List.append_assoc, List.singleton_append]
        · rw [hlast]
          rfl
      · obtain ⟨left, right, rfl, hleft, hright⟩ :=
          removeTokens_eq_append htokens
            (show removeTokens tokens text = [c] ++ word from htext)
        obtain ⟨before, between, rfl, hbefore, hbetween⟩ :=
          removeTokens_eq_singleton htokens hleft
        obtain ⟨behind, gaps, after, rfl, hfits, hbehind, hafter, hgaps⟩ := ih hlast hright
        refine ⟨before, (between ++ behind) :: gaps, after, ?_, ?_, hbefore, hafter, ?_⟩
        · simp only [weave, List.append_assoc, List.cons_append]
        · exact congrArg Nat.succ hfits
        · intro gap hmem
          rcases List.mem_cons.mp hmem with rfl | hmem
          · rw [removeTokens_append_of_erased_right htokens _ hbehind, hbetween]
          · exact hgaps gap hmem

/-- A gap that neither lets an occurrence in nor out. -/
def Apart (opening closing : α) (gap : List α) : Prop :=
  Opens opening gap ∧ Closes closing gap

/-- At a filled gap a pass goes on afresh. -/
theorem Bracketed.removeToken_weave_cons
    {token : List α}
    (htoken : Bracketed opening closing token)
    (done word : List α)
    (c : α)
    {gap : List α}
    (gaps : List (List α))
    (hgap : Apart opening closing gap)
    (hfilled : gap ≠ []) :
    removeToken token (done ++ weave (c :: word) (gap :: gaps)) =
      removeToken token (done ++ [c]) ++
        (removeToken token gap ++ removeToken token (weave word gaps)) := by
  have hopens : Opens opening (gap ++ weave word gaps) := by
    intro a ha
    rw [List.head?_append_of_ne_nil _ hfilled] at ha
    exact hgap.1 a ha
  have hsplit :
      done ++ weave (c :: word) (gap :: gaps) =
        (done ++ [c]) ++ (gap ++ weave word gaps) := by
    rw [weave, List.append_assoc, List.singleton_append]
  rw [hsplit, htoken.removeToken_append _ _ (Or.inl hopens),
    htoken.removeToken_append _ _ (Or.inr hgap.2)]

/-- A pass over a word that does not contain the token cleans the gaps only. -/
theorem removeToken_weave_of_not_infix
    {token : List α}
    (htoken : Bracketed opening closing token)
    (done word : List α)
    {gaps : List (List α)}
    (hfits : Fits word gaps)
    (hapart : ∀ gap ∈ gaps, Apart opening closing gap)
    (hnot : ¬ token <:+: done ++ word) :
    removeToken token (done ++ weave word gaps) =
      done ++ weave word (gaps.map (removeToken token)) := by
  induction word generalizing done gaps with
  | nil =>
      cases hfits
  | cons c word ih =>
      cases gaps with
      | nil =>
          exact removeToken_of_not_infix htoken.ne_nil _ hnot
      | cons gap gaps =>
          have hrest : ∀ other ∈ gaps, Apart opening closing other :=
            fun other hmem => hapart other (List.mem_cons_of_mem _ hmem)
          have hnext : Fits word gaps := Nat.succ.inj hfits
          have hshift : done ++ c :: word = (done ++ [c]) ++ word := by
            rw [List.append_assoc, List.singleton_append]
          rw [hshift] at hnot
          by_cases hempty : gap = []
          · -- the word goes on without an interruption
            have hstep := ih (done ++ [c]) hnext hrest hnot
            rw [hempty, List.map_cons, weave, weave, removeToken_nil, List.nil_append,
              List.nil_append]
            simpa only [List.append_assoc, List.singleton_append] using hstep
          · have hfront : removeToken token (done ++ [c]) = done ++ [c] :=
              removeToken_of_not_infix htoken.ne_nil _ fun hinside =>
                hnot (hinside.trans (List.prefix_append _ _).isInfix)
            have hback := ih [] hnext hrest fun hinside =>
              hnot (hinside.trans (List.suffix_append _ _).isInfix)
            rw [List.nil_append, List.nil_append] at hback
            rw [htoken.removeToken_weave_cons done word c gaps
              (hapart gap List.mem_cons_self) hempty, hfront, hback, List.map_cons, weave,
              List.append_assoc, List.singleton_append]

/-- A pass over the token itself cleans the gaps only, if one of them is filled. -/
theorem removeToken_weave_self
    {token : List α}
    (htoken : Bracketed opening closing token)
    (done word : List α)
    {gaps : List (List α)}
    (hself : token = done ++ word)
    (hfits : Fits word gaps)
    (hapart : ∀ gap ∈ gaps, Apart opening closing gap)
    (hfilled : ∃ gap ∈ gaps, gap ≠ []) :
    removeToken token (done ++ weave word gaps) =
      done ++ weave word (gaps.map (removeToken token)) := by
  induction word generalizing done gaps with
  | nil =>
      cases hfits
  | cons c word ih =>
      cases gaps with
      | nil =>
          obtain ⟨gap, hmem, -⟩ := hfilled
          cases hmem
      | cons gap gaps =>
          have hrest : ∀ other ∈ gaps, Apart opening closing other :=
            fun other hmem => hapart other (List.mem_cons_of_mem _ hmem)
          have hnext : Fits word gaps := Nat.succ.inj hfits
          have hshift : token = (done ++ [c]) ++ word := by
            rw [hself, List.append_assoc, List.singleton_append]
          by_cases hempty : gap = []
          · have hlater : ∃ other ∈ gaps, other ≠ [] := by
              obtain ⟨other, hmem, hne⟩ := hfilled
              rcases List.mem_cons.mp hmem with rfl | hmem
              · exact absurd hempty hne
              · exact ⟨other, hmem, hne⟩
            have hstep := ih (done ++ [c]) hshift hnext hrest hlater
            rw [hempty, List.map_cons, weave, weave, removeToken_nil, List.nil_append,
              List.nil_append]
            simpa only [List.append_assoc, List.singleton_append] using hstep
          · -- both parts are too short for the token
            have hlength : token.length = (done ++ [c]).length + word.length := by
              rw [hshift, List.length_append]
            have hword : 0 < word.length := by
              rw [← hnext]
              exact Nat.succ_pos _
            have hdone : 0 < (done ++ [c]).length := by
              rw [List.length_append]
              exact Nat.lt_add_left _ Nat.one_pos
            have hfront : removeToken token (done ++ [c]) = done ++ [c] :=
              removeToken_of_not_infix htoken.ne_nil _ fun hinside => by
                have hle := hinside.length_le
                omega
            have hback := removeToken_weave_of_not_infix htoken [] word hnext hrest
              fun hinside => by
                have hle := hinside.length_le
                rw [List.nil_append] at hle
                omega
            rw [List.nil_append, List.nil_append] at hback
            rw [htoken.removeToken_weave_cons done word c gaps
              (hapart gap List.mem_cons_self) hempty, hfront, hback, List.map_cons, weave,
              List.append_assoc, List.singleton_append]

omit [DecidableEq α] in
theorem Fits.map
    {word : List α}
    {gaps : List (List α)}
    (hfits : Fits word gaps)
    (f : List α → List α) :
    Fits word (gaps.map f) := by
  rw [Fits, List.length_map]
  exact hfits

theorem Bracketed.apart_of_removeToken
    {token gap : List α}
    (htoken : Bracketed opening closing token)
    (hapart : Apart opening closing (removeToken token gap)) :
    Apart opening closing gap :=
  ⟨htoken.opens_of_removeToken hapart.1, htoken.closes_of_removeToken hapart.2⟩

omit [DecidableEq α] in
theorem apart_map
    {gaps : List (List α)}
    {f : List α → List α}
    (hapart : ∀ gap ∈ gaps, Apart opening closing (f gap)) :
    ∀ gap ∈ gaps.map f, Apart opening closing gap := by
  intro gap hmem
  obtain ⟨original, horiginal, rfl⟩ := List.mem_map.mp hmem
  exact hapart original horiginal

/-- Passes for other tokens clean the gaps of a token only. -/
theorem removeTokens_weave_of_not_mem
    {word : List α}
    {gaps : List (List α)}
    (htokens : ∀ token ∈ tokens, Bracketed opening closing token)
    (hword : Bracketed opening closing word)
    (hfits : Fits word gaps)
    (hother : word ∉ tokens)
    (hapart : ∀ gap ∈ gaps, Apart opening closing (removeTokens tokens gap)) :
    removeTokens tokens (weave word gaps) = weave word (gaps.map (removeTokens tokens)) := by
  induction tokens with
  | nil =>
      exact congrArg (weave word) (List.map_id gaps).symm
  | cons token earlier ih =>
      have htoken := htokens token List.mem_cons_self
      have hbefore : ∀ gap ∈ gaps, Apart opening closing (removeTokens earlier gap) :=
        fun gap hmem => htoken.apart_of_removeToken (hapart gap hmem)
      have hnot : ¬ token <:+: [] ++ word := fun hinside =>
        hother (List.mem_cons.mpr (Or.inl (htoken.eq_of_infix hword hinside).symm))
      rw [removeTokens, ih (fun other hmem => htokens other (List.mem_cons_of_mem _ hmem))
        (fun hmem => hother (List.mem_cons_of_mem _ hmem)) hbefore]
      have hpass := removeToken_weave_of_not_infix htoken [] word (hfits.map _)
        (apart_map hbefore) hnot
      rw [List.nil_append, List.nil_append, List.map_map] at hpass
      exact hpass

/-- So does the token's own pass, if it meets a gap that is still filled. -/
theorem removeTokens_weave_of_filled
    {word : List α}
    {gaps : List (List α)}
    {later earlier : List (List α)}
    (htokens : ∀ token ∈ later ++ word :: earlier, Bracketed opening closing token)
    (hnodup : (later ++ word :: earlier).Nodup)
    (hfits : Fits word gaps)
    (hapart : ∀ gap ∈ gaps,
      Apart opening closing (removeTokens (later ++ word :: earlier) gap))
    (hfilled : ∃ gap ∈ gaps, removeTokens earlier gap ≠ []) :
    removeTokens (later ++ word :: earlier) (weave word gaps) =
      weave word (gaps.map (removeTokens (later ++ word :: earlier))) := by
  have hword : Bracketed opening closing word :=
    htokens word (List.mem_append_right _ List.mem_cons_self)
  induction later with
  | nil =>
      have hbefore : ∀ gap ∈ gaps, Apart opening closing (removeTokens earlier gap) :=
        fun gap hmem => hword.apart_of_removeToken (hapart gap hmem)
      have hearlier := removeTokens_weave_of_not_mem
        (fun token hmem => htokens token (List.mem_cons_of_mem _ hmem)) hword hfits
        (List.nodup_cons.mp hnodup).1 hbefore
      have hstill : ∃ gap ∈ gaps.map (removeTokens earlier), gap ≠ [] := by
        obtain ⟨gap, hmem, hne⟩ := hfilled
        exact ⟨_, List.mem_map_of_mem hmem, hne⟩
      have hpass := removeToken_weave_self hword [] word rfl (hfits.map _)
        (apart_map hbefore) hstill
      rw [List.nil_append, List.nil_append, List.map_map] at hpass
      rw [List.nil_append, removeTokens, hearlier]
      exact hpass
  | cons token later ih =>
      have htoken := htokens token List.mem_cons_self
      have hbefore : ∀ gap ∈ gaps,
          Apart opening closing (removeTokens (later ++ word :: earlier) gap) :=
        fun gap hmem => htoken.apart_of_removeToken (hapart gap hmem)
      obtain ⟨hfresh, hrest⟩ := List.nodup_cons.mp hnodup
      have hnot : ¬ token <:+: [] ++ word := by
        intro hinside
        refine hfresh ?_
        rw [htoken.eq_of_infix hword hinside]
        exact List.mem_append_right _ List.mem_cons_self
      rw [List.cons_append, removeTokens,
        ih (fun other hmem => htokens other (List.mem_cons_of_mem _ hmem)) hrest hbefore]
      have hpass := removeToken_weave_of_not_infix htoken [] word (hfits.map _)
        (apart_map hbefore) hnot
      rw [List.nil_append, List.nil_append, List.map_map] at hpass
      exact hpass

end Weaving

section Erasable

/--
Text that the passes remove: pieces that the earlier passes remove already, and
tokens of the latest pass whose characters nothing else keeps apart.
-/
def Erasable : List (List α) → List α → Prop
  | [], text => text = []
  | token :: earlier, text =>
      ∃ parts : List (List α), text = parts.flatten ∧
        ∀ part ∈ parts, Erasable earlier part ∨
          ∃ gaps, Fits token gaps ∧ (∀ gap ∈ gaps, Erasable earlier gap) ∧
            part = weave token gaps

variable [DecidableEq α] {opening closing : α} {tokens : List (List α)}

theorem removeTokens_nil (tokens : List (List α)) :
    removeTokens tokens [] = [] := by
  induction tokens with
  | nil =>
      rfl
  | cons token earlier ih =>
      rw [removeTokens, ih, removeToken_nil]

theorem removeTokens_passes
    (later earlier : List (List α))
    (text : List α) :
    removeTokens (later ++ earlier) text =
      removeTokens later (removeTokens earlier text) := by
  induction later with
  | nil =>
      rfl
  | cons token later ih =>
      exact congrArg (removeToken token) ih

theorem apart_of_erased
    {gap : List α}
    (hgap : removeTokens tokens gap = []) :
    Apart opening closing (removeTokens tokens gap) := by
  rw [hgap]
  exact ⟨opens_nil, closes_nil⟩

theorem removeTokens_flatten_of_erased
    (htokens : ∀ token ∈ tokens, Bracketed opening closing token)
    {parts : List (List α)}
    (hparts : ∀ part ∈ parts, removeTokens tokens part = []) :
    removeTokens tokens parts.flatten = [] := by
  induction parts with
  | nil =>
      exact removeTokens_nil tokens
  | cons part parts ih =>
      rw [List.flatten_cons, removeTokens_append_of_erased_left htokens _
        (hparts part List.mem_cons_self)]
      exact ih fun other hmem => hparts other (List.mem_cons_of_mem _ hmem)

/-- Once its gaps are gone a token can be removed. -/
theorem removeTokens_weave_of_erased
    {token : List α}
    {earlier gaps : List (List α)}
    (htokens : ∀ other ∈ token :: earlier, Bracketed opening closing other)
    (hother : token ∉ earlier)
    (hfits : Fits token gaps)
    (hgaps : ∀ gap ∈ gaps, removeTokens earlier gap = []) :
    removeTokens (token :: earlier) (weave token gaps) = [] := by
  have htoken := htokens token List.mem_cons_self
  have hword : removeTokens earlier (weave token gaps) = token := by
    rw [removeTokens_weave_of_not_mem
      (fun other hmem => htokens other (List.mem_cons_of_mem _ hmem)) htoken hfits hother
      fun gap hmem => apart_of_erased (hgaps gap hmem)]
    refine weave_of_empty_gaps (hfits.map _) fun gap hmem => ?_
    obtain ⟨original, horiginal, rfl⟩ := List.mem_map.mp hmem
    exact hgaps original horiginal
  have hself := removeToken_token_append htoken.ne_nil []
  rw [List.append_nil, removeToken_nil] at hself
  rw [removeTokens, hword, hself]

/-- Text whose image is a row of tokens falls into pieces with their tokens. -/
theorem exists_parts_of_replicate
    {token : List α}
    {earlier : List (List α)}
    (htokens : ∀ other ∈ token :: earlier, Bracketed opening closing other)
    (copies : Nat)
    {text : List α}
    (htext : removeTokens earlier text = (List.replicate copies token).flatten) :
    ∃ parts : List (List α), text = parts.flatten ∧
      ∀ part ∈ parts, removeTokens earlier part = [] ∨
        ∃ gaps, Fits token gaps ∧ (∀ gap ∈ gaps, removeTokens earlier gap = []) ∧
          part = weave token gaps := by
  have hearlier : ∀ other ∈ earlier, Bracketed opening closing other :=
    fun other hmem => htokens other (List.mem_cons_of_mem _ hmem)
  induction copies generalizing text with
  | zero =>
      refine ⟨[text], by rw [List.flatten_singleton], fun part hmem => ?_⟩
      cases List.mem_singleton.mp hmem
      exact Or.inl htext
  | succ copies ih =>
      rw [List.replicate_succ, List.flatten_cons] at htext
      obtain ⟨left, right, rfl, hleft, hright⟩ := removeTokens_eq_append hearlier htext
      obtain ⟨before, gaps, after, rfl, hfits, hbefore, hafter, hgaps⟩ :=
        exists_weave_of_removeTokens hearlier (htokens token List.mem_cons_self).ne_nil hleft
      obtain ⟨parts, rfl, hparts⟩ := ih hright
      refine ⟨before :: weave token gaps :: after :: parts, ?_, ?_⟩
      · simp only [List.flatten_cons, List.append_assoc]
      · intro part hmem
        rcases List.mem_cons.mp hmem with rfl | hmem
        · exact Or.inl hbefore
        · rcases List.mem_cons.mp hmem with rfl | hmem
          · exact Or.inr ⟨gaps, hfits, hgaps, rfl⟩
          · rcases List.mem_cons.mp hmem with rfl | hmem
            · exact Or.inl hafter
            · exact hparts part hmem

/-- The passes remove exactly the erasable texts. -/
theorem erasable_iff
    (htokens : ∀ token ∈ tokens, Bracketed opening closing token)
    (hnodup : tokens.Nodup)
    (text : List α) :
    Erasable tokens text ↔ removeTokens tokens text = [] := by
  induction tokens generalizing text with
  | nil =>
      exact Iff.rfl
  | cons token earlier ih =>
      have hearlier : ∀ other ∈ earlier, Bracketed opening closing other :=
        fun other hmem => htokens other (List.mem_cons_of_mem _ hmem)
      obtain ⟨hother, hrest⟩ := List.nodup_cons.mp hnodup
      have hiff := ih hearlier hrest
      constructor
      · rintro ⟨parts, rfl, hparts⟩
        refine removeTokens_flatten_of_erased htokens fun part hmem => ?_
        rcases hparts part hmem with hpart | ⟨gaps, hfits, hgaps, rfl⟩
        · rw [removeTokens, (hiff part).mp hpart, removeToken_nil]
        · exact removeTokens_weave_of_erased htokens hother hfits
            fun gap hgap => (hiff gap).mp (hgaps gap hgap)
      · intro htext
        obtain ⟨copies, hcopies⟩ :=
          removeToken_eq_nil (htokens token List.mem_cons_self).ne_nil _ htext
        obtain ⟨parts, hflatten, hparts⟩ := exists_parts_of_replicate htokens copies hcopies
        refine ⟨parts, hflatten, fun part hmem => ?_⟩
        refine (hparts part hmem).imp (hiff part).mpr ?_
        rintro ⟨gaps, hfits, hgaps, hpart⟩
        exact ⟨gaps, hfits, fun gap hgap => (hiff gap).mpr (hgaps gap hgap), hpart⟩

/--
The text has the characters of the token `word` with erasable gaps between them,
not all of which are gone by the pass for `word`.
-/
def Spliced (later : List (List α)) (word : List α) (earlier : List (List α))
    (text : List α) : Prop :=
  ∃ gaps, Fits word gaps ∧
    (∀ gap ∈ gaps, Erasable (later ++ word :: earlier) gap) ∧
    (∃ gap ∈ gaps, ¬ Erasable earlier gap) ∧
    weave word gaps <:+: text

/-- A token is left exactly where its characters were spliced apart. -/
theorem infix_removeTokens_iff
    {later earlier : List (List α)}
    {word : List α}
    (htokens : ∀ token ∈ later ++ word :: earlier, Bracketed opening closing token)
    (hnodup : (later ++ word :: earlier).Nodup)
    (text : List α) :
    word <:+: removeTokens (later ++ word :: earlier) text ↔
      Spliced later word earlier text := by
  have hword : Bracketed opening closing word :=
    htokens word (List.mem_append_right _ List.mem_cons_self)
  have htail : ∀ token ∈ word :: earlier, Bracketed opening closing token :=
    fun token hmem => htokens token (List.mem_append_right _ hmem)
  have htailNodup : (word :: earlier).Nodup := (List.nodup_append.mp hnodup).2.1
  have hearlier : ∀ token ∈ earlier, Bracketed opening closing token :=
    fun token hmem => htail token (List.mem_cons_of_mem _ hmem)
  have hgone := erasable_iff htokens hnodup
  have hgoneEarlier := erasable_iff hearlier (List.nodup_cons.mp htailNodup).2
  constructor
  · rintro ⟨front, back, himage⟩
    obtain ⟨rest, right, rfl, hrest, -⟩ := removeTokens_eq_append htokens himage.symm
    obtain ⟨left, middle, rfl, -, hmiddle⟩ := removeTokens_eq_append htokens hrest
    obtain ⟨before, gaps, after, rfl, hfits, hbefore, hafter, hgaps⟩ :=
      exists_weave_of_removeTokens htokens hword.ne_nil hmiddle
    refine ⟨gaps, hfits, fun gap hmem => (hgone gap).mpr (hgaps gap hmem), ?_, ?_⟩
    · by_contra hnone
      have hclean : ∀ gap ∈ gaps, removeTokens earlier gap = [] := by
        intro gap hmem
        by_contra hfilled
        exact hnone ⟨gap, hmem, fun herasable => hfilled ((hgoneEarlier gap).mp herasable)⟩
      have herased := removeTokens_weave_of_erased htail (List.nodup_cons.mp htailNodup).1
        hfits hclean
      rw [removeTokens_append_of_erased_right htokens _ hafter,
        removeTokens_append_of_erased_left htokens _ hbefore, removeTokens_passes, herased,
        removeTokens_nil] at hmiddle
      exact hword.ne_nil hmiddle.symm
    · exact ⟨left ++ before, after ++ right, by simp only [List.append_assoc]⟩
  · rintro ⟨gaps, hfits, hgaps, ⟨kept, hkept, hfilled⟩, left, right, rfl⟩
    have herased : ∀ gap ∈ gaps, removeTokens (later ++ word :: earlier) gap = [] :=
      fun gap hmem => (hgone gap).mp (hgaps gap hmem)
    have himage : removeTokens (later ++ word :: earlier) (weave word gaps) = word := by
      rw [removeTokens_weave_of_filled htokens hnodup hfits
        (fun gap hmem => apart_of_erased (herased gap hmem))
        ⟨kept, hkept, fun hempty => hfilled ((hgoneEarlier kept).mpr hempty)⟩]
      refine weave_of_empty_gaps (hfits.map _) fun gap hmem => ?_
      obtain ⟨original, horiginal, rfl⟩ := List.mem_map.mp hmem
      exact herased original horiginal
    have hright := removeTokens_append htokens (weave word gaps) right
      (Or.inr (by rw [himage]; exact hword.closes))
    rw [himage] at hright
    have hopens : Opens opening (removeTokens (later ++ word :: earlier)
        (weave word gaps ++ right)) := by
      intro a ha
      rw [hright, List.head?_append_of_ne_nil _ hword.ne_nil] at ha
      exact hword.opens a ha
    rw [List.append_assoc, removeTokens_append htokens left _ (Or.inl hopens), hright,
      ← List.append_assoc]
    exact ⟨_, _, rfl⟩

end Erasable

end FlorenceServer
