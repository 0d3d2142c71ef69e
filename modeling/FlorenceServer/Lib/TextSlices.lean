import Mathlib.Tactic

/-!
# Byte offsets into a text

A text is a list of characters, and an offset into it counts the bytes of its
UTF-8 form.  Slicing succeeds only at character boundaries.  Searching returns
the offset of the first occurrence of a pattern, and a pattern whose first
character does not occur again in it can be found right behind any text that
does not contain it.
-/

namespace FlorenceServer

section Offsets

/-- `str::len`: the length of a text in bytes. -/
def byteLength (text : List Char) : Nat :=
  (text.map Char.utf8Size).sum

@[simp] theorem byteLength_nil : byteLength [] = 0 := rfl

@[simp] theorem byteLength_cons (c : Char) (text : List Char) :
    byteLength (c :: text) = c.utf8Size + byteLength text := by
  simp [byteLength]

@[simp] theorem byteLength_append (s t : List Char) :
    byteLength (s ++ t) = byteLength s + byteLength t := by
  simp [byteLength]

theorem byteLength_pos {text : List Char} (h : text ≠ []) :
    0 < byteLength text := by
  cases text with
  | nil =>
      exact absurd rfl h
  | cons c text =>
      have hc := c.utf8Size_pos
      rw [byteLength_cons]
      omega

/-- `str::split_at_checked`: the two parts of a text at a character boundary. -/
def splitAtByte : List Char → Nat → Option (List Char × List Char)
  | text, 0 => some ([], text)
  | [], _ + 1 => none
  | c :: text, offset + 1 =>
      if c.utf8Size ≤ offset + 1 then
        (splitAtByte text (offset + 1 - c.utf8Size)).map (fun parts => (c :: parts.1, parts.2))
      else
        none

/-- `text.get(start..)`. -/
def sliceFrom (text : List Char) (start : Nat) : Option (List Char) :=
  (splitAtByte text start).map Prod.snd

/-- `text.get(..stop)`. -/
def sliceTo (text : List Char) (stop : Nat) : Option (List Char) :=
  (splitAtByte text stop).map Prod.fst

/-- `text.get(start..stop)`. -/
def slice (text : List Char) (start stop : Nat) : Option (List Char) :=
  (sliceTo text stop).bind (fun front => sliceFrom front start)

@[simp] theorem splitAtByte_append (front rest : List Char) :
    splitAtByte (front ++ rest) (byteLength front) = some (front, rest) := by
  induction front with
  | nil =>
      simp [splitAtByte]
  | cons c front ih =>
      have hc := c.utf8Size_pos
      obtain ⟨k, hk⟩ : ∃ k, c.utf8Size + byteLength front = k + 1 :=
        ⟨c.utf8Size + byteLength front - 1, by omega⟩
      have hrest : k + 1 - c.utf8Size = byteLength front := by omega
      rw [byteLength_cons, hk, List.cons_append, splitAtByte, if_pos (by omega), hrest, ih]
      rfl

@[simp] theorem sliceFrom_append (front rest : List Char) :
    sliceFrom (front ++ rest) (byteLength front) = some rest := by
  simp [sliceFrom]

@[simp] theorem sliceTo_append (front rest : List Char) :
    sliceTo (front ++ rest) (byteLength front) = some front := by
  simp [sliceTo]

theorem slice_append (front middle rest : List Char) :
    slice (front ++ (middle ++ rest)) (byteLength front)
      (byteLength front + byteLength middle) = some middle := by
  have hto : sliceTo (front ++ (middle ++ rest)) (byteLength front + byteLength middle) =
      some (front ++ middle) := by
    rw [← List.append_assoc, ← byteLength_append, sliceTo_append]
  rw [slice, hto, Option.bind_some, sliceFrom_append]

/-- `str::is_char_boundary`: the offset is the end of some first characters. -/
def IsCharBoundary (text : List Char) (offset : Nat) : Prop :=
  ∃ front rest, text = front ++ rest ∧ offset = byteLength front

theorem IsCharBoundary.le_byteLength
    {text : List Char} {offset : Nat}
    (h : IsCharBoundary text offset) :
    offset ≤ byteLength text := by
  obtain ⟨front, rest, rfl, rfl⟩ := h
  rw [byteLength_append]
  exact Nat.le_add_right _ _

theorem eq_append_of_splitAtByte
    {text front rest : List Char} {offset : Nat}
    (h : splitAtByte text offset = some (front, rest)) :
    text = front ++ rest ∧ offset = byteLength front := by
  fun_induction splitAtByte text offset generalizing front with
  | case1 text =>
      cases h
      exact ⟨rfl, rfl⟩
  | case2 offset =>
      cases h
  | case3 c text offset hfits ih =>
      obtain ⟨⟨front', rest'⟩, hsplit, hparts⟩ := Option.map_eq_some_iff.mp h
      cases hparts
      obtain ⟨rfl, hoffset⟩ := ih hsplit
      refine ⟨rfl, ?_⟩
      rw [byteLength_cons, ← hoffset]
      omega
  | case4 c text offset hfits =>
      cases h

/-- A text can be sliced from an offset exactly if a character starts there or
the text ends there. -/
theorem exists_sliceFrom_iff
    {text : List Char} {start : Nat} :
    (∃ rest, sliceFrom text start = some rest) ↔ IsCharBoundary text start := by
  constructor
  · rintro ⟨rest, hslice⟩
    obtain ⟨⟨front, rest'⟩, hsplit, -⟩ := Option.map_eq_some_iff.mp hslice
    obtain ⟨htext, hstart⟩ := eq_append_of_splitAtByte hsplit
    exact ⟨front, rest', htext, hstart⟩
  · rintro ⟨front, rest, rfl, rfl⟩
    exact ⟨rest, sliceFrom_append front rest⟩

theorem byteLength_eq_utf8ByteSize (text : List Char) :
    byteLength text = (String.ofList text).utf8ByteSize := by
  induction text with
  | nil =>
      rfl
  | cons c text ih =>
      rw [byteLength_cons, ih, ← List.singleton_append, String.ofList_append,
        String.utf8ByteSize_append]
      simp

/-- The boundaries are the valid positions of the encoded string. -/
theorem isCharBoundary_iff_isValid
    {text : List Char} {offset : Nat} :
    IsCharBoundary text offset ↔
      (String.Pos.Raw.mk offset).IsValid (String.ofList text) := by
  rw [String.Pos.Raw.isValid_iff_exists_append]
  constructor
  · rintro ⟨front, rest, rfl, rfl⟩
    refine ⟨String.ofList front, String.ofList rest, String.ofList_append, ?_⟩
    rw [byteLength_eq_utf8ByteSize]
    rfl
  · rintro ⟨front, rest, htext, hoffset⟩
    refine ⟨front.toList, rest.toList, ?_, ?_⟩
    · have hchars := congrArg String.toList htext
      rwa [String.toList_ofList, String.toList_append] at hchars
    · rw [byteLength_eq_utf8ByteSize, String.ofList_toList]
      exact congrArg String.Pos.Raw.byteIdx hoffset

end Offsets

section Search

/-- The part of a text in front of the first occurrence of a pattern, and the rest. -/
def splitFirst (pattern : List Char) : List Char → Option (List Char × List Char)
  | [] => if pattern.isEmpty then some ([], []) else none
  | c :: text =>
      if pattern.isPrefixOf (c :: text) then
        some ([], c :: text)
      else
        (splitFirst pattern text).map (fun parts => (c :: parts.1, parts.2))

/-- `str::find`: the byte offset of the first occurrence of a pattern. -/
def findText (pattern text : List Char) : Option Nat :=
  (splitFirst pattern text).map (fun parts => byteLength parts.1)

/-- `str::strip_prefix`. -/
def stripPrefix (pattern text : List Char) : Option (List Char) :=
  if pattern.isPrefixOf text then some (text.drop pattern.length) else none

variable {pattern text front rest : List Char}

theorem splitFirst_some (h : splitFirst pattern text = some (front, rest)) :
    text = front ++ rest ∧ pattern <+: rest := by
  induction text generalizing front with
  | nil =>
      unfold splitFirst at h
      split at h
      · rename_i hempty
        cases h
        rw [List.isEmpty_iff] at hempty
        exact ⟨rfl, hempty ▸ List.nil_prefix⟩
      · cases h
  | cons c text ih =>
      unfold splitFirst at h
      split at h
      · rename_i hopens
        cases h
        exact ⟨rfl, List.isPrefixOf_iff_prefix.mp hopens⟩
      · obtain ⟨⟨front', rest'⟩, hsplit, hparts⟩ := Option.map_eq_some_iff.mp h
        simp only [Prod.mk.injEq] at hparts
        obtain ⟨rfl, rfl⟩ := hparts
        obtain ⟨rfl, hopens⟩ := ih hsplit
        exact ⟨rfl, hopens⟩

/-- The search stops at or in front of every occurrence. -/
theorem splitFirst_of_occurrence
    (later : List Char)
    (hsuffix : later <:+ text)
    (hopens : pattern <+: later) :
    ∃ front rest, splitFirst pattern text = some (front, rest) ∧ later <:+ rest := by
  induction text with
  | nil =>
      rw [List.suffix_nil] at hsuffix
      subst hsuffix
      rw [List.prefix_nil] at hopens
      subst hopens
      exact ⟨[], [], rfl, List.suffix_rfl⟩
  | cons c text ih =>
      by_cases hhere : pattern.isPrefixOf (c :: text) = true
      · exact ⟨[], c :: text, by rw [splitFirst, if_pos hhere], hsuffix⟩
      · rcases List.suffix_cons_iff.mp hsuffix with rfl | hsuffix
        · exact absurd (List.isPrefixOf_iff_prefix.mpr hopens) hhere
        · obtain ⟨front, rest, hsplit, hlater⟩ := ih hsuffix
          refine ⟨c :: front, rest, ?_, hlater⟩
          rw [splitFirst, if_neg hhere, hsplit]
          rfl

theorem splitFirst_eq_none_iff :
    splitFirst pattern text = none ↔ ¬ pattern <:+: text := by
  constructor
  · rintro hnone ⟨before, after, rfl⟩
    have hsuffix : pattern ++ after <:+ before ++ pattern ++ after :=
      ⟨before, (List.append_assoc _ _ _).symm⟩
    obtain ⟨front, rest, hsome, -⟩ :=
      splitFirst_of_occurrence (pattern ++ after) hsuffix (List.prefix_append _ _)
    rw [hnone] at hsome
    cases hsome
  · intro habsent
    rw [Option.eq_none_iff_forall_ne_some]
    rintro ⟨front, rest⟩ hsome
    obtain ⟨rfl, after, rfl⟩ := splitFirst_some hsome
    exact habsent ⟨front, after, List.append_assoc _ _ _⟩

theorem not_infix_of_splitFirst
    (hpattern : pattern ≠ [])
    (h : splitFirst pattern text = some (front, rest)) :
    ¬ pattern <:+: front := by
  induction text generalizing front with
  | nil =>
      obtain ⟨htext, -⟩ := splitFirst_some h
      rw [(List.append_eq_nil_iff.mp htext.symm).1, List.infix_nil]
      exact hpattern
  | cons c text ih =>
      unfold splitFirst at h
      split at h
      · cases h
        rw [List.infix_nil]
        exact hpattern
      · rename_i hhere
        obtain ⟨⟨front', rest'⟩, hsplit, hparts⟩ := Option.map_eq_some_iff.mp h
        simp only [Prod.mk.injEq] at hparts
        obtain ⟨rfl, rfl⟩ := hparts
        obtain ⟨rfl, -⟩ := splitFirst_some hsplit
        intro hinfix
        rcases List.infix_cons_iff.mp hinfix with hopens | hinfix
        · have hwhole := hopens.trans (List.prefix_append (c :: front') rest')
          exact hhere (List.isPrefixOf_iff_prefix.mpr hwhole)
        · exact ih hsplit hinfix

theorem findText_eq_none_iff :
    findText pattern text = none ↔ ¬ pattern <:+: text := by
  rw [findText, Option.map_eq_none_iff, splitFirst_eq_none_iff]

/--
A pattern that starts with a character it does not repeat is found right
behind a text that does not contain it.
-/
theorem splitFirst_append
    {p : Char} {ps : List Char} (hp : p ∉ ps)
    (habsent : ¬ (p :: ps) <:+: front) (rest : List Char) :
    splitFirst (p :: ps) (front ++ (p :: ps ++ rest)) = some (front, p :: ps ++ rest) := by
  induction front with
  | nil =>
      have hhere : (p :: ps).isPrefixOf (p :: ps ++ rest) = true :=
        List.isPrefixOf_iff_prefix.mpr (List.prefix_append _ _)
      rw [List.cons_append] at hhere
      rw [List.nil_append, List.cons_append, splitFirst, if_pos hhere]
  | cons c front ih =>
      have hnot : ¬ (p :: ps) <+: c :: front ++ (p :: ps ++ rest) := by
        intro hopens
        by_cases hlength : (p :: ps).length ≤ (c :: front).length
        · have hin := List.prefix_of_prefix_length_le hopens (List.prefix_append _ _) hlength
          exact habsent hin.isInfix
        · -- the second occurrence of `p` would lie inside the pattern
          have hindex := hopens.getElem (i := (c :: front).length) (by omega)
          rw [List.getElem_append_right (Nat.le_refl _)] at hindex
          simp only [List.length_cons, List.getElem_cons_succ, Nat.sub_self, List.cons_append,
            List.getElem_cons_zero] at hindex
          exact hp (hindex ▸ List.getElem_mem _)
      have hnone : ¬ (p :: ps) <:+: front :=
        fun h => habsent (h.trans (List.suffix_cons c front).isInfix)
      rw [List.cons_append] at hnot ⊢
      rw [splitFirst, if_neg (fun h => hnot (List.isPrefixOf_iff_prefix.mp h)), ih hnone]
      rfl

/-- Characters that cannot open a suffix do not belong to it. -/
theorem suffix_of_not_mem
    {p : Char} {ps body : List Char} (hp : p ∉ body)
    (h : p :: ps <:+ body ++ rest) :
    p :: ps <:+ rest := by
  induction body with
  | nil =>
      exact h
  | cons c body ih =>
      rw [List.mem_cons, not_or] at hp
      rcases List.suffix_cons_iff.mp h with heq | h
      · exact absurd (List.cons.inj heq).1 hp.1
      · exact ih hp.2 h

theorem stripPrefix_eq_some_iff :
    stripPrefix pattern text = some rest ↔ text = pattern ++ rest := by
  unfold stripPrefix
  constructor
  · intro h
    split at h
    · rename_i hopens
      obtain ⟨after, rfl⟩ := List.isPrefixOf_iff_prefix.mp hopens
      rw [List.drop_left] at h
      exact congrArg (pattern ++ ·) (Option.some.inj h)
    · cases h
  · rintro rfl
    rw [if_pos (List.isPrefixOf_iff_prefix.mpr (List.prefix_append _ _)), List.drop_left]

theorem stripPrefix_eq_none_iff :
    stripPrefix pattern text = none ↔ ¬ pattern <+: text := by
  unfold stripPrefix
  rw [ite_eq_right_iff, ← List.isPrefixOf_iff_prefix]
  simp

end Search

end FlorenceServer
