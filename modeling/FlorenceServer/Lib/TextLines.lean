import Mathlib.Data.List.DropRight
import Mathlib.Tactic

/-!
# Reading a byte file line by line

UTF-8 text as a list of characters, `read_to_string` and `str::lines`.  A file
that is the concatenation of newline-terminated texts reads back as exactly
these texts.  Bytes that were cut off somewhere in a line are text only if they
were cut off between two characters.
-/

namespace FlorenceServer

section Utf8

/-- The bytes of a text. -/
def encodeUtf8 (text : List Char) : List UInt8 :=
  text.flatMap String.utf8EncodeChar

/-- The text of a file, if its bytes are valid UTF-8. -/
def decodeUtf8 (bytes : List UInt8) : Option (List Char) :=
  bytes.toByteArray.utf8Decode?.map Array.toList

@[simp] theorem encodeUtf8_nil : encodeUtf8 [] = [] := rfl

theorem encodeUtf8_cons (c : Char) (t : List Char) :
    encodeUtf8 (c :: t) = String.utf8EncodeChar c ++ encodeUtf8 t := by
  simp [encodeUtf8]

@[simp] theorem encodeUtf8_append (s t : List Char) :
    encodeUtf8 (s ++ t) = encodeUtf8 s ++ encodeUtf8 t := by
  simp [encodeUtf8]

theorem encodeUtf8_eq_nil_iff (text : List Char) :
    encodeUtf8 text = [] ↔ text = [] := by
  cases text with
  | nil => simp
  | cons c text => simp [encodeUtf8_cons, String.utf8EncodeChar_ne_nil]

@[simp] theorem decodeUtf8_encodeUtf8 (text : List Char) :
    decodeUtf8 (encodeUtf8 text) = some text := by
  have h : (encodeUtf8 text).toByteArray.utf8Decode? = some text.toArray :=
    List.utf8Decode?_utf8Encode
  simp [decodeUtf8, h]

theorem decodeUtf8_eq_some_iff (bytes : List UInt8) (text : List Char) :
    decodeUtf8 bytes = some text ↔ bytes = encodeUtf8 text := by
  constructor
  · intro h
    unfold decodeUtf8 at h
    obtain ⟨chars, hchars, rfl⟩ := Option.map_eq_some_iff.mp h
    have hsome : bytes.toByteArray.utf8Decode?.isSome := by
      simp [hchars]
    have hback := ByteArray.utf8Encode_get_utf8Decode? (h := hsome)
    have hget : bytes.toByteArray.utf8Decode?.get hsome = chars := by
      simp [hchars]
    rw [hget] at hback
    have hdata := congrArg (fun b : ByteArray => b.data.toList) hback
    simpa [List.utf8Encode, encodeUtf8] using hdata.symm
  · rintro rfl
    exact decodeUtf8_encodeUtf8 text

/-- No character's bytes start with those of another one. -/
theorem utf8EncodeChar_append_inj
    {c d : Char} {u v : List UInt8}
    (h : String.utf8EncodeChar c ++ u = String.utf8EncodeChar d ++ v) :
    c = d ∧ u = v := by
  have hdecode := congrArg (fun bytes : List UInt8 => bytes.toByteArray.utf8DecodeChar? 0) h
  simp only [List.toByteArray_append] at hdecode
  rw [ByteArray.utf8DecodeChar?_utf8EncodeChar_append,
    ByteArray.utf8DecodeChar?_utf8EncodeChar_append, Option.some.injEq] at hdecode
  subst hdecode
  exact ⟨rfl, List.append_cancel_left h⟩

/-- Bytes that may follow a complete character. -/
def StartsCharacter (bytes : List UInt8) : Prop :=
  ∀ b ∈ bytes.head?, b.IsUTF8FirstByte

theorem startsCharacter_nil : StartsCharacter [] := by
  intro b hb
  cases hb

theorem startsCharacter_take
    (line : List Char) (k : Nat) (rest : List UInt8)
    (hrest : StartsCharacter rest) :
    StartsCharacter ((encodeUtf8 line).take k ++ rest) := by
  by_cases hnil : (encodeUtf8 line).take k = []
  · rw [hnil]
    exact hrest
  cases line with
  | nil =>
      exact absurd (List.take_nil) hnil
  | cons c line =>
      intro b hb
      have hpos : 0 < (String.utf8EncodeChar c).length :=
        List.length_pos_iff.mpr String.utf8EncodeChar_ne_nil
      have hk : k ≠ 0 := by
        rintro rfl
        exact hnil List.take_zero
      rw [List.head?_append_of_ne_nil _ hnil, List.head?_take, if_neg hk, encodeUtf8_cons,
        List.head?_append_of_ne_nil _ String.utf8EncodeChar_ne_nil, List.head?_eq_getElem?,
        List.getElem?_eq_getElem hpos, Option.mem_some_iff] at hb
      rw [← hb]
      exact UInt8.isUTF8FirstByte_getElem_utf8EncodeChar.mpr rfl

/-- A text that starts with the bytes of a line starts with the line. -/
theorem encodeUtf8_append_left
    {line text : List Char} {rest : List UInt8}
    (h : encodeUtf8 text = encodeUtf8 line ++ rest) :
    ∃ remaining, text = line ++ remaining ∧ encodeUtf8 remaining = rest := by
  induction line generalizing text with
  | nil =>
      exact ⟨text, rfl, h⟩
  | cons c line ih =>
      rw [encodeUtf8_cons, List.append_assoc] at h
      cases text with
      | nil =>
          have hnil := (List.append_eq_nil_iff.mp h.symm).1
          exact absurd hnil String.utf8EncodeChar_ne_nil
      | cons d text =>
          rw [encodeUtf8_cons] at h
          obtain ⟨rfl, htext⟩ := utf8EncodeChar_append_inj h
          obtain ⟨remaining, rfl, hremaining⟩ := ih htext
          exact ⟨remaining, rfl, hremaining⟩

/-- Reading behind a complete text. -/
theorem decodeUtf8_append (line : List Char) (bytes : List UInt8) :
    decodeUtf8 (encodeUtf8 line ++ bytes) = (decodeUtf8 bytes).map (line ++ ·) := by
  cases hbytes : decodeUtf8 bytes with
  | some text =>
      rw [decodeUtf8_eq_some_iff] at hbytes
      rw [hbytes, ← encodeUtf8_append, decodeUtf8_encodeUtf8]
      rfl
  | none =>
      rw [Option.map_none, Option.eq_none_iff_forall_ne_some]
      intro text htext
      rw [decodeUtf8_eq_some_iff] at htext
      obtain ⟨remaining, -, hremaining⟩ := encodeUtf8_append_left htext.symm
      rw [← hremaining, decodeUtf8_encodeUtf8] at hbytes
      cases hbytes

/-- No text starts with a part of a character that nothing completes. -/
theorem encodeUtf8_ne_cutCharacter
    {c : Char} {k : Nat} {rest : List UInt8}
    (hpos : 0 < k) (hk : k < (String.utf8EncodeChar c).length)
    (hrest : StartsCharacter rest) (text : List Char) :
    encodeUtf8 text ≠ (String.utf8EncodeChar c).take k ++ rest := by
  intro h
  have hpartial : ((String.utf8EncodeChar c).take k).length = k := by
    rw [List.length_take]
    omega
  cases text with
  | nil =>
      have hlength := congrArg List.length h
      rw [encodeUtf8_nil, List.length_append, hpartial, List.length_nil] at hlength
      omega
  | cons d text =>
      rw [encodeUtf8_cons] at h
      by_cases hshort : (String.utf8EncodeChar d).length ≤ k
      · -- the bytes of `d` would start those of `c`
        have hstart := congrArg (List.take (String.utf8EncodeChar d).length) h
        rw [List.take_left, List.take_append_of_le_length (by omega), List.take_take,
          Nat.min_eq_left hshort] at hstart
        have hsplit := List.take_append_drop (String.utf8EncodeChar d).length
          (String.utf8EncodeChar c)
        rw [← hstart, ← List.append_nil (String.utf8EncodeChar c)] at hsplit
        obtain ⟨rfl, -⟩ := utf8EncodeChar_append_inj hsplit
        omega
      · -- `rest` would go on in the middle of `d`
        have hindex := congrArg (fun bytes => bytes[k]?) h
        simp only [List.getElem?_append_right (Nat.le_of_eq hpartial), hpartial,
          Nat.sub_self] at hindex
        rw [List.getElem?_append_left (by omega),
          List.getElem?_eq_getElem (by omega)] at hindex
        have hfirst := hrest _ (by rw [List.head?_eq_getElem?]; exact hindex.symm)
        have hzero := UInt8.isUTF8FirstByte_getElem_utf8EncodeChar.mp hfirst
        omega

/-- A text that starts with some bytes of a line starts with some characters of it. -/
theorem encodeUtf8_take_append
    {line text : List Char} {k : Nat} {rest : List UInt8}
    (hrest : StartsCharacter rest)
    (h : encodeUtf8 text = (encodeUtf8 line).take k ++ rest) :
    ∃ cut, cut <+: line ∧ encodeUtf8 cut = (encodeUtf8 line).take k := by
  induction line generalizing text k with
  | nil =>
      exact ⟨[], List.nil_prefix, by simp⟩
  | cons c line ih =>
      by_cases hk : k = 0
      · exact ⟨[], List.nil_prefix, by simp [hk]⟩
      rw [encodeUtf8_cons, List.take_append] at h ⊢
      by_cases hwhole : (String.utf8EncodeChar c).length ≤ k
      · rw [List.take_of_length_le hwhole] at h ⊢
        rw [List.append_assoc] at h
        have hsingle : String.utf8EncodeChar c = encodeUtf8 [c] := by
          simp [encodeUtf8]
        rw [hsingle] at h
        obtain ⟨remaining, -, hremaining⟩ := encodeUtf8_append_left h
        obtain ⟨cut, hcut, hbytes⟩ := ih hremaining
        refine ⟨c :: cut, (List.prefix_cons_inj c).mpr hcut, ?_⟩
        rw [encodeUtf8_cons, hbytes, ← hsingle]
      · rw [Nat.sub_eq_zero_of_le (by omega), List.take_zero, List.append_nil] at h
        exact absurd h (encodeUtf8_ne_cutCharacter (by omega) (by omega) hrest text)

end Utf8

section Lines

/-- A carriage return in front of the newline belongs to the line ending. -/
def stripCr (line : List Char) : List Char :=
  if line.getLast? = some '\r' then line.dropLast else line

/-- The lines of a text whose current line starts with the reversed `acc`. -/
def linesFrom : List Char → List Char → List (List Char)
  | acc, [] => if acc.isEmpty then [] else [acc.reverse]
  | acc, c :: rest =>
      if c = '\n' then
        stripCr acc.reverse :: linesFrom [] rest
      else
        linesFrom (c :: acc) rest

/-- `str::lines`: an unterminated last line counts, an empty one does not. -/
def lines (text : List Char) : List (List Char) :=
  linesFrom [] text

@[simp] theorem lines_nil : lines [] = [] := rfl

theorem linesFrom_append
    (line rest : List Char)
    (hline : '\n' ∉ line) (acc : List Char) :
    linesFrom acc (line ++ rest) = linesFrom (line.reverse ++ acc) rest := by
  induction line generalizing acc with
  | nil =>
      simp
  | cons c line ih =>
      rw [List.mem_cons, not_or] at hline
      rw [List.cons_append, linesFrom, if_neg (fun h => hline.1 h.symm),
        ih hline.2]
      simp

theorem lines_terminated
    (line rest : List Char)
    (hline : '\n' ∉ line) :
    lines (line ++ '\n' :: rest) = stripCr line :: lines rest := by
  unfold lines
  rw [linesFrom_append line _ hline, linesFrom, if_pos rfl]
  simp

theorem lines_unterminated
    (line : List Char)
    (hline : '\n' ∉ line)
    (hne : line ≠ []) :
    lines line = [line] := by
  have h := linesFrom_append line [] hline []
  rw [List.append_nil] at h
  unfold lines
  rw [h]
  simp [linesFrom, hne]

/-- Newline-terminated texts without newlines are read back as they are. -/
theorem lines_flatMap_terminated
    (texts : List (List Char))
    (htexts : ∀ t ∈ texts, '\n' ∉ t ∧ t.getLast? ≠ some '\r')
    (rest : List Char) :
    lines (texts.flatMap (fun t => t ++ ['\n']) ++ rest) =
      texts ++ lines rest := by
  induction texts with
  | nil =>
      simp
  | cons t texts ih =>
      obtain ⟨hnewline, hreturn⟩ := htexts t List.mem_cons_self
      have ih' := ih (fun u hu => htexts u (List.mem_cons_of_mem t hu))
      rw [List.flatMap_cons, List.append_assoc, List.append_assoc,
        List.singleton_append, lines_terminated t _ hnewline, ih']
      simp [stripCr, hreturn]

/-- What stands behind the last newline of a text. -/
def openLine (text : List Char) : List Char :=
  text.rtakeWhile (fun c => decide (c ≠ '\n'))

theorem newline_not_mem_openLine (text : List Char) :
    '\n' ∉ openLine text := by
  intro hmem
  have hother := List.mem_rtakeWhile_imp hmem
  simp at hother

/-- A text without newlines is one open line. -/
theorem openLine_of_not_mem
    {text : List Char} (h : '\n' ∉ text) :
    openLine text = text := by
  refine List.rtakeWhile_eq_self_iff.mpr ?_
  intro c hc
  rw [decide_eq_true_eq]
  rintro rfl
  exact h hc

theorem linesFrom_newline (head rest acc : List Char) :
    linesFrom acc (head ++ '\n' :: rest) =
      linesFrom acc (head ++ ['\n']) ++ lines rest := by
  induction head generalizing acc with
  | nil =>
      rw [List.nil_append, List.nil_append, linesFrom, linesFrom, if_pos rfl, if_pos rfl]
      rfl
  | cons c head ih =>
      rw [List.cons_append, List.cons_append, linesFrom, linesFrom]
      split
      · rw [ih, List.cons_append]
      · exact ih _

/-- The lines of a text are those that are complete and those that the open line
becomes, whatever is written behind it. -/
theorem exists_complete_lines (text : List Char) :
    ∃ head, text = head ++ openLine text ∧
      ∀ rest, lines (head ++ rest) = lines head ++ lines rest := by
  refine ⟨text.rdropWhile (fun c => decide (c ≠ '\n')),
    List.rdropWhile_append_rtakeWhile.symm, ?_⟩
  intro rest
  set head := text.rdropWhile (fun c => decide (c ≠ '\n')) with hhead
  by_cases hnil : head = []
  · rw [hnil, lines_nil, List.nil_append, List.nil_append]
  · have hlast : head.getLast hnil = '\n' := by
      have hnot := List.rdropWhile_last_not (fun c => decide (c ≠ '\n')) text hnil
      exact Decidable.not_not.mp (fun hne => hnot (decide_eq_true hne))
    have hsplit : head = head.dropLast ++ ['\n'] := by
      rw [← hlast, List.dropLast_append_getLast]
    rw [hsplit, List.append_assoc, List.singleton_append]
    exact linesFrom_newline head.dropLast rest []

end Lines

end FlorenceServer
