import Mathlib.Tactic

/-!
# Unsigned numerals in base ten

`str::parse` for the unsigned integer types.  A type is given by the number of its
values.  The digits are read from left to right, and the first thing that is wrong
decides the error.

* `parseUnsigned_eq_ok_iff`: the texts of a value are its digits with any zeros in front
  and with or without a plus sign.
* `parseUnsigned_toDigits`: a value is read back from its digits.
-/

namespace FlorenceServer

/-- `ParseIntError`, as far as an unsigned type raises it. -/
inductive ParseIntError where
  | empty
  | invalidDigit
  | posOverflow
deriving DecidableEq, Repr

/-- The display form of the error. -/
def ParseIntError.message : ParseIntError → String
  | .empty => "cannot parse integer from empty string"
  | .invalidDigit => "invalid digit found in string"
  | .posOverflow => "number too large to fit in target type"

/-- The loop over the digits, with the value of those that have been read. -/
def parseUnsignedDigits (bound : Nat) : List Char → Nat → Except ParseIntError Nat
  | [], value => .ok value
  | c :: digits, value =>
      if c.isDigit then
        if 10 * value + (c.toNat - '0'.toNat) < bound then
          parseUnsignedDigits bound digits (10 * value + (c.toNat - '0'.toNat))
        else .error .posOverflow
      else .error .invalidDigit

/-- One plus sign may stand in front of the digits. -/
def unsignedDigits : List Char → List Char
  | '+' :: digits => digits
  | digits => digits

/-- `str::parse` for a type with `bound` values. -/
def parseUnsigned (bound : Nat) (text : List Char) : Except ParseIntError Nat :=
  if text.isEmpty then .error .empty
  else if (unsignedDigits text).isEmpty then .error .invalidDigit
  else parseUnsignedDigits bound (unsignedDigits text) 0

section Digits

variable {bound : Nat}

/-- Further digits never make a number smaller. -/
theorem le_ofDigitChars
    (digits : List Char) (value : Nat) :
    value ≤ Nat.ofDigitChars 10 digits value := by
  induction digits generalizing value with
  | nil => exact Nat.le_refl value
  | cons c digits ih =>
      rw [Nat.ofDigitChars_cons]
      have hnext := ih (10 * value + (c.toNat - '0'.toNat))
      omega

/-- The loop accepts digits whose number fits, and nothing else. -/
theorem parseUnsignedDigits_eq_ok_iff
    {digits : List Char} {value result : Nat}
    (hvalue : value < bound) :
    parseUnsignedDigits bound digits value = .ok result ↔
      (∀ c ∈ digits, c.isDigit = true) ∧ Nat.ofDigitChars 10 digits value = result ∧
        result < bound := by
  induction digits generalizing value with
  | nil =>
      simp only [parseUnsignedDigits, Except.ok.injEq, List.not_mem_nil, false_implies,
        implies_true, true_and, Nat.ofDigitChars_nil]
      constructor
      · rintro rfl
        exact ⟨rfl, hvalue⟩
      · exact fun h => h.1
  | cons c digits ih =>
      rw [parseUnsignedDigits, Nat.ofDigitChars_cons, List.forall_mem_cons]
      by_cases hdigit : c.isDigit = true
      · rw [if_pos hdigit]
        by_cases hfits : 10 * value + (c.toNat - '0'.toNat) < bound
        · rw [if_pos hfits, ih hfits]
          simp only [hdigit, true_and]
        · rw [if_neg hfits]
          have hgrows := le_ofDigitChars digits (10 * value + (c.toNat - '0'.toNat))
          constructor
          · rintro ⟨⟩
          · rintro ⟨-, rfl, hresult⟩
            omega
      · rw [if_neg hdigit]
        constructor
        · rintro ⟨⟩
        · rintro ⟨⟨hc, -⟩, -⟩
          exact absurd hc hdigit

theorem parseUnsigned_eq_ok_iff
    {text : List Char} {result : Nat}
    (hbound : 0 < bound) :
    parseUnsigned bound text = .ok result ↔
      unsignedDigits text ≠ [] ∧ (∀ c ∈ unsignedDigits text, c.isDigit = true) ∧
        Nat.ofDigitChars 10 (unsignedDigits text) 0 = result ∧ result < bound := by
  unfold parseUnsigned
  by_cases hdigits : unsignedDigits text = []
  · by_cases htext : text.isEmpty = true <;> simp [hdigits, htext]
  · have htext : text ≠ [] := by
      rintro rfl
      exact hdigits rfl
    rw [if_neg (by simpa using htext), if_neg (by simpa using hdigits),
      parseUnsignedDigits_eq_ok_iff hbound]
    exact (and_iff_right hdigits).symm

theorem unsignedDigits_toDigits (n : Nat) :
    unsignedDigits (Nat.toDigits 10 n) = Nat.toDigits 10 n := by
  unfold unsignedDigits
  split
  · rename_i digits hplus
    have hdigit : '+'.isDigit = true :=
      Nat.isDigit_of_mem_toDigits (by decide) (by decide) (hplus ▸ List.mem_cons_self)
    exact absurd hdigit (by decide)
  · rfl

/-- A value is read back from its digits. -/
theorem parseUnsigned_toDigits
    {n : Nat} (hn : n < bound) :
    parseUnsigned bound (Nat.toDigits 10 n) = .ok n := by
  rw [parseUnsigned_eq_ok_iff (Nat.zero_lt_of_lt hn), unsignedDigits_toDigits]
  exact ⟨Nat.toDigits_ne_nil,
    fun _ hc => Nat.isDigit_of_mem_toDigits (by decide) (by decide) hc,
    Nat.ofDigitChars_ten_toDigits, hn⟩

end Digits

example : parseUnsigned (2 ^ 8) "256x".toList = .error .posOverflow := by
  decide

end FlorenceServer
