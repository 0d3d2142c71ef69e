import Mathlib.Data.List.DropRight

/-!
# Trimming

What is left of a list without the blanks at its two ends: the part that blanks
surround and that does not begin or end with one.
-/

namespace FlorenceServer

variable {α : Type*} {blank : α → Bool} {xs middle before after : List α}

/-- `xs` without the blanks at its ends. -/
def trimBlank (blank : α → Bool) (xs : List α) : List α :=
  ((xs.dropWhile blank).reverse.dropWhile blank).reverse

/-- No blank at either end. -/
structure Trimmed (blank : α → Bool) (xs : List α) : Prop where
  head : ∀ a ∈ xs.head?, blank a = false
  last : ∀ a ∈ xs.getLast?, blank a = false

theorem trimBlank_eq_rdropWhile
    (blank : α → Bool)
    (xs : List α) :
    trimBlank blank xs = (xs.dropWhile blank).rdropWhile blank :=
  rfl

theorem trimmed_trimBlank
    (blank : α → Bool)
    (xs : List α) :
    Trimmed blank (trimBlank blank xs) := by
  rw [trimBlank_eq_rdropWhile]
  constructor
  · intro a hhead
    have hstarts := List.rdropWhile_prefix blank (xs.dropWhile blank)
    have hfront : (xs.dropWhile blank).head? = some a := by
      obtain ⟨tail, htail⟩ := hstarts
      rw [← htail, List.head?_append, Option.mem_def.mp hhead]
      rfl
    have hnot := List.head?_dropWhile_not blank xs
    rw [hfront] at hnot
    exact hnot
  · intro a hlast
    have hne : (xs.dropWhile blank).rdropWhile blank ≠ [] := by
      intro hnil
      rw [hnil] at hlast
      cases hlast
    have hnot := List.rdropWhile_last_not blank _ hne
    rw [← (List.getLast_eq_iff_getLast?_eq_some hne).mpr hlast]
    simpa using hnot

/-- The ends that trimming takes away are blank. -/
theorem exists_around_trimBlank
    (blank : α → Bool)
    (xs : List α) :
    ∃ before after,
      xs = before ++ trimBlank blank xs ++ after ∧
        (∀ a ∈ before, blank a = true) ∧ ∀ a ∈ after, blank a = true := by
  have hback :
      xs.dropWhile blank =
        trimBlank blank xs ++ ((xs.dropWhile blank).reverse.takeWhile blank).reverse := by
    rw [trimBlank, ← List.reverse_append, List.takeWhile_append_dropWhile,
      List.reverse_reverse]
  refine ⟨xs.takeWhile blank, ((xs.dropWhile blank).reverse.takeWhile blank).reverse,
    ?_, ?_, ?_⟩
  · rw [List.append_assoc, ← hback, List.takeWhile_append_dropWhile]
  · exact fun a hmem => List.mem_takeWhile_imp hmem
  · exact fun a hmem => List.mem_takeWhile_imp (List.mem_reverse.mp hmem)

theorem dropWhile_blank_append
    (hbefore : ∀ a ∈ before, blank a = true)
    (hhead : ∀ a ∈ middle.head?, blank a = false) :
    (before ++ middle).dropWhile blank = middle := by
  rw [List.dropWhile_append_of_pos hbefore]
  cases middle with
  | nil =>
      rfl
  | cons a rest =>
      rw [List.dropWhile_cons, hhead a rfl]
      rfl

/-- Trimming finds what blanks surround. -/
theorem trimBlank_around
    (hbefore : ∀ a ∈ before, blank a = true)
    (hafter : ∀ a ∈ after, blank a = true)
    (hne : middle ≠ [])
    (hmiddle : Trimmed blank middle) :
    trimBlank blank (before ++ middle ++ after) = middle := by
  have hfront :
      (before ++ (middle ++ after)).dropWhile blank = middle ++ after := by
    refine dropWhile_blank_append hbefore fun a hhead => hmiddle.head a ?_
    rwa [List.head?_append_of_ne_nil _ hne] at hhead
  have hback :
      (after.reverse ++ middle.reverse).dropWhile blank = middle.reverse := by
    refine dropWhile_blank_append
      (fun a hmem => hafter a (List.mem_reverse.mp hmem)) fun a hhead => ?_
    rw [List.head?_reverse] at hhead
    exact hmiddle.last a hhead
  rw [trimBlank, List.append_assoc, hfront, List.reverse_append, hback,
    List.reverse_reverse]

theorem trimBlank_of_trimmed
    (hxs : Trimmed blank xs) :
    trimBlank blank xs = xs := by
  by_cases hnil : xs = []
  · rw [hnil]
    rfl
  · have haround : trimBlank blank ([] ++ xs ++ []) = xs :=
      trimBlank_around (fun a hmem => absurd hmem List.not_mem_nil)
        (fun a hmem => absurd hmem List.not_mem_nil) hnil hxs
    rwa [List.nil_append, List.append_nil] at haround

theorem trimBlank_eq_nil_iff :
    trimBlank blank xs = [] ↔ ∀ a ∈ xs, blank a = true := by
  constructor
  · intro hnil a hmem
    obtain ⟨before, after, hxs, hbefore, hafter⟩ := exists_around_trimBlank blank xs
    rw [hxs, hnil, List.append_nil] at hmem
    rcases List.mem_append.mp hmem with hmem | hmem
    · exact hbefore a hmem
    · exact hafter a hmem
  · intro hblank
    rw [trimBlank, List.dropWhile_eq_nil_iff.mpr hblank]
    rfl

/-- A word without blanks does not reach into blanks in front of a list. -/
theorem infix_of_infix_blank_append
    {word : List α}
    (hne : word ≠ [])
    (hword : ∀ a ∈ word, blank a = false)
    (hbefore : ∀ a ∈ before, blank a = true)
    (hinside : word <:+: before ++ xs) :
    word <:+: xs := by
  induction before with
  | nil =>
      exact hinside
  | cons b before ih =>
      rw [List.cons_append, List.infix_cons_iff] at hinside
      rcases hinside with hstarts | hrest
      · obtain ⟨a, word, rfl⟩ := List.exists_cons_of_ne_nil hne
        obtain ⟨rest, hrest⟩ := hstarts
        rw [List.cons_append] at hrest
        have hvisible := hword a List.mem_cons_self
        rw [(List.cons.inj hrest).1, hbefore b List.mem_cons_self] at hvisible
        cases hvisible
      · exact ih (fun a hmem => hbefore a (List.mem_cons_of_mem _ hmem)) hrest

/-- Trimming neither hides nor uncovers a word without blanks. -/
theorem infix_trimBlank_iff
    {word : List α}
    (hne : word ≠ [])
    (hword : ∀ a ∈ word, blank a = false) :
    word <:+: trimBlank blank xs ↔ word <:+: xs := by
  obtain ⟨before, after, hxs, hbefore, hafter⟩ := exists_around_trimBlank blank xs
  constructor
  · intro hinside
    rw [hxs]
    exact hinside.trans ⟨before, after, rfl⟩
  · intro hinside
    rw [hxs, List.append_assoc] at hinside
    have hfront := infix_of_infix_blank_append hne hword hbefore hinside
    rw [← List.reverse_infix, List.reverse_append] at hfront
    rw [← List.reverse_infix]
    refine infix_of_infix_blank_append (by simpa using hne)
      (fun a hmem => hword a (List.mem_reverse.mp hmem))
      (fun a hmem => hafter a (List.mem_reverse.mp hmem)) hfront

end FlorenceServer
