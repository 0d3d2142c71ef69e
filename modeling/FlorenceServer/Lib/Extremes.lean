import Mathlib.Order.Bounds.Basic
import Mathlib.Order.Bounds.Image
import Mathlib.Order.MinMax

/-!
# Extremes found by a loop

A loop over a list that keeps the least or the greatest value of its elements,
and one that keeps the last of its greatest elements.
-/

namespace FlorenceServer

universe u v

variable {α : Type u} {β : Type v} [LinearOrder β]

/-- The elements of a list, as a set. -/
def elements (xs : List α) : Set α :=
  {a | a ∈ xs}

theorem elements_cons
    (a : α)
    (xs : List α) :
    elements (a :: xs) = insert a (elements xs) := by
  ext b
  exact List.mem_cons

/-- The least value, starting from a known one. -/
theorem isLeast_foldl_min
    (value : α → β)
    (bound : β)
    (xs : List α) :
    IsLeast (insert bound (value '' elements xs))
      (xs.foldl (fun bound a => min bound (value a)) bound) := by
  induction xs generalizing bound with
  | nil =>
      refine ⟨Set.mem_insert bound _, fun b hb => ?_⟩
      rcases hb with rfl | ⟨a, ha, -⟩
      · exact le_refl _
      · cases ha
  | cons a xs ih =>
      rw [List.foldl_cons, elements_cons, Set.image_insert_eq]
      obtain ⟨hmem, hlower⟩ := ih (min bound (value a))
      constructor
      · rcases hmem with hbound | htail
        · rw [hbound]
          rcases min_choice bound (value a) with hmin | hmin
          · rw [hmin]
            exact Set.mem_insert _ _
          · rw [hmin]
            exact Set.mem_insert_of_mem _ (Set.mem_insert _ _)
        · exact Set.mem_insert_of_mem _ (Set.mem_insert_of_mem _ htail)
      · rintro b (rfl | rfl | htail)
        · exact (hlower (Set.mem_insert _ _)).trans (min_le_left _ _)
        · exact (hlower (Set.mem_insert _ _)).trans (min_le_right _ _)
        · exact hlower (Set.mem_insert_of_mem _ htail)

/-- The greatest value, starting from a known one. -/
theorem isGreatest_foldl_max
    (value : α → β)
    (bound : β)
    (xs : List α) :
    IsGreatest (insert bound (value '' elements xs))
      (xs.foldl (fun bound a => max bound (value a)) bound) :=
  isLeast_foldl_min (β := βᵒᵈ) value bound xs

/-- The greater of two elements, the later one of equals. -/
def laterMax (key : α → β) (best a : α) : α :=
  if key a < key best then best else a

/-- The last of the greatest elements of a list, compared by `key`. -/
def lastMax (key : α → β) : List α → Option α
  | [] => none
  | a :: xs => some (xs.foldl (laterMax key) a)

theorem key_le_laterMax
    (key : α → β)
    (best a : α) :
    key best ≤ key (laterMax key best a) ∧ key a ≤ key (laterMax key best a) := by
  rw [laterMax]
  split
  · rename_i hless
    exact ⟨le_refl _, le_of_lt hless⟩
  · rename_i hnot
    exact ⟨not_lt.mp hnot, le_refl _⟩

theorem foldl_laterMax
    (key : α → β)
    (best : α)
    (xs : List α) :
    xs.foldl (laterMax key) best ∈ best :: xs ∧
      ∀ a ∈ best :: xs, key a ≤ key (xs.foldl (laterMax key) best) := by
  induction xs generalizing best with
  | nil =>
      refine ⟨List.mem_singleton.mpr rfl, fun a ha => ?_⟩
      cases List.mem_singleton.mp ha
      exact le_refl _
  | cons b xs ih =>
      obtain ⟨hmem, hupper⟩ := ih (laterMax key best b)
      have hbound := hupper _ List.mem_cons_self
      obtain ⟨hbest, hb⟩ := key_le_laterMax key best b
      rw [List.foldl_cons]
      constructor
      · rcases List.mem_cons.mp hmem with heq | htail
        · rw [heq, laterMax]
          split
          · exact List.mem_cons_self
          · exact List.mem_cons_of_mem _ List.mem_cons_self
        · exact List.mem_cons_of_mem _ (List.mem_cons_of_mem _ htail)
      · intro a ha
        rcases List.mem_cons.mp ha with rfl | ha
        · exact hbest.trans hbound
        · rcases List.mem_cons.mp ha with rfl | ha
          · exact hb.trans hbound
          · exact hupper a (List.mem_cons_of_mem _ ha)

/-- A list that is not empty has a greatest element, and it is found. -/
theorem exists_lastMax
    (key : α → β)
    {xs : List α}
    (hne : xs ≠ []) :
    ∃ best ∈ xs, lastMax key xs = some best ∧ ∀ a ∈ xs, key a ≤ key best := by
  cases xs with
  | nil =>
      exact absurd rfl hne
  | cons a xs =>
      obtain ⟨hmem, hupper⟩ := foldl_laterMax key a xs
      exact ⟨_, hmem, rfl, hupper⟩

end FlorenceServer
