import Mathlib.Tactic

/-!
# Counting components

Sums over the components `0, …, n - 1` of a system, and the number of components
with a property.  A step that changes one component changes a sum by what it
adds there and what it takes away.
-/

namespace FlorenceServer

open Finset

/-- The sum over the components. -/
def total (n : Nat) (f : Nat → Nat) : Nat :=
  ∑ w ∈ range n, f w

/-- The number of components with a property. -/
def countBelow (n : Nat) (p : Nat → Bool) : Nat :=
  ((range n).filter (fun w => p w = true)).card

section Totals

variable {n w : Nat} {f g : Nat → Nat} {p q : Nat → Bool}

theorem countBelow_eq_total (n : Nat) (p : Nat → Bool) :
    countBelow n p = total n (fun w => (p w).toNat) := by
  unfold countBelow total
  rw [card_filter]
  refine sum_congr rfl (fun w _ => ?_)
  cases hp : p w <;> simp [hp]

/-- A change of one component. -/
theorem total_change
    (hw : w < n)
    (hothers : ∀ v, v ≠ w → g v = f v) :
    total n g + f w = total n f + g w := by
  have hmem : w ∈ range n := mem_range.mpr hw
  have hrest : ∑ v ∈ (range n).erase w, g v = ∑ v ∈ (range n).erase w, f v :=
    sum_congr rfl (fun v hv => hothers v (ne_of_mem_erase hv))
  unfold total
  rw [← add_sum_erase _ g hmem, ← add_sum_erase _ f hmem, hrest]
  omega

theorem total_succ (n : Nat) (f : Nat → Nat) :
    total (n + 1) f = total n f + f n :=
  sum_range_succ f n

theorem total_congr (h : ∀ v < n, g v = f v) :
    total n g = total n f :=
  sum_congr rfl (fun v hv => h v (mem_range.mp hv))

theorem total_mono (h : ∀ v < n, g v ≤ f v) :
    total n g ≤ total n f :=
  sum_le_sum (fun v hv => h v (mem_range.mp hv))

theorem countBelow_change
    (hw : w < n)
    (hothers : ∀ v, v ≠ w → q v = p v) :
    countBelow n q + (p w).toNat = countBelow n p + (q w).toNat := by
  rw [countBelow_eq_total, countBelow_eq_total]
  exact total_change hw (fun v hv => congrArg Bool.toNat (hothers v hv))

/-- One more component. -/
theorem countBelow_succ (n : Nat) (p : Nat → Bool) :
    countBelow (n + 1) p = countBelow n p + (p n).toNat := by
  rw [countBelow_eq_total, countBelow_eq_total]
  exact sum_range_succ _ n

theorem countBelow_le (n : Nat) (p : Nat → Bool) :
    countBelow n p ≤ n :=
  (card_filter_le _ _).trans (card_range n).le

theorem countBelow_congr (h : ∀ w < n, q w = p w) :
    countBelow n q = countBelow n p := by
  rw [countBelow_eq_total, countBelow_eq_total]
  exact sum_congr rfl (fun w hw => congrArg Bool.toNat (h w (mem_range.mp hw)))

theorem exists_of_countBelow_pos (h : 0 < countBelow n p) :
    ∃ w < n, p w = true := by
  obtain ⟨w, hw⟩ := card_pos.mp h
  obtain ⟨hlt, hp⟩ := mem_filter.mp hw
  exact ⟨w, mem_range.mp hlt, hp⟩

theorem countBelow_pos (hw : w < n) (hp : p w = true) :
    0 < countBelow n p :=
  card_pos.mpr ⟨w, mem_filter.mpr ⟨mem_range.mpr hw, hp⟩⟩

/-- No component is counted twice. -/
theorem countBelow_add_le
    (hdisjoint : ∀ w, p w = true → q w = false) :
    countBelow n p + countBelow n q ≤ n := by
  unfold countBelow
  rw [← card_union_of_disjoint]
  · have hsubset : (range n).filter (fun w => p w = true) ∪
        (range n).filter (fun w => q w = true) ⊆ range n :=
      union_subset (filter_subset _ _) (filter_subset _ _)
    have hcard := card_le_card hsubset
    rwa [card_range] at hcard
  · refine disjoint_filter.mpr (fun w _ hp hq => ?_)
    rw [hdisjoint w hp] at hq
    cases hq

theorem countBelow_lt (hw : w < n) (hp : p w = false) :
    countBelow n p < n := by
  have hpos := countBelow_pos (p := fun v => v == w) hw (by simp)
  have hle := countBelow_add_le (n := n) (p := p) (q := fun v => v == w) (fun v hv => by
    have hne : v ≠ w := by
      rintro rfl
      rw [hp] at hv
      cases hv
    simpa using hne)
  omega

theorem countBelow_eq_zero (h : ∀ w, p w = false) :
    countBelow n p = 0 := by
  rw [countBelow_eq_total, total]
  exact sum_eq_zero (fun w _ => by rw [h w]; rfl)

/-- A change of one component of a finite family. -/
theorem sum_change
    {ι : Type} [Fintype ι] [DecidableEq ι] {f g : ι → Nat} {i : ι}
    (hothers : ∀ j, j ≠ i → g j = f j) :
    ∑ j, g j + f i = ∑ j, f j + g i := by
  have hrest : ∑ j ∈ univ.erase i, g j = ∑ j ∈ univ.erase i, f j :=
    sum_congr rfl (fun j hj => hothers j (ne_of_mem_erase hj))
  rw [← add_sum_erase _ g (mem_univ i), ← add_sum_erase _ f (mem_univ i), hrest]
  omega

end Totals

end FlorenceServer
