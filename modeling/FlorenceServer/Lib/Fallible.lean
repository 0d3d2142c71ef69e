import Mathlib.Tactic

/-!
# Computations that may fail

A chain of `Except` computations is taken apart at its steps.
-/

namespace FlorenceServer

theorem ok_bind
    {ε α β : Type} (a : α) (f : α → Except ε β) :
    (Except.ok a >>= f) = f a :=
  rfl

/-- A computation that returns has returned at each of its steps. -/
theorem bind_eq_ok
    {ε α β : Type} {x : Except ε α} {f : α → Except ε β} {b : β} :
    (x >>= f) = .ok b ↔ ∃ a, x = .ok a ∧ f a = .ok b := by
  cases x with
  | error err =>
      exact ⟨nofun, nofun⟩
  | ok a =>
      constructor
      · intro h
        exact ⟨a, rfl, h⟩
      · rintro ⟨a', ha, h⟩
        cases ha
        exact h

/-- A chain returns if its first step does and the rest returns after it. -/
theorem exists_bind_eq_ok
    {ε α β : Type} {x : Except ε α} {f : α → Except ε β}
    (hfirst : ∃ a, x = .ok a)
    (hrest : ∀ a, x = .ok a → ∃ b, f a = .ok b) :
    ∃ b, (x >>= f) = .ok b := by
  obtain ⟨a, ha⟩ := hfirst
  obtain ⟨b, hb⟩ := hrest a ha
  exact ⟨b, bind_eq_ok.mpr ⟨a, ha, hb⟩⟩

/-- The error of a computation that fails. -/
def errorOf {ε α : Type} : Except ε α → Option ε
  | .error err => some err
  | .ok _ => none

end FlorenceServer
