import Mathlib.Logic.Relation
import Mathlib.Tactic

/-!
# Guarded runs of a labelled transition function

A system is given by a partial step function `step : S → A → Option S`.  A run
is a sequence of steps, each of which meets a condition `ok` on the state it
leaves and on its action.  The condition carries the assumptions under which a
result about every run is stated.

The module provides the invariant rule, also for a system with an observer that
takes note of its steps, a potential rule that bounds what a run may spend, ranking
rules for termination, and the executable counterpart `runActions` used to exhibit
concrete runs.
-/

namespace FlorenceServer
namespace Runs

universe u v w

section GuardedRuns

variable {S : Type u} {A : Type v}

/-- One step whose source state and action meet `ok`. -/
def GuardedStep
    (step : S → A → Option S)
    (ok : S → A → Prop)
    (s s' : S) : Prop :=
  ∃ a, ok s a ∧ step s a = some s'

/-- Reachability by steps that all meet `ok`. -/
def Run
    (step : S → A → Option S)
    (ok : S → A → Prop) :
    S → S → Prop :=
  Relation.ReflTransGen (GuardedStep step ok)

variable {step : S → A → Option S}
variable {ok ok' : S → A → Prop}

theorem Run.refl (s : S) : Run step ok s s :=
  Relation.ReflTransGen.refl

/-- Extend a run by one more step. -/
theorem Run.snoc
    {s t u : S} {a : A}
    (hrun : Run step ok s t)
    (hok : ok t a)
    (hstep : step t a = some u) :
    Run step ok s u :=
  Relation.ReflTransGen.tail hrun ⟨a, hok, hstep⟩

/-- Put one step in front of a run. -/
theorem Run.cons
    {s t u : S} {a : A}
    (hok : ok s a)
    (hstep : step s a = some t)
    (hrun : Run step ok t u) :
    Run step ok s u :=
  Relation.ReflTransGen.head ⟨a, hok, hstep⟩ hrun

theorem Run.trans
    {s t u : S}
    (h₁ : Run step ok s t)
    (h₂ : Run step ok t u) :
    Run step ok s u :=
  Relation.ReflTransGen.trans h₁ h₂

/-- **Invariant rule.** What one admitted step preserves, a run preserves. -/
theorem Run.invariant
    {I : S → Prop}
    (hpres : ∀ s a s', ok s a → step s a = some s' → I s → I s')
    {s t : S}
    (hrun : Run step ok s t)
    (hs : I s) :
    I t := by
  induction hrun with
  | refl => exact hs
  | tail _ hstep ih =>
      obtain ⟨a, ha, hstep⟩ := hstep
      exact hpres _ a _ ha hstep ih

theorem Run.mono
    (hok : ∀ s a, ok s a → ok' s a)
    {s t : S}
    (hrun : Run step ok s t) :
    Run step ok' s t := by
  induction hrun with
  | refl => exact Run.refl s
  | tail _ hstep ih =>
      obtain ⟨a, ha, hstep⟩ := hstep
      exact ih.snoc (hok _ a ha) hstep

/-- What holds of every reachable state may be used as a condition on every step. -/
theorem Run.strengthen
    {I : S → Prop} {s : S}
    (hreached : ∀ t, Run step ok s t → I t)
    {t : S}
    (hrun : Run step ok s t) :
    Run step (fun s a => ok s a ∧ I s) s t := by
  induction hrun with
  | refl => exact Run.refl s
  | tail hrun hstep ih =>
      obtain ⟨a, hok, hstep⟩ := hstep
      exact ih.snoc ⟨hok, hreached _ hrun⟩ hstep

/-- Execute a list of actions, checking `guard` before each of them. -/
def runActions
    (step : S → A → Option S)
    (guard : S → A → Bool) :
    S → List A → Option S
  | s, [] => some s
  | s, a :: rest =>
      if guard s a then
        match step s a with
        | some s' => runActions step guard s' rest
        | none => none
      else none

/-- An executed list of actions is a run. -/
theorem run_of_runActions
    {guard : S → A → Bool}
    (hguard : ∀ s a, guard s a = true → ok s a) :
    ∀ (actions : List A) (s t : S),
      runActions step guard s actions = some t →
      Run step ok s t
  | [], s, t, h => by
      simp only [runActions, Option.some.injEq] at h
      exact h ▸ Run.refl s
  | a :: rest, s, t, h => by
      simp only [runActions] at h
      split_ifs at h with hg
      cases hstep : step s a with
      | none =>
          simp [hstep] at h
      | some s' =>
          simp only [hstep] at h
          exact Run.cons (hguard s a hg) hstep
            (run_of_runActions hguard rest s' t h)

/-- A checked execution whose final state passes a test gives a run to such a state. -/
theorem exists_run_of_any
    {guard : S → A → Bool}
    (hguard : ∀ s a, guard s a = true → ok s a)
    {actions : List A} {s : S} {test : S → Bool}
    (h : (runActions step guard s actions).any test = true) :
    ∃ t, Run step ok s t ∧ test t = true := by
  cases hrun : runActions step guard s actions with
  | none =>
      simp [hrun] at h
  | some t =>
      rw [hrun] at h
      exact ⟨t, run_of_runActions hguard actions s t hrun, by simpa using h⟩

end GuardedRuns

section Observers

variable {S : Type u} {A : Type v} {O : Type w}
variable {step : S → A → Option S}
variable {ok : S → A → Prop}

/-- The system with an observer that takes note of its steps and that no step reads. -/
def observed
    (step : S → A → Option S)
    (note : S → A → O → O)
    (p : S × O) (a : A) : Option (S × O) :=
  (step p.1 a).map (fun s' => (s', note p.1 a p.2))

/-- A run of a system with its observer. -/
def ObservedRun
    (step : S → A → Option S)
    (ok : S → A → Prop)
    (note : S → A → O → O) :
    S × O → S × O → Prop :=
  Run (observed step note) (fun p a => ok p.1 a)

variable {note : S → A → O → O}

theorem observed_eq_some
    {p q : S × O} {a : A}
    (h : observed step note p a = some q) :
    step p.1 a = some q.1 ∧ q.2 = note p.1 a p.2 := by
  obtain ⟨s', hstep, rfl⟩ := Option.map_eq_some_iff.mp h
  exact ⟨hstep, rfl⟩

/-- Every run can be observed. -/
theorem Run.exists_observed
    {s t : S}
    (hrun : Run step ok s t)
    (note : S → A → O → O) (o : O) :
    ∃ o', ObservedRun step ok note (s, o) (t, o') := by
  induction hrun with
  | refl => exact ⟨o, Run.refl _⟩
  | tail _ hstep ih =>
      obtain ⟨a, ha, hstep⟩ := hstep
      obtain ⟨o', ho'⟩ := ih
      exact ⟨_, Run.snoc ho' ha (Option.map_eq_some_iff.mpr ⟨_, hstep, rfl⟩)⟩

/-- Forgetting the observer leaves a run. -/
theorem ObservedRun.run
    {p q : S × O}
    (hrun : ObservedRun step ok note p q) :
    Run step ok p.1 q.1 := by
  induction hrun with
  | refl => exact Run.refl _
  | tail _ hstep ih =>
      obtain ⟨a, ha, hstep⟩ := hstep
      exact Run.snoc ih ha (observed_eq_some hstep).1

/-- **Invariant rule** for a relation between a system and its observer. -/
theorem ObservedRun.invariant
    {I : S → O → Prop}
    (hpres : ∀ s o a s', ok s a → step s a = some s' → I s o → I s' (note s a o))
    {p q : S × O}
    (hrun : ObservedRun step ok note p q)
    (hp : I p.1 p.2) :
    I q.1 q.2 := by
  refine Run.invariant (I := fun r : S × O => I r.1 r.2) ?_ hrun hp
  intro r a r' ha hstep hr
  obtain ⟨hstep, ho⟩ := observed_eq_some hstep
  rw [ho]
  exact hpres _ _ _ _ ha hstep hr

/-- A checked execution with an observer. -/
theorem exists_observedRun_of_any
    {guard : S × O → A → Bool}
    (hguard : ∀ p a, guard p a = true → ok p.1 a)
    {actions : List A} {p : S × O} {test : S × O → Bool}
    (h : (runActions (observed step note) guard p actions).any test = true) :
    ∃ q, ObservedRun step ok note p q ∧ test q = true :=
  exists_run_of_any hguard h

end Observers

section Potentials

variable {S : Type u} {A : Type v}
variable {step : S → A → Option S}
variable {ok : S → A → Prop}

/-- What the steps of a run brought in and what they used up. -/
structure Account where
  earned : Nat
  spent : Nat

/-- Every action brings in `gain` and uses up `cost`. -/
def Account.note (gain cost : A → Nat) (_ : S) (a : A) (account : Account) : Account where
  earned := account.earned + gain a
  spent := account.spent + cost a

/-- **Potential rule.** Where each step pays its cost out of the potential, which a
unit of gain raises by at most `rate`, a run spends no more than what it earns is
worth and the potential it started with. -/
theorem ObservedRun.spent_le
    {gain cost : A → Nat} {potential : S → Nat} {rate : Nat}
    (hpays : ∀ s a s', ok s a → step s a = some s' →
      potential s' + cost a ≤ potential s + rate * gain a)
    {s t : S} {account : Account}
    (hrun : ObservedRun step ok (Account.note gain cost)
      (s, { earned := 0, spent := 0 }) (t, account)) :
    account.spent + potential t ≤ rate * account.earned + potential s := by
  refine hrun.invariant
    (I := fun u account => account.spent + potential u ≤ rate * account.earned + potential s)
    ?_ (by simp)
  intro u account a u' hok hstep hle
  have hpay := hpays u a u' hok hstep
  simp only [Account.note, Nat.mul_add]
  omega

/-- **Ranking rule** for runs: where every admitted step lowers the rank, a run can
be continued until no admitted step is left. -/
theorem exists_stuck_of_rank
    (rank : S → Nat)
    (hdecrease : ∀ s a s', ok s a → step s a = some s' → rank s' < rank s)
    (s : S) :
    ∃ t, Run step ok s t ∧ ∀ a, ok t a → step t a = none := by
  induction hn : rank s using Nat.strong_induction_on generalizing s with
  | _ n ih =>
      by_cases hstuck : ∀ a, ok s a → step s a = none
      · exact ⟨s, Run.refl s, hstuck⟩
      · push Not at hstuck
        obtain ⟨a, hok, hsome⟩ := hstuck
        obtain ⟨s', hstep⟩ := Option.ne_none_iff_exists'.mp hsome
        obtain ⟨t, hrun, ht⟩ :=
          ih (rank s') (hn ▸ hdecrease s a s' hok hstep) s' rfl
        exact ⟨t, Run.cons hok hstep hrun, ht⟩

end Potentials

section Iteration

variable {S : Type u} {B : Type v}

/-- **Ranking rule.** A machine whose rank decreases while it is not done gets done. -/
theorem exists_iterate_of_rank
    {r : B → B → Prop} (hr : WellFounded r)
    (step : S → S) (start : S) (done : S → Prop) (rank : S → B)
    (hdecrease : ∀ n, ¬ done (step^[n] start) →
      r (rank (step^[n + 1] start)) (rank (step^[n] start))) :
    ∃ n, done (step^[n] start) := by
  by_contra hnever
  have hchain : ∀ n, r (rank (step^[n + 1] start)) (rank (step^[n] start)) :=
    fun n => hdecrease n (fun hdone => hnever ⟨n, hdone⟩)
  exact (wellFounded_iff_isEmpty_descending_chain.mp hr).false
    ⟨fun n => rank (step^[n] start), hchain⟩

end Iteration

end Runs
end FlorenceServer
