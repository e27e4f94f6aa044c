import Quackhole.Transition.Labelled
import Mathlib.Order.Basic

/-!
# Scheduled executions and progress under fairness

A schedule offers one label at every instant.  A label that is not enabled when
it is offered is simply lost, which is how a party that is blocked, asleep or
overtaken is modelled.  A label is *recurrent* in a schedule that offers it
again after every instant.

The progress rule is the usual one for weak fairness: a natural-number measure
never grows, and in every state short of the goal some label both decreases it
and stays the helpful one until it does.  If every helpful label is recurrent,
the goal is reached.
-/

namespace Quackhole.Transition

universe u v

variable {ι : Type u} {σ : Type v}

/-- Take a step when the offered label is enabled, and stand still otherwise. -/
def stepOrStay (next : LStep ι σ) (label : ι) (state : σ) : σ :=
  (next label state).getD state

theorem stepOrStay_of_some {next : LStep ι σ} {label : ι} {state target : σ}
    (stepped : next label state = some target) : stepOrStay next label state = target := by
  simp [stepOrStay, stepped]

theorem stepOrStay_of_none {next : LStep ι σ} {label : ι} {state : σ}
    (blocked : next label state = none) : stepOrStay next label state = state := by
  simp [stepOrStay, blocked]

/-- The state a schedule has produced after `n` instants. -/
def stateAt (next : LStep ι σ) (schedule : Nat → ι) (start : σ) : Nat → σ
  | 0 => start
  | n + 1 => stepOrStay next (schedule n) (stateAt next schedule start n)

/-- A schedule keeps offering the label. -/
def Recurrent (schedule : Nat → ι) (label : ι) : Prop :=
  ∀ n, ∃ m, n ≤ m ∧ schedule m = label

/-- Every state of a scheduled execution is reached by a run whose labels the
schedule offered. -/
theorem run_stateAt (next : LStep ι σ) (schedule : Nat → ι) (start : σ)
    {allowed : ι → σ → Prop} (offered : ∀ n state, allowed (schedule n) state) (n : Nat) :
    Run next allowed start (stateAt next schedule start n) := by
  induction n with
  | zero => exact Run.refl
  | succ n ih =>
      cases stepped : next (schedule n) (stateAt next schedule start n) with
      | none =>
          rw [stateAt, stepOrStay_of_none stepped]
          exact ih
      | some target =>
          rw [stateAt, stepOrStay_of_some stepped]
          exact ih.tail (offered n _) stepped

/-- What a progress argument has to supply: an invariant of the execution, a
measure, and the label that is helpful in each state short of the goal. -/
structure Progress (next : LStep ι σ) (inv goal : σ → Prop) (offered : ι → Prop) where
  measure : σ → Nat
  helpful : σ → ι
  /-- No offered label increases the measure, and one that leaves it alone
  leaves the helpful label alone too. -/
  stable : ∀ label state, offered label → inv state → ¬ goal state →
    goal (stepOrStay next label state) ∨
      measure (stepOrStay next label state) < measure state ∨
      measure (stepOrStay next label state) = measure state ∧
        helpful (stepOrStay next label state) = helpful state
  /-- The helpful label reaches the goal or decreases the measure. -/
  advances : ∀ state, inv state → ¬ goal state →
    goal (stepOrStay next (helpful state) state) ∨
      measure (stepOrStay next (helpful state) state) < measure state

namespace Progress

variable {next : LStep ι σ} {inv goal : σ → Prop} {offered : ι → Prop}
  {schedule : Nat → ι} {start : σ}

/-- While the goal is not reached, either the measure has gone down by the time
the helpful label is next offered, or the goal has been reached by then. -/
theorem decreases (progress : Progress next inv goal offered)
    (offers : ∀ n, offered (schedule n))
    (invariant : ∀ n, inv (stateAt next schedule start n))
    {n m : Nat} (le : n ≤ m) (short : ¬ goal (stateAt next schedule start n))
    (turn : schedule m = progress.helpful (stateAt next schedule start n)) :
    ∃ k, n ≤ k ∧ (goal (stateAt next schedule start k) ∨
      progress.measure (stateAt next schedule start k) <
        progress.measure (stateAt next schedule start n)) := by
  obtain ⟨d, rfl⟩ := Nat.exists_eq_add_of_le le
  induction d generalizing n with
  | zero =>
      refine ⟨n + 1, Nat.le_succ n, ?_⟩
      have advanced := progress.advances _ (invariant n) short
      rwa [← turn] at advanced
  | succ d ih =>
      rcases progress.stable (schedule n) _ (offers n) (invariant n) short with
        reached | smaller | ⟨same, sameHelpful⟩
      · exact ⟨n + 1, Nat.le_succ n, Or.inl reached⟩
      · exact ⟨n + 1, Nat.le_succ n, Or.inr smaller⟩
      · by_cases reached : goal (stateAt next schedule start (n + 1))
        · exact ⟨n + 1, Nat.le_succ n, Or.inl reached⟩
        · have turn' : schedule (n + 1 + d) =
              progress.helpful (stateAt next schedule start (n + 1)) := by
            rw [Nat.add_right_comm]
            exact turn.trans sameHelpful.symm
          obtain ⟨k, after, outcome⟩ := ih reached (Nat.le_add_right _ d) turn'
          refine ⟨k, Nat.le_of_succ_le after, ?_⟩
          change _ ∨ _ < progress.measure (stepOrStay next (schedule n) _) at outcome
          rwa [same] at outcome

/-- If every helpful label is recurrent, the goal is reached after every
instant. -/
theorem reaches (progress : Progress next inv goal offered)
    (offers : ∀ n, offered (schedule n))
    (invariant : ∀ n, inv (stateAt next schedule start n))
    (fair : ∀ n, ¬ goal (stateAt next schedule start n) →
      Recurrent schedule (progress.helpful (stateAt next schedule start n))) (n : Nat) :
    ∃ m, n ≤ m ∧ goal (stateAt next schedule start m) := by
  induction size : progress.measure (stateAt next schedule start n)
    using Nat.strongRecOn generalizing n with
  | ind size ih =>
      by_cases reached : goal (stateAt next schedule start n)
      · exact ⟨n, Nat.le_refl n, reached⟩
      · obtain ⟨m, le, turn⟩ := fair n reached n
        obtain ⟨k, after, goalReached | smaller⟩ :=
          progress.decreases offers invariant le reached turn
        · exact ⟨k, after, goalReached⟩
        · obtain ⟨l, later, goalReached⟩ := ih _ (size ▸ smaller) k rfl
          exact ⟨l, Nat.le_trans after later, goalReached⟩

end Progress

end Quackhole.Transition
