import Mathlib.Logic.Basic

/-!
# Effects that survive an exception

A procedure over a state that may throw.  What it did before throwing stays
done, so that nothing is undone unless the procedure undoes it itself.  A view
of the state that every step keeps is kept by the whole procedure, whether it
returns or throws.
-/

namespace Quackhole.Transition

/-- A procedure: from a state, a result or an exception, and the state it is
left in. -/
def Effect (σ ε α : Type) : Type :=
  σ → Except ε α × σ

namespace Effect

variable {σ ε α β : Type}

/-- Return a value. -/
def ret (value : α) : Effect σ ε α :=
  fun state => (.ok value, state)

/-- Run one procedure after another, unless the first one throws. -/
def andThen (first : Effect σ ε α) (second : α → Effect σ ε β) : Effect σ ε β := fun state =>
  match first state with
  | (.ok value, middle) => second value middle
  | (.error error, middle) => (.error error, middle)

instance : Monad (Effect σ ε) where
  pure := ret
  bind := andThen

/-- Return or throw what a pure computation comes to. -/
def lift (result : Except ε α) : Effect σ ε α :=
  fun state => (result, state)

/-- Read the state. -/
def get : Effect σ ε σ :=
  fun state => (.ok state, state)

/-- Change the state. -/
def modify (change : σ → σ) : Effect σ ε Unit :=
  fun state => (.ok (), change state)

/-- Throw if a condition holds. -/
def refuse (condition : Bool) (error : ε) : Effect σ ε Unit :=
  lift (if condition then .error error else .ok ())

@[simp]
theorem pure_apply (value : α) (state : σ) :
    (pure value : Effect σ ε α) state = (.ok value, state) :=
  rfl

@[simp]
theorem lift_apply (result : Except ε α) (state : σ) :
    (lift result : Effect σ ε α) state = (result, state) :=
  rfl

@[simp]
theorem get_apply (state : σ) : (get : Effect σ ε σ) state = (.ok state, state) :=
  rfl

@[simp]
theorem modify_apply (change : σ → σ) (state : σ) :
    (modify change : Effect σ ε Unit) state = (.ok (), change state) :=
  rfl

/-- What follows a value that was returned. -/
theorem bind_of_ok {first : Effect σ ε α} {state middle : σ} {value : α}
    (returned : first state = (.ok value, middle)) (second : α → Effect σ ε β) :
    (first >>= second) state = second value middle := by
  change andThen first second state = _
  rw [andThen, returned]

/-- Nothing follows an exception. -/
theorem bind_of_error {first : Effect σ ε α} {state middle : σ} {error : ε}
    (thrown : first state = (.error error, middle)) (second : α → Effect σ ε β) :
    (first >>= second) state = (.error error, middle) := by
  change andThen first second state = _
  rw [andThen, thrown]

theorem bind_assoc {γ : Type} (first : Effect σ ε α) (second : α → Effect σ ε β)
    (third : β → Effect σ ε γ) :
    (first >>= second) >>= third = first >>= fun value => second value >>= third := by
  funext state
  rcases ran : first state with ⟨error | value, middle⟩
  · rw [bind_of_error ran, bind_of_error (bind_of_error ran second)]
  · rw [bind_of_ok ran]
    rcases ran' : second value middle with ⟨error | value', after⟩
    · have whole := (bind_of_ok ran second).trans ran'
      rw [bind_of_error ran', bind_of_error whole]
    · have whole := (bind_of_ok ran second).trans ran'
      rw [bind_of_ok ran', bind_of_ok whole]

/-- A sequence returns when both its halves do. -/
theorem bind_eq_ok {first : Effect σ ε α} {second : α → Effect σ ε β} {state target : σ}
    {result : β} : (first >>= second) state = (.ok result, target) ↔
      ∃ value middle, first state = (.ok value, middle) ∧
        second value middle = (.ok result, target) := by
  constructor
  · intro returned
    rcases ran : first state with ⟨error | value, middle⟩
    · rw [bind_of_error ran] at returned
      cases returned
    · rw [bind_of_ok ran] at returned
      exact ⟨value, middle, rfl, returned⟩
  · rintro ⟨value, middle, first, second⟩
    rw [bind_of_ok first, second]

theorem pure_eq_ok {value result : α} {state target : σ} :
    (pure value : Effect σ ε α) state = (.ok result, target) ↔ value = result ∧ state = target := by
  rw [pure_apply, Prod.mk.injEq, Except.ok.injEq]

theorem lift_eq_ok {result : Except ε α} {value : α} {state target : σ} :
    (lift result : Effect σ ε α) state = (.ok value, target) ↔
      result = .ok value ∧ state = target := by
  rw [lift_apply, Prod.mk.injEq]

theorem modify_eq_ok {change : σ → σ} {value : Unit} {state target : σ} :
    (modify change : Effect σ ε Unit) state = (.ok value, target) ↔ change state = target := by
  rw [modify_apply, Prod.mk.injEq]
  exact and_iff_right rfl

section Keeps

variable {ν : Type} {view : σ → ν}

/-- A procedure keeps a view of the state, also when it throws. -/
def Keeps (view : σ → ν) (procedure : Effect σ ε α) : Prop :=
  ∀ state, view (procedure state).2 = view state

theorem keeps_pure (value : α) : Keeps view (pure value : Effect σ ε α) :=
  fun _ => rfl

theorem keeps_lift (result : Except ε α) : Keeps view (lift result : Effect σ ε α) :=
  fun _ => rfl

theorem keeps_refuse (condition : Bool) (error : ε) :
    Keeps view (refuse condition error : Effect σ ε Unit) :=
  keeps_lift _

theorem keeps_get : Keeps view (get : Effect σ ε σ) :=
  fun _ => rfl

theorem keeps_modify {change : σ → σ} (kept : ∀ state, view (change state) = view state) :
    Keeps view (modify change : Effect σ ε Unit) :=
  kept

/-- A sequence keeps what both its halves keep. -/
theorem Keeps.bind {first : Effect σ ε α} {second : α → Effect σ ε β} (kept : Keeps view first)
    (kept' : ∀ value, Keeps view (second value)) : Keeps view (first >>= second) := by
  intro state
  rcases ran : first state with ⟨error | value, middle⟩
  · rw [bind_of_error ran, ← kept state, ran]
  · rw [bind_of_ok ran, kept' value middle, ← kept state, ran]

/-- A procedure chosen by a condition keeps what both candidates keep. -/
theorem Keeps.ite {condition : Prop} [Decidable condition] {first second : Effect σ ε α}
    (kept : Keeps view first) (kept' : Keeps view second) :
    Keeps view (if condition then first else second) := by
  split
  · exact kept
  · exact kept'

end Keeps

end Effect

end Quackhole.Transition
