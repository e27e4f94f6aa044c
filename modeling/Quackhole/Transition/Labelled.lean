import Mathlib.Logic.Basic

/-!
# Labelled partial transitions

A concurrent component is modelled by a partial function of a label and a
state: the label says which party moves and how its environment answers, and
the function is undefined where that move is not enabled.  A run is a finite
sequence of enabled labels.  The runs of interest are often those whose steps
all satisfy a side condition on the label and the state it is taken from, so
the side condition is a parameter of the run relation; the unrestricted runs
are the instance whose condition is always true.
-/

namespace Quackhole.Transition

universe u v

/-- A partial transition, undefined where the label is not enabled. -/
abbrev LStep (ι : Type u) (σ : Type v) := ι → σ → Option σ

variable {ι : Type u} {σ : Type v}

/-- Execute a list of labels.  A label that is not enabled makes the whole
execution undefined. -/
def exec (next : LStep ι σ) : List ι → σ → Option σ
  | [], state => some state
  | label :: labels, state => (next label state).bind (exec next labels)

@[simp]
theorem exec_nil (next : LStep ι σ) (state : σ) : exec next [] state = some state :=
  rfl

@[simp]
theorem exec_cons (next : LStep ι σ) (label : ι) (labels : List ι) (state : σ) :
    exec next (label :: labels) state = (next label state).bind (exec next labels) :=
  rfl

theorem exec_append (next : LStep ι σ) (first second : List ι) (state : σ) :
    exec next (first ++ second) state = (exec next first state).bind (exec next second) := by
  induction first generalizing state with
  | nil => rfl
  | cons label first ih =>
      rw [List.cons_append, exec_cons, exec_cons, Option.bind_assoc]
      exact Option.bind_congr fun middle _ => ih middle

/-- `target` is reached from `source` by steps that all satisfy `allowed`. -/
inductive Run (next : LStep ι σ) (allowed : ι → σ → Prop) (source : σ) : σ → Prop
  | refl : Run next allowed source source
  | tail {middle target : σ} {label : ι} :
      Run next allowed source middle → allowed label middle →
      next label middle = some target → Run next allowed source target

/-- The side condition every step satisfies. -/
def Any : ι → σ → Prop :=
  fun _ _ => True

/-- `target` is reached from `source` by enabled steps. -/
abbrev Reachable (next : LStep ι σ) (source target : σ) : Prop :=
  Run next Any source target

namespace Run

variable {next : LStep ι σ} {allowed : ι → σ → Prop} {source middle target : σ}

/-- One allowed step is a run. -/
theorem single {label : ι} (ok : allowed label source)
    (step : next label source = some target) : Run next allowed source target :=
  tail refl ok step

theorem trans (first : Run next allowed source middle)
    (second : Run next allowed middle target) : Run next allowed source target := by
  induction second with
  | refl => exact first
  | tail _ ok step ih => exact tail ih ok step

/-- A weaker side condition admits every run of a stronger one. -/
theorem mono {weaker : ι → σ → Prop} (run : Run next allowed source target)
    (weaken : ∀ label state, allowed label state → weaker label state) :
    Run next weaker source target := by
  induction run with
  | refl => exact refl
  | tail _ ok step ih => exact tail ih (weaken _ _ ok) step

/-- Forget the side condition. -/
theorem reachable (run : Run next allowed source target) : Reachable next source target :=
  run.mono fun _ _ _ => trivial

/-- A predicate that holds of the source and is preserved by every allowed step
holds of every state of the run. -/
theorem invariant (run : Run next allowed source target) (inv : σ → Prop)
    (initial : inv source)
    (preserved : ∀ label state state', allowed label state → inv state →
      next label state = some state' → inv state') : inv target := by
  induction run with
  | refl => exact initial
  | tail _ ok step ih => exact preserved _ _ _ ok ih step

end Run

/-- A successful execution of labels that are always allowed is a run. -/
theorem run_of_exec {next : LStep ι σ} {allowed : ι → σ → Prop} {labels : List ι}
    {source target : σ} (executed : exec next labels source = some target)
    (ok : ∀ label ∈ labels, ∀ state, allowed label state) : Run next allowed source target := by
  induction labels generalizing source with
  | nil =>
      have equal : source = target := Option.some.inj executed
      subst target
      exact Run.refl
  | cons label labels ih =>
      obtain ⟨middle, stepped, rest⟩ := Option.bind_eq_some_iff.mp executed
      exact (Run.single (ok label List.mem_cons_self source) stepped).trans
        (ih rest fun other member => ok other (List.mem_cons_of_mem _ member))

/-- Execute labels for as long as every step passes a test. -/
def execWhile (next : LStep ι σ) (test : ι → σ → Bool) : List ι → σ → Option σ
  | [], state => some state
  | label :: labels, state =>
      if test label state then (next label state).bind (execWhile next test labels) else none

theorem exec_of_execWhile {next : LStep ι σ} {test : ι → σ → Bool} {labels : List ι}
    {source target : σ} (executed : execWhile next test labels source = some target) :
    exec next labels source = some target := by
  induction labels generalizing source with
  | nil => exact executed
  | cons label labels ih =>
      rw [execWhile] at executed
      split at executed
      · obtain ⟨middle, stepped, rest⟩ := Option.bind_eq_some_iff.mp executed
        rw [exec_cons, stepped]
        exact ih rest
      · cases executed

/-- A successful tested execution is a run. -/
theorem run_of_execWhile {next : LStep ι σ} {test : ι → σ → Bool} {allowed : ι → σ → Prop}
    (tested : ∀ label state, test label state = true → allowed label state) {labels : List ι}
    {source target : σ} (executed : execWhile next test labels source = some target) :
    Run next allowed source target := by
  induction labels generalizing source with
  | nil =>
      obtain rfl := Option.some.inj executed
      exact Run.refl
  | cons label labels ih =>
      rw [execWhile] at executed
      split at executed
      · rename_i passed
        obtain ⟨middle, stepped, rest⟩ := Option.bind_eq_some_iff.mp executed
        exact (Run.single (tested label source passed) stepped).trans (ih rest)
      · cases executed

/-- One step is a run. -/
theorem reachable_of_next {next : LStep ι σ} {source target : σ} (label : ι)
    (step : next label source = some target) : Reachable next source target :=
  Run.single trivial step

/-- Every successful execution is a run. -/
theorem reachable_of_exec {next : LStep ι σ} {labels : List ι} {source target : σ}
    (executed : exec next labels source = some target) : Reachable next source target :=
  run_of_exec executed fun _ _ _ => trivial

/-- Whichever allowed steps are taken, the goal is reached: short of it one is enabled,
and after each of them it is still so. -/
inductive Inevitable (next : LStep ι σ) (allowed : ι → σ → Prop) (goal : σ → Prop) : σ → Prop
  | reached {state : σ} : goal state → Inevitable next allowed goal state
  | onward {state target : σ} {label : ι} :
      allowed label state → next label state = some target →
      (∀ label target, allowed label state → next label state = some target →
        Inevitable next allowed goal target) → Inevitable next allowed goal state

/-- Where every allowed step descends, and every state short of the goal has one, the
goal is inevitable. -/
theorem inevitable_of_enabled {next : LStep ι σ} {allowed : ι → σ → Prop} {inv : σ → Prop}
    (goal : σ → Prop)
    (descends : WellFounded fun target source =>
      ∃ label, allowed label source ∧ next label source = some target)
    (preserved : ∀ label state state', allowed label state → inv state → ¬ goal state →
      next label state = some state' → inv state')
    (enabled : ∀ state, inv state → ¬ goal state →
      ∃ label state', allowed label state ∧ next label state = some state')
    (source : σ) (holds : inv source) : Inevitable next allowed goal source := by
  induction source using descends.induction with
  | _ source ih =>
      by_cases reached : goal source
      · exact .reached reached
      · obtain ⟨label, middle, ok, step⟩ := enabled source holds reached
        exact .onward ok step fun label target ok step =>
          ih target ⟨label, ok, step⟩ (preserved _ _ _ ok holds reached step)

/-- Where every step descends, and every state short of the goal has an allowed
step, every run can be continued to the goal. -/
theorem exists_run_goal {next : LStep ι σ} {allowed : ι → σ → Prop} {inv : σ → Prop}
    (goal : σ → Prop)
    (descends : WellFounded fun target source => ∃ label, next label source = some target)
    (preserved : ∀ label state state', allowed label state → inv state →
      next label state = some state' → inv state')
    (enabled : ∀ state, inv state → ¬ goal state →
      ∃ label state', allowed label state ∧ next label state = some state')
    (source : σ) (holds : inv source) :
    ∃ target, Run next allowed source target ∧ inv target ∧ goal target := by
  induction source using descends.induction with
  | _ source ih =>
      by_cases reached : goal source
      · exact ⟨source, Run.refl, holds, reached⟩
      · obtain ⟨label, middle, ok, step⟩ := enabled source holds reached
        obtain ⟨target, rest, final⟩ := ih middle ⟨label, step⟩ (preserved _ _ _ ok holds step)
        exact ⟨target, (Run.single ok step).trans rest, final⟩

end Quackhole.Transition
