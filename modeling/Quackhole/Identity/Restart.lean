import Quackhole.Identity.Race

/-!
# Starting again after a failure

Whatever happened to earlier calls, a call that is left alone finds no file and
makes one, or finds a file and returns the key in it, or refuses it and leaves it
as it is.  A file that was created and not written to its end is of the last kind:
no start ever puts another key in its place.
-/

namespace Quackhole.Identity

open Quackhole.Word Quackhole.Transition

/-- What a call that is left alone does about the file it was started on. -/
inductive Alone (path : String) : Option Text → Option Text → Phase → Prop where
  | calling {file : Option Text} : Alone path file file .calling
  | loading {text : Text} : Alone path (some text) (some text) .loading
  | loaded {text : Text} : Alone path (some text) (some text) (.returned (loadKey path text))
  | making : Alone path none none .making
  | creating : Alone path none none .creating
  | writing {secret : SecretKey} {written rest : Text} (whole : written ++ rest = keyText secret) :
      Alone path none (some written) (.writing secret rest)
  | wrote {secret : SecretKey} :
      Alone path none (some (keyText secret)) (.returned (.ok secret))

/-- Every move of such a call goes on with it. -/
theorem Alone.step {path : String} {start file file' : Option Text} {phase phase' : Phase}
    {move : Move} (alone : Alone path start file phase) (noFail : move ≠ .fail)
    (moved : Moved path move file phase file' phase') : Alone path start file' phase' := by
  cases moved with
  | sawNothing => cases alone; exact .making
  | sawFile => cases alone; exact .loading
  | madeDir => cases alone; exact .creating
  | created => cases alone; exact .writing (List.nil_append _)
  | lostRace => cases alone
  | wrote positive part =>
      cases alone with
      | writing whole =>
          exact .writing (by rw [List.append_assoc, List.take_append_drop, whole])
  | wroteAll positive =>
      cases alone with
      | writing whole => rw [whole]; exact .wrote
  | loaded => cases alone; exact .loaded
  | failed => exact absurd rfl noFail

section Restart

variable {Process : Type} [DecidableEq Process] {path directory : String} {process : Process}
  {state final : KeyFile Process}

theorem Alone.exec {start : Option Text} {moves : List Move}
    (alone : Alone path start state.file (state.phase process))
    (noFail : ∀ move ∈ moves, move ≠ Move.fail)
    (executed : Transition.exec (nextKeyFile path directory) (moves.map (Prod.mk process)) state =
      some final) : Alone path start final.file (final.phase process) := by
  induction moves generalizing state with
  | nil =>
      cases executed
      exact alone
  | cons move moves ih =>
      rcases Option.bind_eq_some_iff.mp executed with ⟨middle, step, rest⟩
      rcases moved_of_next step with ⟨moved, -⟩
      exact ih (alone.step (noFail move List.mem_cons_self) moved)
        (fun other member => noFail other (List.mem_cons_of_mem _ member)) rest

/-- The moves of one process that nobody interferes with. -/
theorem exec_alone {moves : List Move} {file : Option Text} {phase : Phase}
    (called : Transition.exec (fun move (file, phase) => movePhase path directory move file phase)
      moves (state.file, state.phase process) = some (file, phase)) :
    Transition.exec (nextKeyFile path directory) (moves.map (Prod.mk process)) state =
      some ⟨file, Function.update state.phase process phase⟩ := by
  induction moves generalizing state with
  | nil =>
      cases called
      rw [Function.update_eq_self]
      rfl
  | cons move moves ih =>
      rcases Option.bind_eq_some_iff.mp called with ⟨⟨between, next⟩, moved, rest⟩
      have step := next_of_movePhase moved
      rw [List.map_cons, exec_cons, step, Option.bind_some, ih, Function.update_idem]
      dsimp only
      rw [Function.update_self]
      exact rest

variable (path directory) in
/-- A call that is left alone can come to its end. -/
theorem exists_alone (fresh : state.phase process = .calling) :
    ∃ (moves : List Move) (final : KeyFile Process) (result : Except String SecretKey),
      (∀ move ∈ moves, move ≠ .fail) ∧
      Transition.exec (nextKeyFile path directory) (moves.map (Prod.mk process)) state =
        some final ∧
      final.phase process = .returned result := by
  cases file : state.file with
  | none =>
      have called : Transition.exec (fun move (file, phase) =>
          movePhase path directory move file phase)
          [.exists, .createDir, .createPrivate zeroKey, .write (keyText zeroKey).length]
          (state.file, state.phase process) =
            some (some (keyText zeroKey), .returned (.ok zeroKey)) := by
        have all : (keyText zeroKey).take 64 = keyText zeroKey :=
          List.take_of_length_le (by rw [length_keyText])
        rw [file, fresh]
        simp [movePhase, all]
      exact ⟨_, _, _, by simp, exec_alone called, Function.update_self ..⟩
  | some text =>
      have called : Transition.exec (fun move (file, phase) =>
          movePhase path directory move file phase) [.exists, .loadKey]
          (state.file, state.phase process) = some (some text, .returned (loadKey path text)) := by
        rw [file, fresh]
        rfl
      exact ⟨_, _, _, by simp, exec_alone called, Function.update_self ..⟩

/-- Whatever was called before and however it ended, a call that is left alone returns
a key exactly when there is no file or all of a key is in it; that key is the one it
returns, and a file that is there stays as it is. -/
theorem restart_iff {labels : List (Process × Move)} {crashed : KeyFile Process}
    (executed : Transition.exec (nextKeyFile path directory) labels .absent = some crashed)
    (fresh : crashed.phase process = .calling) :
    (∃ (moves : List Move) (final : KeyFile Process) (result : Except String SecretKey),
      (∀ move ∈ moves, move ≠ .fail) ∧
      Transition.exec (nextKeyFile path directory) (moves.map (Prod.mk process)) crashed =
        some final ∧
      final.phase process = .returned result) ∧
    ∀ (moves : List Move) (final : KeyFile Process) (result : Except String SecretKey),
      (∀ move ∈ moves, move ≠ .fail) →
      Transition.exec (nextKeyFile path directory) (moves.map (Prod.mk process)) crashed =
        some final →
      final.phase process = .returned result →
      ((∃ secret, result = .ok secret) ↔
        crashed.file = none ∨ ∃ secret, crashed.file = some (keyText secret)) ∧
      (∀ secret, crashed.file = some (keyText secret) → result = .ok secret) ∧
      ∀ text, crashed.file = some text → final.file = some text := by
  refine ⟨exists_alone path directory fresh, fun moves final result noFail alone returned => ?_⟩
  have start : Alone path crashed.file crashed.file (crashed.phase process) := by
    rw [fresh]
    exact .calling
  have ended := start.exec noFail alone
  have sound := sound_absent.exec executed
  rw [returned] at ended
  cases sound with
  | absent noFile early =>
      rw [noFile] at ended ⊢
      generalize final.file = file at ended ⊢
      cases ended
      exact ⟨⟨fun _ => Or.inl rfl, fun _ => ⟨_, rfl⟩⟩, nofun, nofun⟩
  | @owned owner secret written rest file whole beside =>
      rw [file] at ended ⊢
      generalize final.file = file' at ended ⊢
      cases ended
      rcases loadKey_of_append path whole with ⟨rfl, read⟩ | ⟨more, message, read⟩
      · rw [List.append_nil] at whole
        subst whole
        rw [read]
        refine ⟨⟨fun _ => Or.inr ⟨secret, rfl⟩, fun _ => ⟨secret, rfl⟩⟩, fun other same => ?_,
          fun text same => same⟩
        rw [← read, Option.some.inj same, loadKey_keyText]
      · rw [read]
        have lengths := congrArg List.length whole
        rw [List.length_append, length_keyText] at lengths
        have positive := List.length_pos_iff.mpr more
        have part : ∀ other, some written ≠ some (keyText other) := by
          intro other same
          have length := congrArg List.length (Option.some.inj same)
          rw [length_keyText] at length
          omega
        refine ⟨⟨?_, ?_⟩, fun other same => absurd same (part other), fun text same => same⟩
        · rintro ⟨other, ⟨⟩⟩
        · rintro (⟨⟨⟩⟩ | ⟨other, same⟩)
          exact absurd same (part other)

/-- A start that dies before it created the file does no harm. -/
theorem restart_iff_early :
    ∃ crashed moves final secret,
      Transition.exec (nextKeyFile "/home/duck/.quackhole/key" "/home/duck/.quackhole")
        [(false, .exists), (false, .createDir)] .absent = some crashed ∧
      Transition.exec (nextKeyFile "/home/duck/.quackhole/key" "/home/duck/.quackhole")
        (List.map (Prod.mk true) moves) crashed = some final ∧
      final.phase true = .returned (.ok secret) := by
  have restart := @restart_iff Bool _ "/home/duck/.quackhole/key" "/home/duck/.quackhole" true
    [(false, .exists), (false, .createDir)] _ rfl rfl
  rcases restart.1 with ⟨moves, final, result, noFail, alone, returned⟩
  rcases (restart.2 moves final result noFail alone returned).1.mpr (Or.inl rfl) with
    ⟨secret, rfl⟩
  exact ⟨_, moves, final, secret, rfl, alone, returned⟩

/-- A start dies after it created the file, and the next one is refused. -/
theorem refused_after_lost_start :
    ∃ crashed final,
      Transition.exec (nextKeyFile "/home/duck/.quackhole/key" "/home/duck/.quackhole")
        [(false, .exists), (false, .createDir), (false, .createPrivate zeroKey)] .absent =
          some crashed ∧
      Transition.exec (nextKeyFile "/home/duck/.quackhole/key" "/home/duck/.quackhole")
        (List.map (Prod.mk true) [.exists, .loadKey]) crashed = some final ∧
      ∃ message, final.phase true = .returned (.error message) := by
  refine ⟨_, _, rfl, rfl, ?_⟩
  rcases exists_loadKey_eq_error "/home/duck/.quackhole/key" (show ([] : Text).length < 64 by decide)
    with ⟨message, read⟩
  exact ⟨message, congrArg Phase.returned read⟩

end Restart

end Quackhole.Identity
