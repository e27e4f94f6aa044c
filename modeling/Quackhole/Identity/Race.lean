import Quackhole.Identity.KeyFile

/-!
# Starts that race for the key file

Whatever the processes do, only the one that created the file writes to it, and
no call returns another key than its own.  What can go wrong is that somebody
reads the file while it is being written: that call fails, and it fails whenever
this happens.
-/

namespace Quackhole.Identity

open Quackhole.Word Quackhole.Transition

/-- What one move can do. -/
inductive Moved (path : String) : Move → Option Text → Phase → Option Text → Phase → Prop where
  | sawNothing : Moved path .exists none .calling none .making
  | sawFile {text : Text} : Moved path .exists (some text) .calling (some text) .loading
  | madeDir {file : Option Text} : Moved path .createDir file .making file .creating
  | created {secret : SecretKey} :
      Moved path (.createPrivate secret) none .creating (some []) (.writing secret (keyText secret))
  | lostRace {secret : SecretKey} {text : Text} :
      Moved path (.createPrivate secret) (some text) .creating (some text) .loading
  | wrote {count : Nat} {text rest : Text} {secret : SecretKey} (positive : 0 < count)
      (part : count < rest.length) :
      Moved path (.write count) (some text) (.writing secret rest)
        (some (text ++ rest.take count)) (.writing secret (rest.drop count))
  | wroteAll {text rest : Text} {secret : SecretKey} (positive : 0 < rest.length) :
      Moved path (.write rest.length) (some text) (.writing secret rest) (some (text ++ rest))
        (.returned (.ok secret))
  | loaded {text : Text} :
      Moved path .loadKey (some text) .loading (some text) (.returned (loadKey path text))
  | failed {file : Option Text} {phase : Phase} {message : String}
      (underway : ∀ result, phase ≠ .returned result) :
      Moved path .fail file phase file (.returned (.error message))

theorem moved_of_movePhase {path directory : String} {move : Move} {file file' : Option Text}
    {phase phase' : Phase}
    (moved : movePhase path directory move file phase = some (file', phase')) :
    Moved path move file phase file' phase' := by
  cases move with
  | «exists» =>
      cases phase <;> cases moved
      cases file with
      | none => exact .sawNothing
      | some text => exact .sawFile
  | createDir =>
      cases phase <;> cases moved
      exact .madeDir
  | createPrivate secret =>
      cases file with
      | none =>
          cases phase <;> cases moved
          exact .created
      | some text =>
          cases phase <;> cases moved
          exact .lostRace
  | write count =>
      cases file with
      | none => cases phase <;> cases moved
      | some text =>
          cases phase with
          | writing secret rest =>
              rw [movePhase] at moved
              split at moved
              · rename_i bounds
                by_cases last : count = rest.length
                · rw [if_pos last, last, List.take_length] at moved
                  cases moved
                  rw [last]
                  exact .wroteAll (last ▸ bounds.1)
                · rw [if_neg last] at moved
                  cases moved
                  exact .wrote bounds.1 (lt_of_le_of_ne bounds.2 last)
              · cases moved
          | _ => cases moved
  | loadKey =>
      cases file with
      | none => cases phase <;> cases moved
      | some text =>
          cases phase <;> cases moved
          exact .loaded
  | fail =>
      cases phase <;> cases moved
      all_goals exact .failed nofun

section Step

variable {Process : Type} [DecidableEq Process] {path directory : String} {process : Process}
  {move : Move} {state state' : KeyFile Process}

/-- A move is made by one process, and changes the phase of no other one. -/
theorem moved_of_next
    (step : nextKeyFile path directory (process, move) state = some state') :
    Moved path move state.file (state.phase process) state'.file (state'.phase process) ∧
      ∀ other, other ≠ process → state'.phase other = state.phase other := by
  rcases Option.map_eq_some_iff.mp step with ⟨⟨file, phase⟩, moved, rfl⟩
  dsimp only
  rw [Function.update_self]
  exact ⟨moved_of_movePhase moved, fun other different => Function.update_of_ne different ..⟩

/-- What holds of the phase of every process after a move. -/
theorem forall_phase {P : Process → Phase → Prop}
    (others : ∀ other, other ≠ process → state'.phase other = state.phase other)
    (own : P process (state'.phase process))
    (rest : ∀ other, other ≠ process → P other (state.phase other)) (other : Process) :
    P other (state'.phase other) := by
  by_cases same : other = process
  · exact same ▸ own
  · rw [others other same]
    exact rest other same

end Step

/-! ## One owner -/

/-- A call that has not come upon the file, or failed. -/
def Phase.Early : Phase → Prop
  | .calling | .making | .creating | .returned (.error _) => True
  | _ => False

/-- What a call may be doing while the owner of the file still has to write the
rest of its key. -/
def Phase.Beside (secret : SecretKey) (rest : Text) (isOwner : Prop) : Phase → Prop
  | .writing own more => isOwner ∧ own = secret ∧ more = rest ∧ rest ≠ []
  | .returned (.ok key) => key = secret ∧ rest = []
  | _ => True

/-- There is no file, or there is one process that writes to it and the file has the
part of its key that is written. -/
inductive Sound {Process : Type} (state : KeyFile Process) : Prop where
  | absent (noFile : state.file = none) (early : ∀ process, (state.phase process).Early)
  | owned {owner : Process} {secret : SecretKey} {written rest : Text}
      (file : state.file = some written) (whole : written ++ rest = keyText secret)
      (beside : ∀ process, (state.phase process).Beside secret rest (process = owner))

theorem sound_absent {Process : Type} : Sound (KeyFile.absent : KeyFile Process) :=
  .absent rfl fun _ => trivial

section Sound

variable {Process : Type} [DecidableEq Process] {path directory : String} {process : Process}
  {move : Move} {state state' : KeyFile Process}

/-- Early calls are beside whatever a new owner writes. -/
theorem Phase.Early.beside {phase : Phase} (early : phase.Early) (secret : SecretKey)
    (rest : Text) (isOwner : Prop) : phase.Beside secret rest isOwner := by
  cases phase with
  | writing _ _ => cases early
  | loading => trivial
  | returned result =>
      cases result with
      | ok _ => cases early
      | error _ => trivial
  | _ => trivial

/-- While there is something to write, a call that is beside one owner's rest is
beside another rest, unless it is writing itself. -/
theorem Phase.Beside.of_ne {secret : SecretKey} {rest rest' : Text} {isOwner : Prop}
    {phase : Phase} (beside : phase.Beside secret rest isOwner) (other : ¬ isOwner)
    (more : rest ≠ []) : phase.Beside secret rest' isOwner := by
  cases phase with
  | writing _ _ => exact absurd beside.1 other
  | loading => trivial
  | returned result =>
      cases result with
      | ok _ => exact absurd beside.2 more
      | error _ => trivial
  | _ => trivial

/-- What a whole or partial key loads as. -/
theorem loadKey_of_append (path : String) {secret : SecretKey} {written rest : Text}
    (whole : written ++ rest = keyText secret) :
    (rest = [] ∧ loadKey path written = .ok secret) ∨
      (rest ≠ [] ∧ ∃ message, loadKey path written = .error message) := by
  have lengths := congrArg List.length whole
  rw [List.length_append, length_keyText] at lengths
  cases rest with
  | nil =>
      rw [List.append_nil] at whole
      exact Or.inl ⟨rfl, by rw [whole, loadKey_keyText]⟩
  | cons c rest =>
      rw [List.length_cons] at lengths
      exact Or.inr ⟨nofun, exists_loadKey_eq_error path (by omega)⟩

/-- Every move keeps to one owner. -/
theorem Sound.step (sound : Sound state)
    (step : nextKeyFile path directory (process, move) state = some state') : Sound state' := by
  rcases moved_of_next step with ⟨moved, others⟩
  generalize oldPhase : state.phase process = phase at moved
  generalize newFile : state'.file = file' at moved
  generalize newPhase : state'.phase process = phase' at moved
  cases sound with
  | absent noFile early =>
      rw [noFile] at moved
      have ownEarly := early process
      rw [oldPhase] at ownEarly
      cases moved with
      | sawNothing | madeDir | failed =>
          apply Sound.absent newFile
          exact forall_phase (P := fun _ phase => phase.Early) others (by rw [newPhase]; trivial)
            fun other _ => early other
      | created =>
          rename_i secret
          have whole : [] ++ keyText secret = keyText secret := List.nil_append _
          apply Sound.owned newFile whole
          refine forall_phase others ?_ fun other _ => (early other).beside _ _ _
          rw [newPhase]
          refine ⟨rfl, rfl, rfl, fun empty => ?_⟩
          have length := length_keyText secret
          rw [empty] at length
          cases length
  | @owned owner secret written rest file whole beside =>
      rw [file] at moved
      have own := beside process
      rw [oldPhase] at own
      cases moved with
      | sawFile | madeDir | lostRace | failed =>
          apply Sound.owned newFile whole
          exact forall_phase others (by rw [newPhase]; trivial) fun other _ => beside other
      | @wrote count _ _ _ positive part =>
          rcases own with ⟨rfl, rfl, rfl, more⟩
          apply Sound.owned newFile
            (by rw [List.append_assoc, List.take_append_drop, whole])
          refine forall_phase others ?_ fun other different => (beside other).of_ne different more
          rw [newPhase]
          refine ⟨rfl, rfl, rfl, fun empty => ?_⟩
          rw [List.drop_eq_nil_iff] at empty
          omega
      | wroteAll positive =>
          rcases own with ⟨rfl, rfl, rfl, more⟩
          apply Sound.owned newFile (by rw [List.append_nil, whole])
          refine forall_phase others ?_ fun other different => (beside other).of_ne different more
          rw [newPhase]
          exact ⟨rfl, rfl⟩
      | loaded =>
          apply Sound.owned newFile whole
          refine forall_phase others ?_ fun other _ => beside other
          rw [newPhase]
          rcases loadKey_of_append path whole with ⟨rfl, read⟩ | ⟨-, message, read⟩
          · rw [read]
            exact ⟨rfl, rfl⟩
          · rw [read]
            trivial

theorem Sound.exec {labels : List (Process × Move)} (sound : Sound state)
    (executed : Transition.exec (nextKeyFile path directory) labels state = some state') :
    Sound state' := by
  apply (reachable_of_exec executed).invariant Sound sound
  rintro ⟨process, move⟩ before after - held step
  exact held.step step

end Sound

/-! ## Failures -/

/-- Some call returned an error. -/
def Failed {Process : Type} (state : KeyFile Process) : Prop :=
  ∃ process message, state.phase process = .returned (.error message)

/-- Every call that returned did so with one key, and the file holds that key. -/
def Agreed {Process : Type} (state : KeyFile Process) : Prop :=
  ∃ secret, ∀ process result, state.phase process = .returned result →
    result = .ok secret ∧ state.file = some (keyText secret)

/-- Nobody reads the file before all of the key is in it. -/
def readsWhole {Process : Type} : Process × Move → KeyFile Process → Bool :=
  fun (_, move) state =>
    match move with
    | .loadKey => state.file.map List.length == some 64
    | _ => true

/-- Without failures there is one key. -/
theorem Sound.agreed_iff {Process : Type} {state : KeyFile Process} (sound : Sound state) :
    Agreed state ↔ ¬ Failed state := by
  constructor
  · rintro ⟨secret, agreed⟩ ⟨process, message, failed⟩
    cases (agreed process _ failed).1
  · intro sane
    cases sound with
    | absent noFile early =>
        refine ⟨⟨List.replicate 32 0, rfl⟩, fun process result returned => ?_⟩
        have before := early process
        rw [returned] at before
        cases result with
        | ok secret => cases before
        | error message => exact absurd ⟨process, message, returned⟩ sane
    | @owned owner secret written rest file whole beside =>
        refine ⟨secret, fun process result returned => ?_⟩
        have own := beside process
        rw [returned] at own
        cases result with
        | ok key =>
            rcases own with ⟨rfl, rfl⟩
            rw [List.append_nil] at whole
            exact ⟨rfl, by rw [file, whole]⟩
        | error message => exact absurd ⟨process, message, returned⟩ sane

section Failed

variable {Process : Type} [DecidableEq Process] {path directory : String} {process : Process}
  {move : Move} {state state' final : KeyFile Process}

/-- A call that returned makes no moves. -/
theorem phase_ne_returned
    (step : nextKeyFile path directory (process, move) state = some state')
    (result : Except String SecretKey) : state.phase process ≠ .returned result := by
  rcases moved_of_next step with ⟨moved, -⟩
  intro returned
  rw [returned] at moved
  generalize state.file = file, state'.file = file', state'.phase process = phase at moved
  cases moved with
  | failed underway => exact underway result rfl

/-- Unless an operation fails, a move ends in an error exactly when it reads a part
of a key. -/
theorem exists_error_iff (sound : Sound state) (noFail : move ≠ .fail)
    (step : nextKeyFile path directory (process, move) state = some state') :
    (∃ message, state'.phase process = .returned (.error message)) ↔
      readsWhole (process, move) state = false := by
  rcases moved_of_next step with ⟨moved, -⟩
  generalize oldFile : state.file = file, state'.file = file' at moved
  generalize newPhase : state'.phase process = phase' at moved
  generalize oldPhase : state.phase process = phase at moved
  cases moved with
  | failed => exact absurd rfl noFail
  | @loaded text =>
      dsimp only [readsWhole]
      rw [oldFile, Option.map_some]
      cases sound with
      | absent noFile early =>
          rw [noFile] at oldFile
          cases oldFile
      | @owned owner secret written rest file whole beside =>
          rw [file] at oldFile
          obtain rfl := Option.some.inj oldFile
          have lengths := congrArg List.length whole
          rw [List.length_append, length_keyText] at lengths
          rcases loadKey_of_append path whole with ⟨rfl, read⟩ | ⟨more, message, read⟩
          · rw [read]
            constructor
            · rintro ⟨_, ⟨⟩⟩
            · intro part
              simp only [List.length_nil, Nat.add_zero] at lengths
              simp [lengths] at part
          · rw [read]
            have positive := List.length_pos_iff.mpr more
            have part : written.length ≠ 64 := by omega
            exact ⟨fun _ => by simpa using part, fun _ => ⟨message, rfl⟩⟩
  | _ =>
      constructor
      · rintro ⟨_, ⟨⟩⟩
      · rintro ⟨⟩

/-- The first failure is a read of a part of a key. -/
theorem failed_step_iff (sound : Sound state) (noFail : move ≠ .fail)
    (step : nextKeyFile path directory (process, move) state = some state') :
    Failed state' ↔ Failed state ∨ readsWhole (process, move) state = false := by
  rcases moved_of_next step with ⟨-, others⟩
  rw [← exists_error_iff sound noFail step]
  constructor
  · rintro ⟨other, message, failed⟩
    by_cases same : other = process
    · subst same
      exact Or.inr ⟨message, failed⟩
    · rw [others other same] at failed
      exact Or.inl ⟨other, message, failed⟩
  · rintro (⟨other, message, failed⟩ | ⟨message, failed⟩)
    · have different : other ≠ process := by
        rintro rfl
        exact phase_ne_returned step _ failed
      exact ⟨other, message, by rw [others other different, failed]⟩
    · exact ⟨process, message, failed⟩

/-- A run without failing operations ends without an error exactly when it began
without one and nobody read a part of a key. -/
theorem not_failed_iff {labels : List (Process × Move)} (sound : Sound state)
    (noFail : ∀ process, (process, Move.fail) ∉ labels)
    (executed : exec (nextKeyFile path directory) labels state = some final) :
    ¬ Failed final ↔ ¬ Failed state ∧
      execWhile (nextKeyFile path directory) readsWhole labels state = some final := by
  induction labels generalizing state with
  | nil =>
      cases executed
      simp [execWhile]
  | cons label labels ih =>
      rcases label with ⟨process, move⟩
      rcases Option.bind_eq_some_iff.mp executed with ⟨middle, step, rest⟩
      have fine : move ≠ .fail := by
        rintro rfl
        exact noFail process List.mem_cons_self
      have later := ih (sound.step step)
        (fun other member => noFail other (List.mem_cons_of_mem _ member)) rest
      rw [later, failed_step_iff sound fine step, execWhile]
      cases readsWhole (process, move) state with
      | true => simp [step]
      | false => simp

end Failed

/-! ## Everybody returns -/

/-- A move that does not fail, and reads no part of a key. -/
def Quiet {Process : Type} (label : Process × Move) (state : KeyFile Process) : Prop :=
  label.2 ≠ .fail ∧ readsWhole label state = true

/-- A race nobody has lost: whoever created the file goes on writing it. -/
structure Racing {Process : Type} (state : KeyFile Process) : Prop where
  sound : Sound state
  sane : ¬ Failed state
  written : ∀ text, state.file = some text → text.length < 64 →
    ∃ owner secret rest, state.phase owner = .writing secret rest

theorem racing_absent {Process : Type} : Racing (KeyFile.absent : KeyFile Process) where
  sound := sound_absent
  sane := by
    rintro ⟨process, message, ⟨⟩⟩
  written := nofun

theorem quiet_of_ne {Process : Type} {move : Move} (process : Process) (state : KeyFile Process)
    (noFail : move ≠ .fail) (noRead : move ≠ .loadKey) : Quiet (process, move) state := by
  refine ⟨noFail, ?_⟩
  cases move with
  | loadKey => exact absurd rfl noRead
  | _ => rfl

section Racing

variable {Process : Type} [DecidableEq Process] {path directory : String} {process : Process}
  {move : Move} {state state' done : KeyFile Process}

theorem Racing.step (racing : Racing state) (quiet : Quiet (process, move) state)
    (step : nextKeyFile path directory (process, move) state = some state') : Racing state' := by
  refine ⟨racing.sound.step step, ?_, ?_⟩
  · rw [failed_step_iff racing.sound quiet.1 step, quiet.2]
    rintro (failed | ⟨⟨⟩⟩)
    exact racing.sane failed
  · rcases moved_of_next step with ⟨moved, others⟩
    intro text file short
    generalize oldFile : state.file = before at moved
    generalize oldPhase : state.phase process = phase at moved
    generalize newPhase : state'.phase process = phase' at moved
    rw [file] at moved
    have kept : (∀ secret rest, phase ≠ .writing secret rest) → before = some text →
        ∃ owner secret rest, state'.phase owner = .writing secret rest := by
      rintro other same
      rcases racing.written text (oldFile.trans same) short with ⟨owner, secret, rest, writing⟩
      refine ⟨owner, secret, rest, ?_⟩
      rw [others owner, writing]
      rintro rfl
      exact other secret rest (oldPhase.symm.trans writing)
    cases moved with
    | created => exact ⟨process, _, _, newPhase⟩
    | wrote => exact ⟨process, _, _, newPhase⟩
    | @wroteAll before rest secret positive =>
        cases racing.sound with
        | absent noFile early =>
            rw [noFile] at oldFile
            cases oldFile
        | @owned owner secret written rest' present whole beside =>
            have own := beside process
            rw [oldPhase] at own
            rcases own with ⟨-, -, rfl, -⟩
            rw [present] at oldFile
            obtain rfl := Option.some.inj oldFile
            have lengths := congrArg List.length whole
            rw [length_keyText] at lengths
            omega
    | failed => exact absurd rfl quiet.1
    | _ => exact kept nofun rfl

theorem Racing.run (racing : Racing state)
    (run : Run (nextKeyFile path directory) Quiet state state') : Racing state' := by
  apply run.invariant Racing racing
  rintro ⟨process, move⟩ middle next quiet between step
  exact between.step quiet step

theorem Racing.execWhile {labels : List (Process × Move)} (racing : Racing state)
    (noFail : ∀ process, (process, Move.fail) ∉ labels)
    (executed : Transition.execWhile (nextKeyFile path directory) readsWhole labels state =
      some done) : Racing done := by
  induction labels generalizing state with
  | nil =>
      cases executed
      exact racing
  | cons label labels ih =>
      rcases label with ⟨process, move⟩
      rw [Transition.execWhile] at executed
      split at executed
      · rename_i whole
        rcases Option.bind_eq_some_iff.mp executed with ⟨middle, step, rest⟩
        have fine : move ≠ .fail := by
          rintro rfl
          exact noFail process List.mem_cons_self
        exact ih (racing.step ⟨fine, whole⟩ step)
          (fun other member => noFail other (List.mem_cons_of_mem _ member)) rest
      · cases executed

theorem next_of_movePhase {file : Option Text} {phase : Phase}
    (moved : movePhase path directory move state.file (state.phase process) = some (file, phase)) :
    nextKeyFile path directory (process, move) state =
      some ⟨file, Function.update state.phase process phase⟩ := by
  rw [nextKeyFile]
  dsimp only
  rw [moved, Option.map_some]

variable (path directory) in
/-- The call of a process can be brought to its end, and returns a key. -/
def Returns (process : Process) (state : KeyFile Process) : Prop :=
  ∃ done secret, Run (nextKeyFile path directory) Quiet state done ∧
    done.phase process = .returned (.ok secret)

/-- One move towards the end of a call. -/
theorem Racing.advance (racing : Racing state) (quiet : Quiet (process, move) state)
    {file : Option Text} {phase : Phase}
    (moved : movePhase path directory move state.file (state.phase process) = some (file, phase))
    (rest : ∀ middle : KeyFile Process, Racing middle → middle.file = file →
      middle.phase process = phase → Returns path directory process middle) :
    Returns path directory process state := by
  have step := next_of_movePhase moved
  rcases rest _ (racing.step quiet step) rfl (Function.update_self ..) with
    ⟨done, secret, run, returned⟩
  exact ⟨done, secret, (Run.single quiet step).trans run, returned⟩

variable (path directory) in
/-- The owner of the file can write the rest of its key and return. -/
theorem Racing.finishes (racing : Racing state) {secret : SecretKey} {rest : Text}
    (writing : state.phase process = .writing secret rest) :
    ∃ done, Run (nextKeyFile path directory) Quiet state done ∧
      done.file = some (keyText secret) ∧
      done.phase = Function.update state.phase process (.returned (.ok secret)) := by
  cases racing.sound with
  | absent noFile early =>
      have own := early process
      rw [writing] at own
      cases own
  | @owned owner _ written _ file whole beside =>
      have own := beside process
      rw [writing] at own
      rcases own with ⟨-, rfl, rfl, more⟩
      have moved : movePhase path directory (.write rest.length) state.file
          (state.phase process) = some (some (written ++ rest), .returned (.ok secret)) := by
        rw [file, writing, movePhase, if_pos ⟨List.length_pos_iff.mpr more, Nat.le_refl _⟩,
          if_pos rfl, List.take_length]
      refine ⟨_, Run.single ?_ (next_of_movePhase moved), by rw [whole], rfl⟩
      exact quiet_of_ne process state nofun nofun

variable (path directory) in
/-- A process that comes to a file with all of a key in it loads the key. -/
theorem returns_of_whole {secret : SecretKey} (file : state.file = some (keyText secret))
    (loading : state.phase process = .loading) : Returns path directory process state := by
  have moved : movePhase path directory .loadKey state.file (state.phase process) =
      some (some (keyText secret), .returned (.ok secret)) := by
    rw [file, loading, movePhase, loadKey_keyText]
  have quiet : Quiet (process, .loadKey) state := by
    refine ⟨nofun, ?_⟩
    rw [readsWhole, file, Option.map_some, length_keyText]
    rfl
  exact ⟨_, secret, Run.single quiet (next_of_movePhase moved), Function.update_self ..⟩

variable (path directory) in
/-- A process that comes to a file can wait until all of the key is in it. -/
theorem Racing.loads (racing : Racing state) (loading : state.phase process = .loading) :
    Returns path directory process state := by
  cases racing.sound with
  | absent noFile early =>
      have own := early process
      rw [loading] at own
      cases own
  | @owned _ secret written rest file joined beside =>
      cases rest with
      | nil =>
          rw [List.append_nil] at joined
          exact returns_of_whole path directory (file.trans (congrArg some joined)) loading
      | cons c rest =>
          have lengths := congrArg List.length joined
          rw [List.length_append, length_keyText, List.length_cons] at lengths
          rcases racing.written written file (by omega) with ⟨owner, key, more, writing⟩
          have different : process ≠ owner := by
            rintro rfl
            rw [loading] at writing
            cases writing
          rcases racing.finishes path directory writing with ⟨middle, first, complete, phases⟩
          have still : middle.phase process = .loading := by
            rw [phases, Function.update_of_ne different, loading]
          rcases returns_of_whole path directory complete still with ⟨done, key, second, returned⟩
          exact ⟨done, key, first.trans second, returned⟩

variable (path directory) in
theorem Racing.writes (racing : Racing state) {secret : SecretKey} {rest : Text}
    (writing : state.phase process = .writing secret rest) :
    Returns path directory process state := by
  rcases racing.finishes path directory writing with ⟨done, run, -, phases⟩
  exact ⟨done, secret, run, by rw [phases, Function.update_self]⟩

variable (path directory) in
theorem Racing.creates (racing : Racing state) (creating : state.phase process = .creating) :
    Returns path directory process state := by
  have quiet : ∀ secret, Quiet (process, .createPrivate secret) state := fun secret =>
    quiet_of_ne process state nofun nofun
  cases file : state.file with
  | none =>
      apply racing.advance (quiet ⟨List.replicate 32 0, rfl⟩) (by rw [file, creating, movePhase])
      intro middle also _ phase
      exact also.writes path directory phase
  | some text =>
      apply racing.advance (quiet ⟨List.replicate 32 0, rfl⟩) (by rw [file, creating, movePhase])
      intro middle also _ phase
      exact also.loads path directory phase

variable (path directory) in
theorem Racing.makes (racing : Racing state) (making : state.phase process = .making) :
    Returns path directory process state := by
  have moved : movePhase path directory .createDir state.file (state.phase process) =
      some (state.file, .creating) := by
    rw [making, movePhase]
  have quiet : Quiet (process, .createDir) state := quiet_of_ne process state nofun nofun
  apply racing.advance quiet moved
  intro middle also _ phase
  exact also.creates path directory phase

variable (path directory) in
/-- From anywhere in a race that nobody has lost, every call can be brought to its
end, and returns a key. -/
theorem Racing.returns (racing : Racing state) (process : Process) :
    Returns path directory process state := by
  cases phase : state.phase process with
  | calling =>
      have moved : movePhase path directory .exists state.file (state.phase process) =
          some (state.file, if state.file.isSome then .loading else .making) := by
        rw [phase, movePhase]
      have quiet : Quiet (process, .exists) state := quiet_of_ne process state nofun nofun
      apply racing.advance quiet moved
      intro middle also _ next
      split at next
      · exact also.loads path directory next
      · exact also.makes path directory next
  | making => exact racing.makes path directory phase
  | creating => exact racing.creates path directory phase
  | writing secret rest => exact racing.writes path directory phase
  | loading => exact racing.loads path directory phase
  | returned result =>
      cases result with
      | ok secret => exact ⟨state, secret, .refl, phase⟩
      | error message => exact absurd ⟨process, message, phase⟩ racing.sane

end Racing

/-! ## The race -/

section Race

variable {Process : Type} [DecidableEq Process] {path directory : String}

/-- Unless an operation fails, all calls of a race return one key, which the file then
holds, exactly when nobody read the file before all of the key was in it; and then
every call that is still under way can be brought to its end. -/
theorem one_identity_iff {labels : List (Process × Move)} {final : KeyFile Process}
    (executed : exec (nextKeyFile path directory) labels .absent = some final)
    (noFail : ∀ process, (process, Move.fail) ∉ labels) :
    (Agreed final ↔
        execWhile (nextKeyFile path directory) readsWhole labels .absent = some final) ∧
      (Agreed final → ∀ process, ∃ done, Agreed done ∧
        Run (nextKeyFile path directory) Quiet final done ∧
        ∃ secret, done.phase process = .returned (.ok secret)) := by
  have sound := sound_absent.exec executed
  have sane := not_failed_iff sound_absent noFail executed
  have begins := (@racing_absent Process).sane
  have whole : Agreed final ↔
      execWhile (nextKeyFile path directory) readsWhole labels .absent = some final := by
    rw [sound.agreed_iff, sane, and_iff_right begins]
  refine ⟨whole, fun agreed process => ?_⟩
  have racing := racing_absent.execWhile noFail (whole.mp agreed)
  rcases racing.returns path directory process with ⟨done, secret, run, returned⟩
  have ends := racing.run run
  exact ⟨done, ends.sound.agreed_iff.mpr ends.sane, run, secret, returned⟩

/-- A key of zeros. -/
def zeroKey : SecretKey :=
  ⟨List.replicate 32 0, rfl⟩

/-- Two starts, of which the second reads the file after all of the key was written. -/
def patientStart : List (Bool × Move) :=
  [(false, .exists), (true, .exists), (false, .createDir), (true, .createDir),
    (false, .createPrivate zeroKey), (true, .createPrivate zeroKey), (false, .write 40),
    (false, .write 24), (true, .loadKey)]

theorem one_identity_iff_patient :
    ∃ final, exec (nextKeyFile "/home/duck/.quackhole/key" "/home/duck/.quackhole") patientStart
      .absent = some final ∧ Agreed final := by
  have patient : (execWhile (nextKeyFile "/home/duck/.quackhole/key" "/home/duck/.quackhole")
      readsWhole patientStart .absent).isSome := by
    decide +kernel
  rcases Option.isSome_iff_exists.mp patient with ⟨final, whole⟩
  have executed := exec_of_execWhile whole
  have noFail : ∀ process, (process, Move.fail) ∉ patientStart := by
    rintro process member
    simp [patientStart] at member
  exact ⟨final, executed, (one_identity_iff executed noFail).1.mpr whole⟩

/-- Two starts, of which the second reads the file while the first one has written none
of its key. -/
theorem hasty_start_fails :
    ∃ final, exec (nextKeyFile "/home/duck/.quackhole/key" "/home/duck/.quackhole")
        [(false, .exists), (true, .exists), (false, .createDir), (true, .createDir),
          (false, .createPrivate zeroKey), (true, .createPrivate zeroKey), (true, .loadKey)]
        .absent = some final ∧ ¬ Agreed final := by
  refine ⟨_, rfl, ?_⟩
  rintro ⟨secret, agreed⟩
  have loaded := (agreed true _ rfl).1
  have long := length_of_loadKey loaded
  cases long

end Race

end Quackhole.Identity
