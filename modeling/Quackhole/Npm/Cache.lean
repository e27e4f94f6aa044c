import Quackhole.Transition.Labelled
import Quackhole.Word.Text
import Mathlib.Logic.Function.Basic

/-!
# The cache of the command line client

Each run of the client looks for the extension in a cache, and else downloads it,
writes it beside its place and renames it.  Any number of runs do so at the same
time, and each can be killed at any point; a later run that has the same process id
may find what an earlier one left.
-/

namespace Quackhole.Npm.Cache

open Quackhole.Word Quackhole.Transition

/-- What decides which binary is correct. -/
structure Key where
  version : Text
  target : Text
  single : '/' ∉ version

@[ext]
theorem Key.ext {first second : Key} (version : first.version = second.version)
    (target : first.target = second.target) : first = second := by
  cases first
  cases second
  cases version
  cases target
  rfl

def extensionName : Text :=
  "/quackhole.duckdb_extension".toList

/-- `cached`: the file has a name of its own, so the key is in the path. -/
def cachedPath (cacheDir : Text) (key : Key) : Text :=
  cacheDir ++ '/' :: (key.version ++ '/' :: (key.target ++ extensionName))

/-- `${cached}.${process.pid}.part`. -/
def partPath (cacheDir : Text) (key : Key) (pid : Nat) : Text :=
  cachedPath cacheDir key ++ '.' :: decimal pid ++ ".part".toList

/-- Where `extensionPath` stands, and the binary that is loaded after it. -/
inductive Phase where
  /-- About to look for the file in the cache. -/
  | looking
  | fetching
  /-- The response is there; about to make the directory. -/
  | making
  | opening
  /-- The rest is still to be written. -/
  | writing (rest : Bytes)
  | loading
  | loaded (binary : Option Bytes)

structure World where
  files : Text → Option Bytes
  /-- The run that has this process id, if there is one. -/
  runs : Nat → Option (Key × Phase)

/-- What a process does next. -/
inductive Move where
  | start (key : Key)
  | stat
  /-- The download is complete. -/
  | fetch
  | mkdir
  | open
  | write (count : Nat)
  | rename
  | load
  /-- It is killed, or dies of an error. -/
  | stop

section Next

variable (cacheDir : Text) (asset : Key → Bytes)

/-- One move of a run: the files and the phase after it. -/
def act (pid : Nat) (key : Key) : Move → (Text → Option Bytes) → Phase →
    Option ((Text → Option Bytes) × Phase)
  | .stat, files, .looking =>
      some (files, if (files (cachedPath cacheDir key)).isSome then .loading else .fetching)
  | .fetch, files, .fetching => some (files, .making)
  | .mkdir, files, .making => some (files, .opening)
  | .open, files, .opening =>
      -- a file of this name that is left is emptied
      some (Function.update files (partPath cacheDir key pid) (some []), .writing (asset key))
  | .write count, files, .writing rest =>
      if 0 < count ∧ count ≤ rest.length then
        (files (partPath cacheDir key pid)).map fun written =>
          (Function.update files (partPath cacheDir key pid) (some (written ++ rest.take count)),
            .writing (rest.drop count))
      else none
  | .rename, files, .writing [] =>
      (files (partPath cacheDir key pid)).map fun written =>
        (Function.update (Function.update files (partPath cacheDir key pid) none)
          (cachedPath cacheDir key) (some written), .loading)
  | .load, files, .loading => some (files, .loaded (files (cachedPath cacheDir key)))
  | _, _, _ => none

/-- One move of a run that goes on. -/
def goOn (pid : Nat) (move : Move) (world : World) : Option World :=
  (world.runs pid).bind fun run =>
    (act cacheDir asset pid run.1 move world.files run.2).map fun acted =>
      ⟨acted.1, Function.update world.runs pid (some (run.1, acted.2))⟩

/-- One move of the process with an id. -/
def next : LStep (Nat × Move) World
  | (pid, .start key), world =>
      match world.runs pid with
      | none => some { world with runs := Function.update world.runs pid (some (key, .looking)) }
      | some _ => none
  | (pid, .stop), world =>
      (world.runs pid).map fun _ => { world with runs := Function.update world.runs pid none }
  | (pid, move), world => goOn cacheDir asset pid move world

end Next

/-- Nothing was downloaded yet, and nothing runs. -/
def World.blank : World :=
  ⟨fun _ => none, fun _ => none⟩

/-! ## The paths -/

section Paths

variable {cacheDir : Text}

theorem cachedPath_injective {first second : Key}
    (same : cachedPath cacheDir first = cachedPath cacheDir second) : first = second := by
  rw [cachedPath, cachedPath] at same
  have rest := List.tail_eq_of_cons_eq (List.append_cancel_left same)
  have split := congrArg (splitOnce '/') rest
  rw [splitOnce_append first.single, splitOnce_append second.single] at split
  obtain ⟨version, ends⟩ := Prod.mk.inj (Option.some.inj split)
  exact Key.ext version (List.append_cancel_right ends)

theorem dot_notMem_decimal (n : Nat) : '.' ∉ decimal n := by
  intro member
  exact absurd (isDigit_of_mem_decimal member) (by decide)

theorem partPath_injective {first second : Key} {pid other : Nat}
    (same : partPath cacheDir first pid = partPath cacheDir second other) :
    first = second ∧ pid = other := by
  have back := congrArg List.reverse (List.append_cancel_right same)
  rw [List.reverse_append, List.reverse_append, List.reverse_cons, List.reverse_cons,
    List.append_assoc, List.append_assoc] at back
  have split := congrArg (splitOnce '.') back
  rw [List.singleton_append, List.singleton_append,
    splitOnce_append fun member => dot_notMem_decimal pid (List.mem_reverse.mp member),
    splitOnce_append fun member => dot_notMem_decimal other (List.mem_reverse.mp member)] at split
  obtain ⟨digits, path⟩ := Prod.mk.inj (Option.some.inj split)
  refine ⟨cachedPath_injective (List.reverse_injective path), ?_⟩
  have value := congrArg (digitsValue 10 0) (List.reverse_injective digits)
  rw [digitsValue_decimal, digitsValue_decimal] at value
  exact Option.some.inj value

/-- What is being written is never under the name of a binary. -/
theorem partPath_ne_cachedPath (first second : Key) (pid : Nat) :
    partPath cacheDir first pid ≠ cachedPath cacheDir second := by
  intro same
  have part : (partPath cacheDir first pid).getLast? = some 't' := by
    rw [partPath, List.getLast?_append]
    rfl
  have name : (cachedPath cacheDir second).getLast? = some 'n' := by
    rw [cachedPath, ← List.cons_append, ← List.append_assoc, ← List.cons_append, ← List.append_assoc,
      List.getLast?_append]
    rfl
  rw [same, name] at part
  cases part

end Paths

/-! ## What every run keeps -/

section Invariant

variable {cacheDir : Text} {asset : Key → Bytes}

/-- What the files are to a run, by how far it has come. -/
def Phase.Kept (cacheDir : Text) (asset : Key → Bytes) (files : Text → Option Bytes) (pid : Nat)
    (key : Key) : Phase → Prop
  | .writing rest => ∃ written, files (partPath cacheDir key pid) = some written ∧
      written ++ rest = asset key
  | .loading => files (cachedPath cacheDir key) = some (asset key)
  | .loaded binary => binary = some (asset key)
  | .looking | .fetching | .making | .opening => True

/-- What is in the cache is whole, and every run knows what it has written. -/
structure World.Sound (cacheDir : Text) (asset : Key → Bytes) (world : World) : Prop where
  whole : ∀ key binary, world.files (cachedPath cacheDir key) = some binary → binary = asset key
  kept : ∀ pid key phase, world.runs pid = some (key, phase) →
    phase.Kept cacheDir asset world.files pid key

/-- A run keeps what it knows when the cache grows and its own file stays. -/
theorem Phase.Kept.mono {files later : Text → Option Bytes} {pid : Nat} {key : Key}
    {phase : Phase} (kept : phase.Kept cacheDir asset files pid key)
    (own : later (partPath cacheDir key pid) = files (partPath cacheDir key pid))
    (cached : files (cachedPath cacheDir key) = some (asset key) →
      later (cachedPath cacheDir key) = some (asset key)) :
    phase.Kept cacheDir asset later pid key := by
  cases phase with
  | writing rest =>
      rcases kept with ⟨written, there, whole⟩
      exact ⟨written, own.trans there, whole⟩
  | loading => exact cached kept
  | loaded binary => exact kept
  | looking | fetching | making | opening => trivial

/-- What a move does: the binaries stay whole, the run keeps what it knows, and the files
of other runs stay. -/
structure Moves (cacheDir : Text) (asset : Key → Bytes) (pid : Nat) (key : Key)
    (files later : Text → Option Bytes) (phase : Phase) : Prop where
  kept : phase.Kept cacheDir asset later pid key
  cached : ∀ other, later (cachedPath cacheDir other) = files (cachedPath cacheDir other) ∨
    later (cachedPath cacheDir other) = some (asset other)
  others : ∀ other pid', pid' ≠ pid →
    later (partPath cacheDir other pid') = files (partPath cacheDir other pid')

theorem Moves.same {pid : Nat} {key : Key} {files : Text → Option Bytes} {phase : Phase}
    (kept : phase.Kept cacheDir asset files pid key) :
    Moves cacheDir asset pid key files files phase :=
  ⟨kept, fun _ => Or.inl rfl, fun _ _ _ => rfl⟩

/-- A run that writes to its own file touches nothing else. -/
theorem Moves.own {pid : Nat} {key : Key} {files : Text → Option Bytes} {phase : Phase}
    {content : Option Bytes}
    (kept : phase.Kept cacheDir asset
      (Function.update files (partPath cacheDir key pid) content) pid key) :
    Moves cacheDir asset pid key files
      (Function.update files (partPath cacheDir key pid) content) phase := by
  refine ⟨kept, fun other => Or.inl ?_, fun other pid' different => ?_⟩
  · exact Function.update_of_ne (partPath_ne_cachedPath key other pid).symm _ _
  · exact Function.update_of_ne (fun same => different (partPath_injective same).2) _ _

theorem moves_of_act {pid : Nat} {key : Key} {move : Move} {files later : Text → Option Bytes}
    {phase phase' : Phase} (kept : phase.Kept cacheDir asset files pid key)
    (whole : ∀ binary, files (cachedPath cacheDir key) = some binary → binary = asset key)
    (acts : act cacheDir asset pid key move files phase = some (later, phase')) :
    Moves cacheDir asset pid key files later phase' := by
  unfold act at acts
  split at acts
  · -- it looks into the cache
    cases acts
    apply Moves.same
    cases found : files (cachedPath cacheDir key) with
    | none => trivial
    | some binary => exact found.trans (congrArg some (whole binary found))
  · cases acts
    exact Moves.same trivial
  · cases acts
    exact Moves.same trivial
  · cases acts
    apply Moves.own
    exact ⟨[], Function.update_self _ _ _, rfl⟩
  · rename_i rest
    split at acts
    · rcases kept with ⟨written, there, complete⟩
      rw [there] at acts
      cases acts
      apply Moves.own
      refine ⟨_, Function.update_self _ _ _, ?_⟩
      rw [List.append_assoc, List.take_append_drop, complete]
    · cases acts
  · -- it renames what it has written, which is all of it
    rcases kept with ⟨written, there, complete⟩
    rw [List.append_nil] at complete
    rw [there] at acts
    cases acts
    subst complete
    refine ⟨Function.update_self _ _ _, fun other => ?_, fun other pid' different => ?_⟩
    · by_cases same : cachedPath cacheDir other = cachedPath cacheDir key
      · obtain rfl := cachedPath_injective same
        exact Or.inr (Function.update_self _ _ _)
      · rw [Function.update_of_ne same,
          Function.update_of_ne (partPath_ne_cachedPath key other pid).symm]
        exact Or.inl rfl
    · rw [Function.update_of_ne (partPath_ne_cachedPath other key pid'),
        Function.update_of_ne fun same => different (partPath_injective same).2]
  · cases acts
    exact Moves.same kept
  · cases acts

namespace World.Sound

variable {world later : World}

/-- A run moves. -/
theorem moves (sound : world.Sound cacheDir asset) {pid : Nat} {key : Key}
    {files : Text → Option Bytes} {phase : Phase}
    (moves : Moves cacheDir asset pid key world.files files phase) :
    World.Sound cacheDir asset ⟨files, Function.update world.runs pid (some (key, phase))⟩ := by
  have grows : ∀ other, world.files (cachedPath cacheDir other) = some (asset other) →
      files (cachedPath cacheDir other) = some (asset other) := by
    intro other there
    rcases moves.cached other with same | whole
    · exact same.trans there
    · exact whole
  constructor
  · intro other binary there
    rcases moves.cached other with same | whole
    · exact sound.whole other binary (same.symm.trans there)
    · exact Option.some.inj (there.symm.trans whole)
  · intro pid' other phase' found
    by_cases same : pid' = pid
    · subst same
      dsimp only at found
      rw [Function.update_self] at found
      obtain ⟨rfl, rfl⟩ := Prod.mk.inj (Option.some.inj found)
      exact moves.kept
    · dsimp only at found
      rw [Function.update_of_ne same] at found
      exact (sound.kept pid' other phase' found).mono (moves.others other pid' same) (grows other)

/-- Whether a process begins or ends, the files are as they were. -/
theorem update (sound : world.Sound cacheDir asset) (pid : Nat) {run : Option (Key × Phase)}
    (fresh : ∀ key phase, run = some (key, phase) → phase = .looking) :
    World.Sound cacheDir asset { world with runs := Function.update world.runs pid run } := by
  refine ⟨sound.whole, fun pid' key phase found => ?_⟩
  by_cases same : pid' = pid
  · subst same
    dsimp only at found
    rw [Function.update_self] at found
    obtain rfl := fresh key phase found
    trivial
  · dsimp only at found
    rw [Function.update_of_ne same] at found
    exact sound.kept pid' key phase found

theorem next (sound : world.Sound cacheDir asset) {label : Nat × Move}
    (stepped : next cacheDir asset label world = some later) : later.Sound cacheDir asset := by
  rcases label with ⟨pid, move⟩
  have goes : goOn cacheDir asset pid move world = some later → later.Sound cacheDir asset := by
    intro gone
    obtain ⟨⟨key, phase⟩, found, acted⟩ := Option.bind_eq_some_iff.mp gone
    obtain ⟨⟨files, phase'⟩, acts, rfl⟩ := Option.map_eq_some_iff.mp acted
    exact sound.moves (moves_of_act (sound.kept pid key phase found) (sound.whole key) acts)
  cases move with
  | start key =>
      rw [Cache.next] at stepped
      split at stepped
      · cases stepped
        apply sound.update
        rintro _ _ ⟨⟩
        rfl
      · cases stepped
  | stop =>
      obtain ⟨run, found, rfl⟩ := Option.map_eq_some_iff.mp stepped
      apply sound.update
      rintro _ _ ⟨⟩
  | _ => exact goes stepped

end World.Sound

theorem sound_of_reachable {world : World}
    (run : Reachable (next cacheDir asset) .blank world) : world.Sound cacheDir asset := by
  apply run.invariant (World.Sound cacheDir asset)
  · constructor
    · rintro key binary ⟨⟩
    · rintro pid key phase ⟨⟩
  · intro label world later _ sound stepped
    exact sound.next stepped

/-- Only this process moves, and it is not killed. -/
def Alone (pid : Nat) (label : Nat × Move) (_ : World) : Prop :=
  label.1 = pid ∧ (∀ key, label.2 ≠ .start key) ∧ label.2 ≠ .stop

theorem next_of_alone {pid : Nat} {label : Nat × Move} {world : World}
    (alone : Alone pid label world) :
    next cacheDir asset label world = goOn cacheDir asset pid label.2 world := by
  rcases label with ⟨own, move⟩
  rcases alone with ⟨rfl, notStart, notStop⟩
  cases move with
  | start key => exact absurd rfl (notStart key)
  | stop => exact absurd rfl notStop
  | _ => rfl

/-- The moves that are left to a run, where the binary has so many bytes. -/
def Phase.left (size : Nat) : Phase → Nat
  | .looking => size + 6
  | .fetching => size + 5
  | .making => size + 4
  | .opening => size + 3
  | .writing rest => rest.length + 2
  | .loading => 1
  | .loaded _ => 0

/-- The moves that are left to the run of a process. -/
def World.left (asset : Key → Bytes) (pid : Nat) (world : World) : Nat :=
  match world.runs pid with
  | none => 0
  | some (key, phase) => phase.left (asset key).length

theorem left_act {pid : Nat} {key : Key} {move : Move} {files later : Text → Option Bytes}
    {phase phase' : Phase}
    (acts : act cacheDir asset pid key move files phase = some (later, phase')) :
    phase'.left (asset key).length < phase.left (asset key).length := by
  unfold act at acts
  split at acts
  · cases acts
    split <;> simp [Phase.left]
  · cases acts
    exact Nat.lt_succ_self _
  · cases acts
    exact Nat.lt_succ_self _
  · cases acts
    exact Nat.lt_succ_self _
  · rename_i count rest
    split at acts
    · rename_i some
      obtain ⟨written, -, wrote⟩ := Option.map_eq_some_iff.mp acts
      obtain ⟨-, rfl⟩ := Prod.mk.inj wrote
      rw [Phase.left, Phase.left, List.length_drop]
      omega
    · cases acts
  · obtain ⟨written, -, renamed⟩ := Option.map_eq_some_iff.mp acts
    obtain ⟨-, rfl⟩ := Prod.mk.inj renamed
    exact Nat.lt_succ_self 1
  · cases acts
    exact Nat.one_pos
  · cases acts

theorem goOn_eq_some {pid : Nat} {move : Move} {world later : World}
    (goes : goOn cacheDir asset pid move world = some later) :
    ∃ key phase phase', world.runs pid = some (key, phase) ∧
      later.runs pid = some (key, phase') ∧
      act cacheDir asset pid key move world.files phase = some (later.files, phase') := by
  obtain ⟨⟨key, phase⟩, found, acted⟩ := Option.bind_eq_some_iff.mp goes
  obtain ⟨⟨files, phase'⟩, acts, rfl⟩ := Option.map_eq_some_iff.mp acted
  exact ⟨key, phase, phase', found, Function.update_self _ _ _, acts⟩

/-- A run that is left alone gets on with every move. -/
theorem left_of_alone {pid : Nat} {label : Nat × Move} {world later : World}
    (alone : Alone pid label world) (stepped : next cacheDir asset label world = some later) :
    later.left asset pid < world.left asset pid := by
  rw [next_of_alone alone] at stepped
  obtain ⟨key, phase, phase', found, after, acts⟩ := goOn_eq_some stepped
  rw [World.left, World.left, found, after]
  exact left_act acts

/-- The move of a run that has not loaded yet. -/
theorem enabled_of_sound {world : World} (sound : world.Sound cacheDir asset) {pid : Nat}
    {key : Key} {phase : Phase} (found : world.runs pid = some (key, phase))
    (short : ¬ world.runs pid = some (key, .loaded (some (asset key)))) :
    ∃ label later, Alone pid label world ∧ next cacheDir asset label world = some later := by
  have goes (move : Move) (own : (∀ key, move ≠ .start key) ∧ move ≠ .stop)
      (acts : act cacheDir asset pid key move world.files phase ≠ none) :
      ∃ label later, Alone pid label world ∧ next cacheDir asset label world = some later := by
    obtain ⟨acted, acts⟩ := Option.ne_none_iff_exists'.mp acts
    have alone : Alone pid (pid, move) world := ⟨rfl, own⟩
    have goes : goOn cacheDir asset pid move world =
        some ⟨acted.1, Function.update world.runs pid (some (key, acted.2))⟩ := by
      rw [goOn, found, Option.bind_some, acts]
      rfl
    exact ⟨(pid, move), _, alone, (next_of_alone alone).trans goes⟩
  have kept := sound.kept pid key phase found
  cases phase with
  | looking => exact goes .stat ⟨nofun, nofun⟩ (Option.some_ne_none _)
  | fetching => exact goes .fetch ⟨nofun, nofun⟩ (Option.some_ne_none _)
  | making => exact goes .mkdir ⟨nofun, nofun⟩ (Option.some_ne_none _)
  | opening => exact goes .open ⟨nofun, nofun⟩ (Option.some_ne_none _)
  | writing rest =>
      obtain ⟨written, there, -⟩ := kept
      cases rest with
      | nil =>
          refine goes .rename ⟨nofun, nofun⟩ ?_
          rw [act, there]
          exact Option.some_ne_none _
      | cons byte rest =>
          refine goes (.write 1) ⟨nofun, nofun⟩ ?_
          have one : 0 < 1 ∧ 1 ≤ (byte :: rest).length := ⟨Nat.one_pos, Nat.succ_pos _⟩
          rw [act, if_pos one, there]
          exact Option.some_ne_none _
  | loading => exact goes .load ⟨nofun, nofun⟩ (Option.some_ne_none _)
  | loaded binary =>
      obtain rfl : binary = some (asset key) := kept
      exact absurd found short

/-- The process runs for the key, and all is well. -/
def World.Goes (cacheDir : Text) (asset : Key → Bytes) (pid : Nat) (key : Key) (world : World) :
    Prop :=
  world.Sound cacheDir asset ∧ ∃ phase, world.runs pid = some (key, phase)

end Invariant

/-! ## A run that was killed -/

def sampleKey : Key where
  version := "0.0.1".toList
  target := "linux_amd64".toList
  single := by decide

/-- Three bytes for every platform. -/
def sampleAsset : Key → Bytes :=
  fun _ => [1, 2, 3]

/-- A run is killed after the first byte, and another one has the same process id. -/
def killed : List (Nat × Move) :=
  [.start sampleKey, .stat, .fetch, .mkdir, .open, .write 1, .stop, .start sampleKey, .stat,
    .fetch, .mkdir, .open, .write 3, .rename, .load].map (7, ·)

theorem runs_killed :
    (exec (next "/cache".toList sampleAsset) killed .blank).map (·.runs 7) =
      some (some (sampleKey, .loaded (some [1, 2, 3]))) :=
  rfl

/-- A run is killed after the first byte. -/
theorem runs_half :
    (exec (next "/cache".toList sampleAsset) (killed.take 7) .blank).map (·.runs 7) = some none :=
  rfl

end Quackhole.Npm.Cache
