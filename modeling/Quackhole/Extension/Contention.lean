import Quackhole.Extension.Binding
import Quackhole.Extension.Serve

/-!
# Serving while others bind

`quackhole_serve` checks the endpoint and the relay list before it binds, and
other connections may bind the endpoint or change the settings at any point in
between.  Each step of a call is one critical section on the core, or one read of
a setting.
-/

namespace Quackhole.Extension

open Quackhole.Word Quackhole.Ticket Quackhole.Transition

/-- Who binds from the settings: a dial, or a serving call that is past its
checks, with the relay list it checked. -/
inductive Caller where
  | dial
  | serve (arguments : ServeArguments) (relays : Text)

/-- Where a call is. -/
inductive Phase where
  /-- In front of the check on `ephemeral := true`. -/
  | called (arguments : ServeArguments)
  /-- In front of reading `quackhole_relays`. -/
  | identityChecked (arguments : ServeArguments)
  /-- In front of `TryGetCore`. -/
  | relaysRead (arguments : ServeArguments) (relays : Text)
  /-- In front of comparing the list with `BoundRelays`. -/
  | coreFound (arguments : ServeArguments) (relays : Text)
  /-- Past the checks. -/
  | relaysChecked (arguments : ServeArguments) (relays : Text)
  /-- In front of reading `quackhole_ephemeral`. -/
  | fromSettings (caller : Caller)
  /-- In front of reading `quackhole_key_path`. -/
  | ephemeralRead (caller : Caller) (ephemeral : Bool)
  /-- In front of reading `quackhole_relays` for the bind. -/
  | keyPathRead (caller : Caller) (ephemeral : Bool) (keyPath : Text)
  /-- In front of `GetOrCreateCore`. -/
  | binding (caller : Caller) (keyPath : Text) (ephemeral : Bool) (relays : Text)
  /-- In front of `qh_serve_start`. -/
  | bound (arguments : ServeArguments) (relays : Text)
  | serving (arguments : ServeArguments) (relays : Text)
  /-- Thrown, or dialed. -/
  | ended

/-- The phase of a caller that has the core. -/
def Caller.bound : Caller → Phase
  | .dial => .ended
  | .serve arguments relays => .bound arguments relays

/-- One database with the calls on it, and how its core was bound: whether with
a throwaway key, and with which relay list. -/
structure Contention (Id Address : Type) where
  db : Database Id Address := {}
  settings : Settings := {}
  born : Option (Bool × Text) := none
  calls : List Phase := []

/-- Who moves, and how the move is answered. -/
inductive Move (Id : Type) where
  | serve (arguments : ServeArguments)
  | dial
  | configure (settings : Settings)
  | stop
  | step (call : Nat) (home : Text) (bind : Option Text → Bool → Text → Except String Id)

section Steps

variable {Id Url Address : Type} (host : Host Id Url Address)

namespace Contention

variable (state : Contention Id Address)

/-- The core is got or created.  The first call that creates it settles how it
was bound. -/
def getOrCreate (site : Site Id) (keyPath : Text) (ephemeral : Bool) (relays : Text)
    (after : Phase) : Contention Id Address × Phase :=
  let performed := getOrCreateCore host (site.world host) keyPath ephemeral relays state.db
  ({ state with
      db := performed.2
      born :=
        if state.db.core.isNone && performed.2.core.isSome then some (ephemeral, relays)
        else state.born },
    match performed.1 with
    | .ok _ => after
    | .error _ => .ended)

/-- The next step of one call. -/
def advance (home : Text) (bind : Option Text → Bool → Text → Except String Id) :
    Phase → Option (Contention Id Address × Phase)
  | .called arguments =>
      match checkEphemeral arguments.ephemeral state.db with
      | (.ok _, _) => some (state, .identityChecked arguments)
      | (.error _, _) => some (state, .ended)
  | .identityChecked arguments => some (state, .relaysRead arguments state.settings.relays)
  | .relaysRead arguments relays =>
      if state.db.core.isSome then some (state, .coreFound arguments relays)
      else some (state, .relaysChecked arguments relays)
  | .coreFound arguments relays =>
      match normalizeRelays host relays with
      | .error _ => some (state, .ended)
      | .ok form =>
          if form != state.db.boundRelays then some (state, .ended)
          else some (state, .relaysChecked arguments relays)
  | .relaysChecked arguments relays =>
      if arguments.ephemeral then some (state, .binding (.serve arguments relays) [] true relays)
      else some (state, .fromSettings (.serve arguments relays))
  | .fromSettings caller => some (state, .ephemeralRead caller state.settings.ephemeral)
  | .ephemeralRead caller ephemeral =>
      match (if state.settings.keyPath.isEmpty then
          defaultKeyPath (Site.world host ⟨state.settings, home, bind⟩)
        else .ok state.settings.keyPath) with
      | .error _ => some (state, .ended)
      | .ok keyPath => some (state, .keyPathRead caller ephemeral keyPath)
  | .keyPathRead caller ephemeral keyPath =>
      some (state, .binding caller keyPath ephemeral state.settings.relays)
  | .binding caller keyPath ephemeral relays =>
      some (state.getOrCreate host ⟨state.settings, home, bind⟩ keyPath ephemeral relays
        caller.bound)
  | .bound arguments relays =>
      match startAccepting host arguments.target arguments.allow state.db with
      | (.ok _, db) => some ({ state with db := db }, .serving arguments relays)
      | (.error _, _) => some (state, .ended)
  | .serving _ _ => none
  | .ended => none

/-- One move. -/
def next : LStep (Move Id) (Contention Id Address)
  | .serve arguments, state => some { state with calls := state.calls ++ [.called arguments] }
  | .dial, state => some { state with calls := state.calls ++ [.fromSettings .dial] }
  | .configure settings, state => some { state with settings := settings }
  | .stop, state => some { state with db := (quackholeStop state.db).2 }
  | .step call home bind, state =>
      (state.calls[call]?).bind fun phase =>
        (state.advance host home bind phase).map fun moved =>
          { moved.1 with calls := state.calls.set call moved.2 }

end Contention

/-! ## What a serving call counts on -/

/-- Two relay lists have one normal form. -/
def SameRelays (first second : Text) : Prop :=
  ∃ form, normalizeRelays host first = .ok form ∧ normalizeRelays host second = .ok form

instance (first second : Text) : Decidable (SameRelays host first second) :=
  match firstForm : normalizeRelays host first, secondForm : normalizeRelays host second with
  | .ok form, .ok other =>
      if same : form = other then isTrue ⟨form, firstForm, by rw [secondForm, same]⟩
      else isFalse fun ⟨_, left, right⟩ => same (by
        cases firstForm.symm.trans left
        cases secondForm.symm.trans right
        rfl)
  | .error _, _ => isFalse fun ⟨_, left, _⟩ => by cases firstForm.symm.trans left
  | _, .error _ => isFalse fun ⟨_, _, right⟩ => by cases secondForm.symm.trans right

/-- The arguments of a call that is past the check on `ephemeral := true`. -/
def Caller.arguments : Caller → Option ServeArguments
  | .dial => none
  | .serve arguments _ => some arguments

/-- The relay list that was checked. -/
def Caller.relays : Caller → Option Text
  | .dial => none
  | .serve _ relays => some relays

namespace Phase

/-- The arguments of a serving call that is past the check on
`ephemeral := true`. -/
def arguments : Phase → Option ServeArguments
  | .called _ => none
  | .identityChecked arguments => some arguments
  | .relaysRead arguments _ => some arguments
  | .coreFound arguments _ => some arguments
  | .relaysChecked arguments _ => some arguments
  | .fromSettings caller => caller.arguments
  | .ephemeralRead caller _ => caller.arguments
  | .keyPathRead caller _ _ => caller.arguments
  | .binding caller _ _ _ => caller.arguments
  | .bound arguments _ => some arguments
  | .serving arguments _ => some arguments
  | .ended => none

/-- The relay list of a serving call that is past the check on it. -/
def relays : Phase → Option Text
  | .relaysChecked _ relays => some relays
  | .fromSettings caller => caller.relays
  | .ephemeralRead caller _ => caller.relays
  | .keyPathRead caller _ _ => caller.relays
  | .binding caller _ _ _ => caller.relays
  | .bound _ relays => some relays
  | .serving _ relays => some relays
  | _ => none

/-- A call that has found or got the core. -/
def hasCore : Phase → Bool
  | .coreFound _ _ => true
  | .bound _ _ => true
  | .serving _ _ => true
  | _ => false

/-- A core bound this way is the one the call was promised: its key is throwaway
if that was asked for, and its relay list has the normal form of the one that was
checked. -/
def Agrees (phase : Phase) (ephemeral : Bool) (list : Text) : Prop :=
  (∀ arguments ∈ phase.arguments, arguments.ephemeral = true → ephemeral = true) ∧
    ∀ checked ∈ phase.relays, SameRelays host checked list

instance (phase : Phase) (ephemeral : Bool) (list : Text) :
    Decidable (phase.Agrees host ephemeral list) :=
  inferInstanceAs (Decidable (_ ∧ _))

end Phase

namespace Contention

variable (state : Contention Id Address)

/-- Every call that serves does so on a core bound the way it was promised. -/
def Honoured : Prop :=
  ∀ arguments relays, Phase.serving arguments relays ∈ state.calls →
    ∃ ephemeral list, state.born = some (ephemeral, list) ∧
      (arguments.ephemeral = true → ephemeral = true) ∧ SameRelays host relays list

/-- The way the move binds the core, if it does. -/
def binds (move : Move Id) : Option (Bool × Text) :=
  match move with
  | .step call _ bind =>
      match state.calls[call]? with
      | some (.binding _ keyPath ephemeral relays) =>
          if state.db.core.isSome then none
          else
            (coreNew host bind (if ephemeral then none else some keyPath) ephemeral
              relays).toOption.map fun _ => (ephemeral, relays)
      | _ => none
  | _ => none

/-- If the move binds, it does so with a list that normalises and in a way that
agrees with every serving call that is past a check. -/
def Undisturbed (move : Move Id) (state : Contention Id Address) : Prop :=
  ∀ way ∈ state.binds host move, SameRelays host way.2 way.2 ∧
    ∀ phase ∈ state.calls, phase.Agrees host way.1 way.2

instance (move : Move Id) (state : Contention Id Address) :
    Decidable (Undisturbed host move state) :=
  inferInstanceAs (Decidable (∀ way ∈ state.binds host move, _ ∧ _))

/-- How the core was bound is known exactly when there is one, its list is
remembered, and what each call counts on holds of it. -/
structure Inv : Prop where
  core : state.born.isSome = state.db.core.isSome
  remembered : ∀ ephemeral list, state.born = some (ephemeral, list) →
    normalizeRelays host list = .ok state.db.boundRelays
  hasCore : ∀ phase ∈ state.calls, phase.hasCore = true → state.born.isSome = true
  agrees : ∀ phase ∈ state.calls, ∀ ephemeral list, state.born = some (ephemeral, list) →
    phase.Agrees host ephemeral list

variable {host} {state}

/-- Where nothing is bound there is nothing to agree with, and a promise that was
kept stays kept. -/
theorem Inv.replace (inv : state.Inv host) {call : Nat} {phase : Phase}
    (hasCore : phase.hasCore = true → state.born.isSome = true)
    (agrees : ∀ ephemeral list, state.born = some (ephemeral, list) →
      phase.Agrees host ephemeral list) :
    { state with calls := state.calls.set call phase }.Inv host where
  core := inv.core
  remembered := inv.remembered
  hasCore other member := by
    rcases List.mem_or_eq_of_mem_set member with before | rfl
    · exact inv.hasCore other before
    · exact hasCore
  agrees other member := by
    rcases List.mem_or_eq_of_mem_set member with before | rfl
    · exact inv.agrees other before
    · exact agrees

theorem ended_agrees (ephemeral : Bool) (list : Text) : Phase.ended.Agrees host ephemeral list := by
  constructor
  · rintro arguments ⟨⟩
  · rintro checked ⟨⟩

/-- A call that throws, or a dial that is done, counts on nothing. -/
theorem Inv.endCall (inv : state.Inv host) (call : Nat) :
    { state with calls := state.calls.set call .ended }.Inv host :=
  inv.replace (fun impossible => nomatch impossible) fun ephemeral list _ =>
    ended_agrees ephemeral list

/-- A call that goes on counting on the same things. -/
theorem Inv.goOn (inv : state.Inv host) {call : Nat} {phase following : Phase}
    (member : phase ∈ state.calls) (hasCore : following.hasCore = true → phase.hasCore = true)
    (arguments : following.arguments = phase.arguments) (relays : following.relays = phase.relays) :
    { state with calls := state.calls.set call following }.Inv host := by
  apply inv.replace (fun has => inv.hasCore phase member (hasCore has))
  intro ephemeral list born
  rw [Phase.Agrees, arguments, relays]
  exact inv.agrees phase member ephemeral list born

theorem Caller.bound_agrees {caller : Caller} {keyPath relays list : Text} {ephemeral throwaway : Bool}
    (agrees : (Phase.binding caller keyPath throwaway relays).Agrees host ephemeral list) :
    caller.bound.Agrees host ephemeral list := by
  cases caller with
  | dial => exact ended_agrees ephemeral list
  | serve arguments checked => exact agrees

/-- Getting the core keeps what the calls count on, and so does creating it in a
way that agrees with all of them. -/
theorem Inv.getOrCreate (inv : state.Inv host) {site : Site Id} {call : Nat} {caller : Caller}
    {keyPath relays : Text} {ephemeral : Bool}
    (member : Phase.binding caller keyPath ephemeral relays ∈ state.calls)
    (undisturbed : state.db.core = none → ∀ id,
      coreNew host site.bind (if ephemeral then none else some keyPath) ephemeral relays = .ok id →
        SameRelays host relays relays ∧
          ∀ phase ∈ state.calls, phase.Agrees host ephemeral relays) :
    let moved := state.getOrCreate host site keyPath ephemeral relays caller.bound
    { moved.1 with calls := state.calls.set call moved.2 }.Inv host := by
  intro moved
  rcases getOrCreateCore_cases host (site.world host) keyPath ephemeral relays state.db with
    ⟨there, ran⟩ | ⟨absent, err, -, ran⟩ | ⟨absent, id, made, ran⟩
  · have same : moved = (state, caller.bound) := by
      simp only [moved, Contention.getOrCreate, ran]
      cases found : state.db.core with
      | none =>
          rw [found] at there
          cases there
      | some core => rfl
    rw [same]
    apply inv.replace
    · intro _
      rw [inv.core]
      exact there
    · intro throwaway list born
      exact Caller.bound_agrees (inv.agrees _ member throwaway list born)
  · have same : moved = (state, .ended) := by
      simp only [moved, Contention.getOrCreate, ran, absent]
      rfl
    rw [same]
    exact inv.endCall call
  · rcases undisturbed absent id made with ⟨⟨bound, remembered, -⟩, agrees⟩
    rw [remembered] at ran
    have same : moved =
        ({ state with
            db := { state.db with core := some { endpointId := id }, boundRelays := bound }
            born := some (ephemeral, relays) }, caller.bound) := by
      simp only [moved, Contention.getOrCreate, ran, absent]
      rfl
    rw [same]
    constructor
    · rfl
    · rintro throwaway list born
      cases born
      exact remembered
    · intro _ _ _
      rfl
    · rintro phase inside throwaway list born
      cases born
      rcases List.mem_or_eq_of_mem_set inside with before | rfl
      · exact agrees phase before
      · exact Caller.bound_agrees (agrees _ member)

/-- A step of a call keeps what the calls count on. -/
theorem Inv.advance (inv : state.Inv host) {call : Nat} {home : Text}
    {bind : Option Text → Bool → Text → Except String Id} {phase : Phase}
    (at' : state.calls[call]? = some phase)
    (undisturbed : Undisturbed host (.step call home bind) state)
    {moved : Contention Id Address × Phase}
    (advanced : state.advance host home bind phase = some moved) :
    { moved.1 with calls := state.calls.set call moved.2 }.Inv host := by
  have member := List.mem_of_getElem? at'
  cases phase with
  | called arguments =>
      simp only [Contention.advance] at advanced
      rw [checkEphemeral, Effect.bind_of_ok (Effect.get_apply state.db)] at advanced
      cases refused : (arguments.ephemeral && state.db.core.isSome) with
      | true =>
          rw [refused] at advanced
          obtain rfl := Option.some.inj advanced
          exact inv.endCall call
      | false =>
          rw [refused] at advanced
          obtain rfl := Option.some.inj advanced
          apply inv.replace (fun impossible => by cases impossible)
          intro ephemeral list born
          have there : state.db.core.isSome = true := by rw [← inv.core, born]; rfl
          rw [there, Bool.and_true] at refused
          constructor
          · rintro _ ⟨⟩ asked
            rw [refused] at asked
            cases asked
          · rintro checked ⟨⟩
  | identityChecked arguments =>
      obtain rfl := Option.some.inj advanced
      exact inv.goOn member (fun impossible => nomatch impossible) rfl rfl
  | relaysRead arguments relays =>
      simp only [Contention.advance] at advanced
      split at advanced
      · rename_i there
        obtain rfl := Option.some.inj advanced
        apply inv.replace
        · intro _
          rw [inv.core]
          exact there
        · exact inv.agrees (.relaysRead arguments relays) member
      · rename_i absent
        obtain rfl := Option.some.inj advanced
        apply inv.replace (fun impossible => by cases impossible)
        intro ephemeral list born
        rw [← inv.core, born] at absent
        exact absurd rfl absent
  | coreFound arguments relays =>
      simp only [Contention.advance] at advanced
      split at advanced
      · obtain rfl := Option.some.inj advanced
        exact inv.endCall call
      · rename_i form normal
        split at advanced
        · obtain rfl := Option.some.inj advanced
          exact inv.endCall call
        · rename_i same
          obtain rfl := Option.some.inj advanced
          apply inv.replace (fun impossible => by cases impossible)
          intro ephemeral list born
          have equal : form = state.db.boundRelays := by simpa using same
          refine ⟨(inv.agrees _ member ephemeral list born).1, ?_⟩
          rintro checked ⟨⟩
          refine ⟨form, normal, ?_⟩
          rw [inv.remembered ephemeral list born, equal]
  | relaysChecked arguments relays =>
      simp only [Contention.advance] at advanced
      split at advanced
      · obtain rfl := Option.some.inj advanced
        exact inv.goOn member (fun impossible => nomatch impossible) rfl rfl
      · obtain rfl := Option.some.inj advanced
        exact inv.goOn member (fun impossible => nomatch impossible) rfl rfl
  | fromSettings caller =>
      obtain rfl := Option.some.inj advanced
      exact inv.goOn member (fun impossible => nomatch impossible) rfl rfl
  | ephemeralRead caller ephemeral =>
      simp only [Contention.advance] at advanced
      split at advanced
      · obtain rfl := Option.some.inj advanced
        exact inv.endCall call
      · obtain rfl := Option.some.inj advanced
        exact inv.goOn member (fun impossible => nomatch impossible) rfl rfl
  | keyPathRead caller ephemeral keyPath =>
      obtain rfl := Option.some.inj advanced
      exact inv.goOn member (fun impossible => nomatch impossible) rfl rfl
  | binding caller keyPath ephemeral relays =>
      obtain rfl := Option.some.inj advanced
      apply inv.getOrCreate member
      intro absent id made
      apply undisturbed (ephemeral, relays)
      rw [binds, at']
      simp only [absent, made]
      rfl
  | bound arguments relays =>
      simp only [Contention.advance] at advanced
      split at advanced
      · rename_i core db started
        obtain rfl := Option.some.inj advanced
        rw [startAccepting, Effect.bind_of_ok (Effect.get_apply state.db)] at started
        simp only [Effect.bind_eq_ok, Effect.lift_eq_ok, Effect.modify_eq_ok,
          Effect.pure_eq_ok] at started
        rcases started with ⟨_, _, ⟨_, rfl⟩, _, _, rfl, rfl, rfl⟩
        have there := inv.hasCore _ member rfl
        have kept : { state with calls := state.calls.set call (.serving arguments relays) }.Inv
            host := inv.goOn member (fun _ => rfl) rfl rfl
        exact ⟨by rw [there]; rfl, kept.remembered, kept.hasCore, kept.agrees⟩
      · obtain rfl := Option.some.inj advanced
        exact inv.endCall call
  | serving arguments relays => cases advanced
  | ended => cases advanced

/-- A new call counts on nothing. -/
theorem Inv.enter (inv : state.Inv host) {phase : Phase} (hasCore : phase.hasCore = false)
    (arguments : phase.arguments = none) (relays : phase.relays = none) :
    { state with calls := state.calls ++ [phase] }.Inv host where
  core := inv.core
  remembered := inv.remembered
  hasCore other member has := by
    rcases List.mem_append.mp member with old | new
    · exact inv.hasCore other old has
    · rw [List.mem_singleton.mp new, hasCore] at has
      cases has
  agrees other member ephemeral list born := by
    rcases List.mem_append.mp member with old | new
    · exact inv.agrees other old ephemeral list born
    · rw [List.mem_singleton.mp new, Phase.Agrees, arguments, relays]
      constructor
      · rintro _ ⟨⟩
      · rintro _ ⟨⟩

/-- Every move that does not bind in the way of another call keeps what the calls
count on. -/
theorem Inv.next {before after : Contention Id Address} (inv : before.Inv host) {move : Move Id}
    (undisturbed : Undisturbed host move before) (moved : next host move before = some after) :
    after.Inv host := by
  cases move with
  | serve arguments =>
      obtain rfl := Option.some.inj moved
      exact inv.enter rfl rfl rfl
  | dial =>
      obtain rfl := Option.some.inj moved
      exact inv.enter rfl rfl rfl
  | configure settings =>
      obtain rfl := Option.some.inj moved
      exact ⟨inv.core, inv.remembered, inv.hasCore, inv.agrees⟩
  | stop =>
      obtain rfl := Option.some.inj moved
      rcases before with ⟨⟨_ | core, boundRelays, servers, secrets, catalogs⟩, settings, born, calls⟩
      · exact inv
      · exact ⟨inv.core, inv.remembered, inv.hasCore, inv.agrees⟩
  | step call home bind =>
      rcases Option.bind_eq_some_iff.mp moved with ⟨phase, at', stepped⟩
      rcases Option.map_eq_some_iff.mp stepped with ⟨result, advanced, rfl⟩
      exact inv.advance at' undisturbed advanced

variable (host) in
/-- As long as nobody binds in the way of another call, every call that serves
does so on the key and the relays it asked for. -/
theorem honoured_of_undisturbed {source target : Contention Id Address}
    (unbound : source.db.core = none) (unborn : source.born = none) (idle : source.calls = [])
    (run : Run (next host) (Undisturbed host) source target) : target.Honoured host := by
  have inv : target.Inv host := by
    apply run.invariant (Contention.Inv host)
    · constructor
      · rw [unborn, unbound]
        rfl
      · intro ephemeral list born
        rw [unborn] at born
        cases born
      · intro phase member
        rw [idle] at member
        cases member
      · intro phase member
        rw [idle] at member
        cases member
    · intro move before after undisturbed inv moved
      exact inv.next undisturbed moved
  intro arguments relays member
  have there := inv.hasCore _ member rfl
  rcases born : target.born with _ | ⟨ephemeral, list⟩
  · rw [born] at there
    cases there
  · have agrees := inv.agrees _ member ephemeral list born
    exact ⟨ephemeral, list, rfl, agrees.1 arguments rfl, agrees.2 relays rfl⟩

end Contention

/-! ## A call that is left alone -/

/-- What `quackhole_serve` does up to the accept loop. -/
def startServing (world : Surroundings Id) (arguments : ServeArguments) :
    Action Id Address (Core Id) := do
  checkEphemeral arguments.ephemeral
  checkRelays host world
  serveCore host world arguments.ephemeral
  startAccepting host arguments.target arguments.allow

theorem serveEndpoint_eq [DecidableEq Address] (world : Surroundings Id) (arguments : ServeArguments)
    (quackToken : Text) :
    (serveEndpoint host world arguments quackToken : Action Id Address ServeRow) =
      startServing host world arguments >>= fun core =>
        Effect.lift (endpointId host core) >>= fun id =>
          pure (serveRow host world id (effectiveToken arguments quackToken)) := by
  rw [startServing, Effect.bind_assoc, serveEndpoint]
  congr 1
  funext _
  rw [Effect.bind_assoc]
  congr 1
  funext _
  rw [Effect.bind_assoc]

namespace Contention

variable (state : Contention Id Address) (home : Text)
  (bind : Option Text → Bool → Text → Except String Id)

/-- One more call, in a phase. -/
def withLast (phase : Phase) : Contention Id Address :=
  { state with calls := state.calls ++ [phase] }

/-- The last call, if it takes its steps with nothing in between, comes to what an
action comes to. -/
def Comes (arguments : ServeArguments) (phase : Phase) (action : Action Id Address (Core Id)) :
    Prop :=
  ∃ (steps : Nat) (after : Contention Id Address) (last : Phase),
    exec (next host) (List.replicate steps (.step state.calls.length home bind))
      (state.withLast phase) = some (after.withLast last) ∧
    after.db = (action state.db).2 ∧
    ((∃ core, (action state.db).1 = .ok core) ∧ (∃ relays, last = .serving arguments relays) ∨
      (∃ error, (action state.db).1 = .error error) ∧ last = .ended)

variable {host state home bind}

theorem advance_withLast (last phase : Phase) :
    (state.withLast last).advance host home bind phase =
      (state.advance host home bind phase).map fun moved => (moved.1.withLast last, moved.2) := by
  cases phase with
  | called arguments =>
      dsimp only [advance, withLast]
      rcases checkEphemeral arguments.ephemeral state.db with ⟨_ | _, _⟩ <;> rfl
  | relaysRead arguments relays =>
      dsimp only [advance, withLast]
      split <;> rfl
  | coreFound arguments relays =>
      dsimp only [advance, withLast]
      split
      · rfl
      · split <;> rfl
  | relaysChecked arguments relays =>
      dsimp only [advance, withLast]
      split <;> rfl
  | ephemeralRead caller ephemeral =>
      dsimp only [advance, withLast]
      rcases (if state.settings.keyPath.isEmpty then
          defaultKeyPath (Site.world host ⟨state.settings, home, bind⟩)
        else .ok state.settings.keyPath) with _ | _ <;> rfl
  | bound arguments relays =>
      dsimp only [advance, withLast]
      rcases startAccepting host arguments.target arguments.allow state.db with ⟨_ | _, _⟩ <;> rfl
  | _ => rfl

/-- The last call takes a step. -/
theorem next_withLast {phase after : Phase} {moved : Contention Id Address}
    (advances : state.advance host home bind phase = some (moved, after))
    (calls : moved.calls = state.calls) :
    next host (.step state.calls.length home bind) (state.withLast phase) =
      some (moved.withLast after) := by
  have found : (state.withLast phase).calls[state.calls.length]? = some phase :=
    List.getElem?_concat_length
  rw [next, found, Option.bind_some, advance_withLast, advances, Option.map_some, Option.map_some]
  dsimp only [withLast]
  rw [calls, List.set_append_right _ _ (Nat.le_refl _), Nat.sub_self]
  rfl

/-- The last call takes a step and comes to the rest of the action. -/
theorem comes_step {arguments : ServeArguments} {phase after : Phase}
    {moved : Contention Id Address} {action rest : Action Id Address (Core Id)}
    (advances : state.advance host home bind phase = some (moved, after))
    (calls : moved.calls = state.calls) (same : action state.db = rest moved.db)
    (comes : moved.Comes host home bind arguments after rest) :
    state.Comes host home bind arguments phase action := by
  rcases comes with ⟨steps, target, last, ran, db, result⟩
  rw [calls] at ran
  refine ⟨steps + 1, target, last, ?_, ?_, ?_⟩
  · rw [List.replicate_succ, exec_cons, next_withLast advances calls, Option.bind_some]
    exact ran
  · rw [same]
    exact db
  · rw [same]
    exact result

/-- The last call throws. -/
theorem comes_thrown {arguments : ServeArguments} {phase : Phase}
    {moved : Contention Id Address} {action : Action Id Address (Core Id)} {error : Exception}
    (advances : state.advance host home bind phase = some (moved, .ended))
    (calls : moved.calls = state.calls) (thrown : action state.db = (.error error, moved.db)) :
    state.Comes host home bind arguments phase action := by
  refine ⟨1, moved, .ended, ?_, ?_, ?_⟩
  · rw [List.replicate_one, exec_cons, next_withLast advances calls, Option.bind_some, exec_nil]
  · rw [thrown]
  · rw [thrown]
    exact Or.inr ⟨⟨error, rfl⟩, rfl⟩

/-- Where the accept loop is refused, nothing has changed. -/
theorem db_of_startAccepting {target : Text} {allow : List Text} {db after : Database Id Address}
    {error : Exception} (refused : startAccepting host target allow db = (.error error, after)) :
    after = db := by
  rw [startAccepting, Effect.bind_of_ok (Effect.get_apply db)] at refused
  generalize (serveStart host db.core target allow).mapError _ = started at refused
  cases started with
  | error err =>
      rw [Effect.bind_of_error (Effect.lift_apply _ _)] at refused
      cases refused
      rfl
  | ok core =>
      rw [Effect.bind_of_ok (Effect.lift_apply _ _)] at refused
      cases refused

theorem comes_bound (arguments : ServeArguments) (relays : Text) :
    state.Comes host home bind arguments (.bound arguments relays)
      (startAccepting host arguments.target arguments.allow) := by
  rcases ran : startAccepting host arguments.target arguments.allow state.db with
    ⟨error | core, db⟩
  · obtain rfl := db_of_startAccepting ran
    apply comes_thrown _ rfl ran
    rw [advance, ran]
  · have advances : state.advance host home bind (.bound arguments relays) =
        some ({ state with db := db }, .serving arguments relays) := by
      rw [advance, ran]
    refine ⟨1, { state with db := db }, .serving arguments relays, ?_, ?_, ?_⟩
    · rw [List.replicate_one, exec_cons, next_withLast advances rfl, Option.bind_some, exec_nil]
    · rw [ran]
    · rw [ran]
      exact Or.inl ⟨⟨core, rfl⟩, relays, rfl⟩

theorem comes_binding (arguments : ServeArguments) (checked keyPath : Text) (ephemeral : Bool)
    (relays : Text) :
    state.Comes host home bind arguments
      (.binding (.serve arguments checked) keyPath ephemeral relays)
      (getOrCreateCore host (Site.world host ⟨state.settings, home, bind⟩) keyPath ephemeral
        relays >>= fun _ => startAccepting host arguments.target arguments.allow) := by
  have advances : state.advance host home bind
      (.binding (.serve arguments checked) keyPath ephemeral relays) =
        some (state.getOrCreate host ⟨state.settings, home, bind⟩ keyPath ephemeral relays
          (.bound arguments checked)) := rfl
  rcases ran : getOrCreateCore host (Site.world host ⟨state.settings, home, bind⟩) keyPath ephemeral
    relays state.db with ⟨error | _, db⟩
  · have moved : state.getOrCreate host ⟨state.settings, home, bind⟩ keyPath ephemeral relays
        (.bound arguments checked) =
        ({ state with
            db := db
            born :=
              if state.db.core.isNone && db.core.isSome then some (ephemeral, relays)
              else state.born }, .ended) := by
      simp only [getOrCreate, ran]
    exact comes_thrown (advances.trans (congrArg some moved)) rfl (Effect.bind_of_error ran _)
  · have moved : state.getOrCreate host ⟨state.settings, home, bind⟩ keyPath ephemeral relays
        (.bound arguments checked) =
        ({ state with
            db := db
            born :=
              if state.db.core.isNone && db.core.isSome then some (ephemeral, relays)
              else state.born }, .bound arguments checked) := by
      simp only [getOrCreate, ran]
    exact comes_step (advances.trans (congrArg some moved)) rfl (Effect.bind_of_ok ran _)
      (comes_bound arguments checked)

/-- Past the checks: the core is got or made, and the accept loop started. -/
theorem comes_relaysChecked (arguments : ServeArguments) (relays : Text)
    (same : relays = state.settings.relays) :
    state.Comes host home bind arguments (.relaysChecked arguments relays)
      (serveCore host (Site.world host ⟨state.settings, home, bind⟩) arguments.ephemeral >>= fun _ =>
        startAccepting host arguments.target arguments.allow) := by
  cases ephemeral : arguments.ephemeral with
  | true =>
      have advances : state.advance host home bind (.relaysChecked arguments relays) =
          some (state, .binding (.serve arguments relays) [] true relays) := by
        rw [advance, if_pos ephemeral]
      subst same
      exact comes_step advances rfl rfl (comes_binding arguments _ _ _ _)
  | false =>
      have advances : state.advance host home bind (.relaysChecked arguments relays) =
          some (state, .fromSettings (.serve arguments relays)) := by
        rw [advance, if_neg (by rw [ephemeral]; exact Bool.false_ne_true)]
      apply comes_step advances rfl rfl
      have read : state.advance host home bind (.fromSettings (.serve arguments relays)) =
          some (state, .ephemeralRead (.serve arguments relays) state.settings.ephemeral) := rfl
      apply comes_step read rfl rfl
      rw [serveCore, if_neg Bool.false_ne_true, getOrCreateCoreFromSettings, Effect.bind_assoc]
      rcases chosen : (if state.settings.keyPath.isEmpty then
          defaultKeyPath (Site.world host ⟨state.settings, home, bind⟩)
        else .ok state.settings.keyPath) with error | keyPath
      · have ends : state.advance host home bind
            (.ephemeralRead (.serve arguments relays) state.settings.ephemeral) =
              some (state, .ended) := by
          dsimp only [advance]
          rw [chosen]
        have thrown := congrArg (fun result => (result, state.db)) chosen
        exact comes_thrown ends rfl (Effect.bind_of_error thrown _)
      · have found : state.advance host home bind
            (.ephemeralRead (.serve arguments relays) state.settings.ephemeral) =
              some (state, .keyPathRead (.serve arguments relays) state.settings.ephemeral
                keyPath) := by
          dsimp only [advance]
          rw [chosen]
        have given := congrArg (fun result => (result, state.db)) chosen
        apply comes_step found rfl (Effect.bind_of_ok given _)
        have read : state.advance host home bind
            (.keyPathRead (.serve arguments relays) state.settings.ephemeral keyPath) =
              some (state, .binding (.serve arguments relays) keyPath state.settings.ephemeral
                state.settings.relays) := rfl
        exact comes_step read rfl rfl (comes_binding arguments relays keyPath _ _)

/-- The check on the relays, from reading the setting on. -/
theorem comes_identityChecked (arguments : ServeArguments) :
    state.Comes host home bind arguments (.identityChecked arguments)
      (checkRelays host (Site.world host ⟨state.settings, home, bind⟩) >>= fun _ =>
        serveCore host (Site.world host ⟨state.settings, home, bind⟩) arguments.ephemeral >>= fun _ =>
          startAccepting host arguments.target arguments.allow) := by
  have read : state.advance host home bind (.identityChecked arguments) =
      some (state, .relaysRead arguments state.settings.relays) := rfl
  apply comes_step read rfl rfl
  cases found : state.db.core with
  | none =>
      have advances : state.advance host home bind
          (.relaysRead arguments state.settings.relays) =
            some (state, .relaysChecked arguments state.settings.relays) := by
        rw [advance, found]
        rfl
      have passes : checkRelays host (Site.world host ⟨state.settings, home, bind⟩) state.db =
          (.ok (), state.db) := by
        rw [checkRelays, Effect.bind_of_ok (Effect.get_apply state.db), found]
        rfl
      exact comes_step advances rfl (Effect.bind_of_ok passes _)
        (comes_relaysChecked arguments _ rfl)
  | some core =>
      have advances : state.advance host home bind
          (.relaysRead arguments state.settings.relays) =
            some (state, .coreFound arguments state.settings.relays) := by
        rw [advance, found]
        rfl
      apply comes_step advances rfl rfl
      cases normal : normalizeRelays host state.settings.relays with
      | error error =>
          have thrown : checkRelays host (Site.world host ⟨state.settings, home, bind⟩) state.db =
              (.error error, state.db) := by
            rw [checkRelays, Effect.bind_of_ok (Effect.get_apply state.db), found]
            exact Effect.bind_of_error (congrArg (fun result => (result, state.db)) normal) _
          apply comes_thrown _ rfl (Effect.bind_of_error thrown _)
          rw [advance, normal]
      | ok form =>
          have given := congrArg (fun result => (result, state.db)) normal
          cases differs : form != state.db.boundRelays with
          | true =>
              have thrown : ∃ error, checkRelays host
                  (Site.world host ⟨state.settings, home, bind⟩) state.db =
                    (.error error, state.db) := by
                rw [checkRelays, Effect.bind_of_ok (Effect.get_apply state.db), found]
                have refused : ∀ error, Effect.refuse (form != state.db.boundRelays) error state.db =
                    ((.error error, state.db) : Except Exception Unit × Database Id Address) := by
                  intro error
                  rw [Effect.refuse, differs]
                  rfl
                exact ⟨_, (Effect.bind_of_ok given _).trans (refused _)⟩
              rcases thrown with ⟨error, thrown⟩
              apply comes_thrown _ rfl (Effect.bind_of_error thrown _)
              rw [advance, normal]
              dsimp only
              rw [if_pos differs]
          | false =>
              have passes : checkRelays host (Site.world host ⟨state.settings, home, bind⟩) state.db =
                  (.ok (), state.db) := by
                rw [checkRelays, Effect.bind_of_ok (Effect.get_apply state.db), found]
                refine (Effect.bind_of_ok given _).trans ?_
                rw [Effect.refuse, differs]
                rfl
              apply comes_step _ rfl (Effect.bind_of_ok passes _)
                (comes_relaysChecked arguments _ rfl)
              rw [advance, normal]
              dsimp only
              rw [if_neg (by rw [differs]; exact Bool.false_ne_true)]

/-- A serving call that is left alone comes to what `quackhole_serve` comes to: the accept
loop, or an exception, and the same database. -/
theorem comes_called (arguments : ServeArguments) :
    state.Comes host home bind arguments (.called arguments)
      (startServing host (Site.world host ⟨state.settings, home, bind⟩) arguments) := by
  have same : (checkEphemeral arguments.ephemeral state.db).2 = state.db := rfl
  rcases ran : checkEphemeral arguments.ephemeral state.db with ⟨error | _, db⟩
  · rw [ran] at same
    obtain rfl := same
    apply comes_thrown _ rfl (Effect.bind_of_error ran _)
    rw [advance, ran]
  · rw [ran] at same
    obtain rfl := same
    apply comes_step _ rfl (Effect.bind_of_ok ran _) (comes_identityChecked arguments)
    rw [advance, ran]

/-- Left alone, a serving call leaves the database as `quackhole_serve` does once the local
server is taken care of, and where that returns a row, the call is serving. -/
theorem exists_alone [DecidableEq Address] (host : Host Id Url Address)
    (state : Contention Id Address) (home : Text)
    (bind : Option Text → Bool → Text → Except String Id) (arguments : ServeArguments)
    (quackToken : Text) :
    let served := serveEndpoint host (Site.world host ⟨state.settings, home, bind⟩) arguments
      quackToken state.db
    ∃ moves after last, exec (next host) (.serve arguments :: moves) state =
        some (Contention.withLast after last) ∧ after.db = served.2 ∧
      ((∃ row, served.1 = .ok row) → ∃ relays, last = .serving arguments relays) := by
  intro served
  rcases comes_called arguments with ⟨steps, after, last, ran, db, result⟩
  refine ⟨_, after, last, ran, ?_⟩
  have split : served = _ := congrFun (serveEndpoint_eq host _ arguments quackToken) state.db
  rcases started : startServing host (Site.world host ⟨state.settings, home, bind⟩) arguments
    state.db with ⟨error | core, target⟩
  · rw [Effect.bind_of_error started] at split
    rw [started] at db
    rw [split]
    refine ⟨db, ?_⟩
    rintro ⟨row, returned⟩
    cases returned
  · rw [Effect.bind_of_ok started] at split
    rw [started] at db result
    have kept : served.2 = target := by
      rw [split]
      cases endpointId host core <;> rfl
    refine ⟨db.trans kept.symm, fun _ => ?_⟩
    rcases result with ⟨_, serving⟩ | ⟨⟨error, thrown⟩, _⟩
    · exact serving
    · cases thrown

end Contention

end Steps

/-! ## Three runs -/

/-- A call's next step, on a machine where every bind succeeds. -/
def stepOf (call : Nat) : Move Unit :=
  .step call "/home/duck".toList fun _ _ _ => .ok ()

/-- A call that is left alone: both checks, the bind, and the accept loop. -/
def alone : List (Move Unit) :=
  .configure { relays := "https://a/".toList } :: .serve { ephemeral := true } ::
    List.replicate 6 (stepOf 0)

/-- A dial binds on the long-lived key after the check on `ephemeral := true` has
found no core. -/
def overtaken : List (Move Unit) :=
  [.serve { ephemeral := true }, stepOf 0, .dial] ++ List.replicate 4 (stepOf 1) ++
    List.replicate 6 (stepOf 0)

/-- The relay list changes after it was checked. -/
def reconfigured : List (Move Unit) :=
  .serve {} :: List.replicate 4 (stepOf 0) ++ .configure { relays := "https://a/".toList } ::
    List.replicate 5 (stepOf 0)

/-- What each call of a state serves, with the way the core was bound. -/
def Contention.served (state : Contention Unit Text) :
    List (Bool × Text) × Option (Bool × Text) :=
  (state.calls.filterMap fun phase =>
    match phase with
    | .serving arguments relays => some (arguments.ephemeral, relays)
    | _ => none, state.born)

/-- What serving on the core of a state must come to. -/
theorem Contention.of_served {state : Contention Unit Text} {asked throwaway : Bool}
    {relays list : Text} (honoured : state.Honoured soleHost)
    (served : state.served = ([(asked, relays)], some (throwaway, list))) :
    (asked = true → throwaway = true) ∧ SameRelays soleHost relays list := by
  rcases Prod.mk.inj served with ⟨serving, born⟩
  have member := List.mem_singleton_self (asked, relays)
  rw [← serving, List.mem_filterMap] at member
  rcases member with ⟨phase, inside, told⟩
  cases phase with
  | serving arguments checked =>
      cases told
      rcases honoured arguments relays inside with ⟨ephemeral, bound, known, agreed⟩
      cases born.symm.trans known
      exact agreed
  | _ => cases told

theorem served_alone :
    (execWhile (Contention.next soleHost)
        (fun move state => decide (Contention.Undisturbed soleHost move state)) alone {}).map
      Contention.served =
    some ([(true, "https://a/".toList)], some (true, "https://a/".toList)) := by
  decide +kernel

theorem served_overtaken :
    (exec (Contention.next soleHost) overtaken {}).map Contention.served =
      some ([(true, [])], some (false, [])) := by
  decide +kernel

theorem served_reconfigured :
    (exec (Contention.next soleHost) reconfigured {}).map Contention.served =
      some ([(false, [])], some (false, "https://a/".toList)) := by
  decide +kernel

/-- One call serves on the long-lived key though it asked for a throwaway one,
another one on relays that are not those it checked. -/
theorem not_honoured :
    (∃ state : Contention Unit Text, Reachable (Contention.next soleHost) {} state ∧
        state.served = ([(true, [])], some (false, [])) ∧ ¬ state.Honoured soleHost) ∧
      ∃ state : Contention Unit Text, Reachable (Contention.next soleHost) {} state ∧
        state.served = ([(false, [])], some (false, "https://a/".toList)) ∧
          ¬ state.Honoured soleHost := by
  constructor
  · rcases Option.map_eq_some_iff.mp served_overtaken with ⟨state, ran, served⟩
    refine ⟨state, reachable_of_exec ran, served, fun honoured => ?_⟩
    exact absurd ((Contention.of_served honoured served).1 rfl) (by decide)
  · rcases Option.map_eq_some_iff.mp served_reconfigured with ⟨state, ran, served⟩
    refine ⟨state, reachable_of_exec ran, served, fun honoured => ?_⟩
    have different : ¬ SameRelays soleHost [] "https://a/".toList := by decide +kernel
    exact different (Contention.of_served honoured served).2

theorem honoured_alone :
    ∃ state : Contention Unit Text, state.Honoured soleHost ∧
      state.served = ([(true, "https://a/".toList)], some (true, "https://a/".toList)) := by
  rcases Option.map_eq_some_iff.mp served_alone with ⟨state, ran, served⟩
  have run := run_of_execWhile (fun _ _ tested => of_decide_eq_true tested) ran
  exact ⟨state, Contention.honoured_of_undisturbed soleHost rfl rfl rfl run, served⟩

end Quackhole.Extension
