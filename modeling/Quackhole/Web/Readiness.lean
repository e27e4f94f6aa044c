import Quackhole.Web.Registration

/-!
# Waiting for the bridge

`waitForBridge` holds each request back until the bridge says that it can answer.  The bridge
starts, fails or dies while calls wait, so each load and each store of the flag is a step of
its own.  A thread that is in a call dispatches no event: what its listeners are to be told meanwhile,
they are told after it.
-/

namespace Quackhole.Web.Readiness

open Quackhole.Word Quackhole.Transition
open Registration (Ready orNull)

/-- What the bridge is started with. -/
structure Settings where
  mode : Text := "iroh".toList
  bridgeUrl : Text

/-- The thread of the bridge, as far as its start goes. -/
inductive Bridge where
  /-- Its script has not run. -/
  | loading
  /-- It has, and messages are delivered. -/
  | listening
  /-- `INIT` awaits `transport()`. -/
  | transport
  /-- `INIT` awaits `wasm.connect`. -/
  | connecting
  /-- About to store `READY_OK`. -/
  | starting
  | serving
  /-- About to post the `failed` frame. -/
  | catching (message : Text)
  /-- About to store `READY_FAILED`. -/
  | announcing (message : Text)
  | failed (message : Text)

/-- The thread of the DuckDB worker. -/
inductive Shim where
  /-- In its event loop. -/
  | idle
  /-- In DuckDB's handler, between two calls of `roundTrip`. -/
  | handling
  /-- About to look at `bridgeError`. -/
  | entering
  /-- About to load `READY` in the condition of the loop. -/
  | polling
  /-- About to load it after the loop. -/
  | deciding
  /-- It was `READY_FAILED`. -/
  | explaining
  | posting
  /-- The request is posted. -/
  | exchanging
deriving DecidableEq

/-- What the bridge is sent, but for control frames, which need nothing to be ready. -/
inductive Message where
  | init
  | request
deriving DecidableEq

/-- How a call of `roundTrip` goes. -/
inductive Outcome where
  /-- Its request was posted, and answered or not. -/
  | exchanged
  | thrown (message : Text)
deriving DecidableEq

/-- A call that has ended, and what the listeners had been told when it was made. -/
structure Result where
  bridgeError : Option Text
  bridgeInitError : Option Text
  outcome : Outcome

structure World where
  bridge : Bridge := .loading
  /-- `ctl` and `data` are set. -/
  shared : Bool := false
  wasm : Bool := false
  client : Bool := false
  ready : Ready := .notReady
  channel : List Message := [.init]
  /-- `failed` frames that were posted and not delivered. -/
  frames : List Text := []
  /-- The messages of `error` events that were not delivered. -/
  errors : List Text := []
  bridgeError : Option Text := none
  bridgeInitError : Option Text := none
  shim : Shim := .idle
  posted : Nat := 0
  /-- Whether each request that was delivered found what answering it takes. -/
  handed : List Bool := []
  results : List Result := []

inductive Label where
  /-- DuckDB's handler is called. -/
  | dispatch
  | handlerReturns
  /-- It calls `roundTrip`. -/
  | call
  /-- A call takes a step; `late` if its deadline is over when it looks at the clock. -/
  | shim (late : Bool)
  /-- The `message` listener is called. -/
  | frame
  /-- The `error` listener is called. -/
  | error
  /-- The bridge's script runs. -/
  | load
  /-- The bridge is delivered a message. -/
  | receive
  /-- What the bridge awaits is there, or the message of why not. -/
  | settle (failure : Option Text)
  /-- The bridge's thread takes a step. -/
  | bridge
  /-- The bridge cannot be loaded, or raises. -/
  | crash (message : Text)
deriving DecidableEq

/-! ## The texts -/

def startFailed (bridgeError : Text) : Text :=
  "quackhole bridge failed to start: ".toList ++ bridgeError

def initFailed (bridgeInitError : Option Text) : Text :=
  match bridgeInitError with
  | some message => "quackhole bridge failed to initialise: ".toList ++ message
  | none => "quackhole bridge failed to initialise".toList

def neverReady : Text :=
  "quackhole bridge never became ready".toList

/-- `event.message || ...`: a failure of another origin arrives with its message stripped. -/
def errorText (settings : Settings) (message : Text) : Text :=
  (orNull (some message)).getD ("could not load ".toList ++ settings.bridgeUrl)

/-! ## The steps -/

namespace World

/-- A call of `roundTrip` ends. -/
def ends (world : World) (outcome : Outcome) : World :=
  { world with
    shim := .handling
    results := world.results ++ [⟨world.bridgeError, world.bridgeInitError, outcome⟩] }

/-- A request that is handled now can be answered. -/
def usable (settings : Settings) (world : World) : Bool :=
  world.shared && (settings.mode != "iroh".toList || (world.wasm && world.client))

end World

/-- A step of a call of `roundTrip`. -/
def shimStep (late : Bool) (world : World) : Option World :=
  match world.shim with
  | .idle | .handling => none
  | .entering =>
      match orNull world.bridgeError with
      | some bridgeError => some (world.ends (.thrown (startFailed bridgeError)))
      | none => some { world with shim := .polling }
  | .polling =>
      match world.ready with
      | .notReady => if late then some (world.ends (.thrown neverReady)) else some world
      | _ => some { world with shim := .deciding }
  | .deciding =>
      match world.ready with
      | .failed => some { world with shim := .explaining }
      | _ => some { world with shim := .posting }
  | .explaining =>
      match orNull world.bridgeError with
      | some bridgeError => some (world.ends (.thrown (startFailed bridgeError)))
      | none => some (world.ends (.thrown (initFailed (orNull world.bridgeInitError))))
  | .posting =>
      some { world with
        shim := .exchanging
        channel := world.channel ++ [.request]
        posted := world.posted + 1 }
  | .exchanging => some (world.ends .exchanged)

/-- The bridge's `onmessage`, as far as it goes at once. -/
def onmessage (settings : Settings) (world : World) : Message → World
  | .init =>
      { world with
        shared := true
        bridge := if settings.mode = "iroh".toList then .transport else .starting }
  | .request => { world with handed := world.handed ++ [world.usable settings] }

/-- The bridge's thread is in its event loop. -/
def Bridge.free : Bridge → Bool
  | .listening | .transport | .connecting | .serving | .failed _ => true
  | .loading | .starting | .catching _ | .announcing _ => false

/-- What the bridge awaits is there, or the handler catches why it is not. -/
def settle (world : World) : Option Text → Option World
  | none =>
      match world.bridge with
      | .transport => some { world with wasm := true, bridge := .connecting }
      | .connecting => some { world with client := true, bridge := .starting }
      | _ => none
  | some message =>
      match world.bridge with
      | .transport => some { world with bridge := .catching message }
      | .connecting => some { world with bridge := .catching message }
      | _ => none

/-- A step of the handler of `INIT`. -/
def bridgeStep (world : World) : Option World :=
  match world.bridge with
  | .starting => some { world with ready := .ok, bridge := .serving }
  | .catching message =>
      some { world with frames := world.frames ++ [message], bridge := .announcing message }
  | .announcing message => some { world with ready := .failed, bridge := .failed message }
  | _ => none

def next (settings : Settings) : LStep Label World
  | .dispatch, world => if world.shim = .idle then some { world with shim := .handling } else none
  | .handlerReturns, world =>
      if world.shim = .handling then some { world with shim := .idle } else none
  | .call, world => if world.shim = .handling then some { world with shim := .entering } else none
  | .shim late, world => shimStep late world
  | .frame, world =>
      match world.shim, world.frames with
      | .idle, message :: frames =>
          some { world with frames, bridgeInitError := orNull (some message) }
      | _, _ => none
  | .error, world =>
      match world.shim, world.errors with
      | .idle, message :: errors =>
          some { world with
            errors
            bridgeError := some (errorText settings message)
            ready := .failed }
      | _, _ => none
  | .load, world =>
      match world.bridge with
      | .loading => some { world with bridge := .listening }
      | _ => none
  | .receive, world =>
      match world.channel with
      | [] => none
      | message :: channel =>
          if world.bridge.free then some (onmessage settings { world with channel } message)
          else none
  | .settle failure, world => settle world failure
  | .bridge, world => bridgeStep world
  | .crash message, world => some { world with errors := world.errors ++ [message] }

/-! ## What every run keeps -/

/-- The bridge has started or failed. -/
def Bridge.settled : Bridge → Bool
  | .serving | .failed _ => true
  | _ => false

/-- What is known of the world by how far the bridge has come. -/
def Bridge.Known (settings : Settings) (world : World) : Bridge → Prop
  | .loading | .listening => world.channel = [.init] ∧ world.posted = 0
  | .transport => world.shared ∧ world.channel = [] ∧ world.posted = 0
  | .connecting => world.shared ∧ world.wasm ∧ world.channel = [] ∧ world.posted = 0
  | .starting => world.usable settings ∧ world.channel = [] ∧ world.posted = 0
  | .serving => world.usable settings ∧ ∀ message ∈ world.channel, message = .request
  | .catching _ | .announcing _ | .failed _ => world.channel = [] ∧ world.posted = 0

/-- Where the reason of a bridge that could not start is. -/
def Bridge.Reported (frames : List Text) (bridgeInitError : Option Text) : Bridge → Prop
  | .announcing message | .failed message =>
      frames = [message] ∧ bridgeInitError = none ∨
        frames = [] ∧ bridgeInitError = orNull (some message)
  | _ => frames = [] ∧ bridgeInitError = none

/-- What a call came to, by what its thread had been told when it was made. -/
inductive Result.Told (bridge : Bridge) : Result → Prop
  | exchanged {bridgeInitError : Option Text} :
      bridge = .serving → Told bridge ⟨none, bridgeInitError, .exchanged⟩
  | neverReady {bridgeInitError : Option Text} :
      Told bridge ⟨none, bridgeInitError, .thrown neverReady⟩
  | startFailed {bridgeError : Text} {bridgeInitError : Option Text} :
      Told bridge ⟨some bridgeError, bridgeInitError, .thrown (startFailed bridgeError)⟩
  /-- The frame can be behind the flag, when the call was already waiting. -/
  | initFailed {bridgeInitError : Option Text} {message : Text} :
      bridge = .failed message →
      bridgeInitError = none ∨ bridgeInitError = orNull (some message) →
        Told bridge ⟨none, bridgeInitError, .thrown (initFailed bridgeInitError)⟩

/-- What is known of a call by how far it has come. -/
def Shim.Known (world : World) : Shim → Prop
  | .idle | .handling | .entering => True
  | .polling => world.bridgeError = none
  | .deciding => world.bridgeError = none ∧ world.ready ≠ .notReady
  | .explaining => world.bridgeError = none ∧ ∃ message, world.bridge = .failed message
  | .posting | .exchanging => world.bridgeError = none ∧ world.bridge = .serving

structure World.Sound (settings : Settings) (world : World) : Prop where
  bridge : world.bridge.Known settings world
  reported : world.bridge.Reported world.frames world.bridgeInitError
  shim : world.shim.Known world
  started : world.ready = .ok → world.bridge = .serving
  blamed : world.ready = .failed → world.bridgeError = none →
    ∃ message, world.bridge = .failed message
  named : world.bridgeError ≠ some []
  handed : ∀ usable ∈ world.handed, usable = true
  told : ∀ result ∈ world.results, result.Told world.bridge

theorem orNull_idem (text : Option Text) : orNull (orNull text) = orNull text := by
  rcases text with _ | _ | ⟨c, text⟩ <;> rfl

theorem orNull_of_ne_empty {text : Option Text} (present : text ≠ some []) :
    orNull text = text := by
  rcases text with _ | _ | ⟨c, text⟩
  · rfl
  · exact absurd rfl present
  · rfl

theorem errorText_ne_empty (settings : Settings) (message : Text) :
    errorText settings message ≠ [] := by
  rcases message with _ | ⟨c, message⟩
  · exact List.append_ne_nil_of_left_ne_nil (by decide) _
  · exact List.cons_ne_nil c message

/-- A bridge that serves, or has failed, goes on to. -/
theorem Result.Told.mono {bridge bridge' : Bridge} {result : Result} (told : result.Told bridge)
    (serving : bridge = .serving → bridge' = .serving)
    (failed : ∀ message, bridge = .failed message → bridge' = .failed message) :
    result.Told bridge' := by
  cases told with
  | exchanged serves => exact .exchanged (serving serves)
  | neverReady => exact .neverReady
  | startFailed => exact .startFailed
  | initFailed fails reason => exact .initFailed (failed _ fails) reason

namespace World.Sound

variable {settings : Settings} {world later : World}

/-- What the listeners know of a bridge that has failed. -/
theorem reason (sound : world.Sound settings) {message : Text}
    (failed : world.bridge = .failed message) :
    world.bridgeInitError = none ∨ world.bridgeInitError = orNull (some message) := by
  have reported := sound.reported
  rw [failed] at reported
  rcases reported with ⟨_, unheard⟩ | ⟨_, heard⟩
  · exact Or.inl unheard
  · exact Or.inr heard

/-- The thread of the DuckDB worker moves on. -/
theorem moves (sound : world.Sound settings) (shim : Shim) (known : shim.Known world) :
    World.Sound settings { world with shim } :=
  ⟨sound.bridge, sound.reported, by cases shim <;> exact known, sound.started, sound.blamed,
    sound.named, sound.handed, sound.told⟩

/-- A call ends. -/
theorem ends (sound : world.Sound settings) {outcome : Outcome}
    (told : Result.Told world.bridge ⟨world.bridgeError, world.bridgeInitError, outcome⟩) :
    World.Sound settings (world.ends outcome) := by
  refine ⟨sound.bridge, sound.reported, trivial, sound.started, sound.blamed, sound.named,
    sound.handed, fun result member => ?_⟩
  rcases List.mem_append.mp member with old | new
  · exact sound.told result old
  · obtain rfl := List.mem_singleton.mp new
    exact told

/-- A call that has read `READY_FAILED` ends. -/
theorem explained (sound : world.Sound settings) (at_ : world.shim = .explaining) :
    World.Sound settings (world.ends (.thrown (initFailed (orNull world.bridgeInitError)))) := by
  have known := sound.shim
  rw [at_] at known
  rcases known with ⟨unheard, message, failed⟩
  have reason := sound.reason failed
  have same : orNull world.bridgeInitError = world.bridgeInitError := by
    rcases reason with absent | heard
    · rw [absent]
      rfl
    · rw [heard, orNull_idem]
  apply sound.ends
  rw [unheard, same]
  exact .initFailed failed reason

theorem shimStep (sound : world.Sound settings) {late : Bool}
    (stepped : shimStep late world = some later) : later.Sound settings := by
  have known := sound.shim
  have present := orNull_of_ne_empty sound.named
  unfold Readiness.shimStep at stepped
  split at stepped
  case h_1 => cases stepped
  case h_2 => cases stepped
  case h_3 at_ =>
    rw [present] at stepped
    split at stepped
    · rename_i bridgeError heard
      cases stepped
      apply sound.ends
      rw [heard]
      exact .startFailed
    · rename_i unheard
      cases stepped
      exact sound.moves .polling unheard
  case h_4 at_ =>
    rw [at_] at known
    split at stepped
    · split at stepped <;> cases stepped
      · apply sound.ends
        rw [show world.bridgeError = none from known]
        exact .neverReady
      · exact sound
    · rename_i flag
      cases stepped
      exact sound.moves .deciding ⟨known, flag⟩
  case h_5 at_ =>
    rw [at_] at known
    split at stepped
    · rename_i flag
      cases stepped
      exact sound.moves .explaining ⟨known.1, sound.blamed flag known.1⟩
    · rename_i flag
      cases stepped
      refine sound.moves .posting ⟨known.1, sound.started ?_⟩
      cases shown : world.ready with
      | notReady => exact absurd shown known.2
      | ok => rfl
      | failed => exact absurd shown flag
  case h_6 at_ =>
    rw [at_] at known
    split at stepped
    · -- nothing is heard in a call, so what the `error` listener was told it was told before
      rename_i bridgeError heard
      rw [known.1] at heard
      cases heard
    · cases stepped
      exact sound.explained at_
  case h_7 at_ =>
    rw [at_] at known
    have bridge := sound.bridge
    rw [known.2] at bridge
    cases stepped
    refine ⟨?_, sound.reported, known, sound.started, sound.blamed, sound.named,
      sound.handed, sound.told⟩
    show Bridge.Known settings _ world.bridge
    rw [known.2]
    refine ⟨bridge.1, fun message member => ?_⟩
    rcases List.mem_append.mp member with old | new
    · exact bridge.2 message old
    · exact List.mem_singleton.mp new
  case h_8 at_ =>
    rw [at_] at known
    cases stepped
    apply sound.ends
    rw [known.1]
    exact .exchanged known.2

/-- The bridge moves before it has started or failed: no call is past the flag. -/
theorem moved (sound : world.Sound settings) (unsettled : world.bridge.settled = false)
    {bridge : Bridge} {shared wasm client : Bool} {ready : Ready} {channel : List Message}
    {frames : List Text}
    (known : bridge.Known settings
      { world with bridge, shared, wasm, client, ready, channel, frames })
    (reported : bridge.Reported frames world.bridgeInitError)
    (started : ready = .ok → world.ready = .ok ∨ bridge = .serving)
    (blamed : ready = .failed → world.ready = .failed ∨ ∃ message, bridge = .failed message) :
    World.Sound settings { world with bridge, shared, wasm, client, ready, channel, frames } := by
  have serving : world.bridge ≠ .serving := by
    intro serves
    rw [serves] at unsettled
    cases unsettled
  have failed (message : Text) : world.bridge ≠ .failed message := by
    intro fails
    rw [fails] at unsettled
    cases unsettled
  have blameless : world.ready = .failed → world.bridgeError ≠ none := by
    intro flag unheard
    rcases sound.blamed flag unheard with ⟨message, fails⟩
    exact failed message fails
  refine ⟨known, reported, ?_, ?_, ?_, sound.named, sound.handed, ?_⟩
  · have before := sound.shim
    show Shim.Known _ world.shim
    cases at_ : world.shim <;> rw [at_] at before
    case idle => trivial
    case handling => trivial
    case entering => trivial
    case polling => exact before
    case deciding =>
      cases flag : world.ready
      · exact absurd flag before.2
      · exact absurd (sound.started flag) serving
      · exact absurd before.1 (blameless flag)
    case explaining => exact absurd before.2.choose_spec (failed _)
    case posting => exact absurd before.2 serving
    case exchanging => exact absurd before.2 serving
  · intro flag
    rcases started flag with before | after
    · exact absurd (sound.started before) serving
    · exact after
  · intro flag unheard
    rcases blamed flag with before | after
    · exact absurd unheard (blameless before)
    · exact after
  · intro result member
    apply (sound.told result member).mono
    · intro serves
      exact absurd serves serving
    · intro message fails
      exact absurd fails (failed message)

theorem bridgeStep (sound : world.Sound settings)
    (stepped : bridgeStep world = some later) : later.Sound settings := by
  have known := sound.bridge
  have reported := sound.reported
  unfold Readiness.bridgeStep at stepped
  split at stepped
  case h_1 at_ =>
    rw [at_] at known reported
    cases stepped
    refine sound.moved (by rw [at_]; rfl) ⟨known.1, fun message member => ?_⟩ reported
      (fun _ => Or.inr rfl) Ready.noConfusion
    rw [show world.channel = [] from known.2.1] at member
    cases member
  case h_2 message at_ =>
    rw [at_] at known reported
    cases stepped
    refine sound.moved (by rw [at_]; rfl) known (Or.inl ⟨?_, reported.2⟩) Or.inl Or.inl
    rw [reported.1]
    rfl
  case h_3 message at_ =>
    rw [at_] at known reported
    cases stepped
    exact sound.moved (by rw [at_]; rfl) known reported Ready.noConfusion
      fun _ => Or.inr ⟨message, rfl⟩
  case h_4 => cases stepped

theorem settle (sound : world.Sound settings) {failure : Option Text}
    (stepped : settle world failure = some later) : later.Sound settings := by
  have known := sound.bridge
  have reported := sound.reported
  cases failure with
  | none =>
      dsimp only [Readiness.settle] at stepped
      split at stepped
      case h_1 at_ =>
        rw [at_] at known reported
        cases stepped
        exact sound.moved (by rw [at_]; rfl) ⟨known.1, rfl, known.2⟩ reported Or.inl Or.inl
      case h_2 at_ =>
        rw [at_] at known reported
        cases stepped
        refine sound.moved (by rw [at_]; rfl) ⟨?_, known.2.2⟩ reported Or.inl Or.inl
        simp [usable, known.1, known.2.1]
      case h_3 => cases stepped
  | some message =>
      dsimp only [Readiness.settle] at stepped
      split at stepped
      case h_1 at_ =>
        rw [at_] at known reported
        cases stepped
        exact sound.moved (by rw [at_]; rfl) known.2 reported Or.inl Or.inl
      case h_2 at_ =>
        rw [at_] at known reported
        cases stepped
        exact sound.moved (by rw [at_]; rfl) known.2.2 reported Or.inl Or.inl
      case h_3 => cases stepped

/-- A message is waiting when the bridge has not begun, or when it has started. -/
theorem receiver (sound : world.Sound settings) (some : world.channel ≠ [])
    (free : world.bridge.free = true) : world.bridge = .listening ∨ world.bridge = .serving := by
  have known := sound.bridge
  cases at_ : world.bridge <;> rw [at_] at known free
  case loading => cases free
  case listening => exact Or.inl rfl
  case transport => exact absurd known.2.1 some
  case connecting => exact absurd known.2.2.1 some
  case starting => cases free
  case serving => exact Or.inr rfl
  case catching => cases free
  case announcing => cases free
  case failed => exact absurd known.1 some

theorem receive (sound : world.Sound settings) {message : Message} {channel : List Message}
    (first : world.channel = message :: channel) (free : world.bridge.free = true) :
    World.Sound settings (onmessage settings { world with channel } message) := by
  have known := sound.bridge
  have reported := sound.reported
  have some : world.channel ≠ [] := by
    rw [first]
    exact List.cons_ne_nil _ _
  rcases sound.receiver some free with at_ | at_ <;> rw [at_] at known reported
  · rw [known.1] at first
    cases first
    by_cases iroh : settings.mode = "iroh".toList
    · have there : (if settings.mode = "iroh".toList then Bridge.transport else .starting) =
          .transport := if_pos iroh
      simp only [onmessage, there]
      exact sound.moved (by rw [at_]; rfl) ⟨rfl, rfl, known.2⟩ reported Or.inl Or.inl
    · have there : (if settings.mode = "iroh".toList then Bridge.transport else .starting) =
          .starting := if_neg iroh
      have other : (settings.mode != "iroh".toList) = true := bne_iff_ne.mpr iroh
      simp only [onmessage, there]
      refine sound.moved (by rw [at_]; rfl) ⟨?_, rfl, known.2⟩ reported Or.inl Or.inl
      rw [usable, other]
      rfl
  · obtain rfl := known.2 message (first ▸ List.mem_cons_self)
    refine ⟨?_, sound.reported, sound.shim, sound.started, sound.blamed, sound.named, ?_,
      sound.told⟩
    · show Bridge.Known settings _ world.bridge
      rw [at_]
      refine ⟨known.1, fun message member => known.2 message ?_⟩
      rw [first]
      exact List.mem_cons_of_mem _ member
    · intro usable member
      rcases List.mem_append.mp member with old | new
      · exact sound.handed usable old
      · rw [List.mem_singleton.mp new]
        exact known.1

/-- The `message` listener is called. -/
theorem frame (sound : world.Sound settings) (idle : world.shim = .idle) {message : Text}
    {frames : List Text} (first : world.frames = message :: frames) :
    World.Sound settings { world with frames, bridgeInitError := orNull (some message) } := by
  have reported : world.bridge.Reported frames (orNull (some message)) := by
    have before := sound.reported
    rw [first] at before
    cases at_ : world.bridge <;> rw [at_] at before
    case announcing reason =>
      rcases before with ⟨only, _⟩ | ⟨none, _⟩
      · cases only
        exact Or.inr ⟨rfl, rfl⟩
      · cases none
    case failed reason =>
      rcases before with ⟨only, _⟩ | ⟨none, _⟩
      · cases only
        exact Or.inr ⟨rfl, rfl⟩
      · cases none
    all_goals cases before.1
  refine ⟨sound.bridge, reported, ?_, sound.started, sound.blamed, sound.named, sound.handed,
    sound.told⟩
  show Shim.Known _ world.shim
  rw [idle]
  trivial

/-- The `error` listener is called. -/
theorem error (sound : world.Sound settings) (idle : world.shim = .idle) {errors : List Text}
    (message : Text) :
    World.Sound settings
      { world with
        errors
        bridgeError := some (errorText settings message)
        ready := .failed } := by
  refine ⟨sound.bridge, sound.reported, ?_, Ready.noConfusion,
    fun _ unheard => absurd unheard (Option.some_ne_none _), ?_, sound.handed, sound.told⟩
  · show Shim.Known _ world.shim
    rw [idle]
    trivial
  · intro empty
    exact errorText_ne_empty settings message (Option.some.inj empty)

theorem next (sound : world.Sound settings) {label : Label}
    (stepped : next settings label world = some later) : later.Sound settings := by
  cases label <;> dsimp only [Readiness.next] at stepped
  case dispatch =>
    split at stepped <;> cases stepped
    exact sound.moves .handling trivial
  case handlerReturns =>
    split at stepped <;> cases stepped
    exact sound.moves .idle trivial
  case call =>
    split at stepped <;> cases stepped
    exact sound.moves .entering trivial
  case shim late => exact sound.shimStep stepped
  case frame =>
    split at stepped <;> cases stepped
    exact sound.frame ‹_› ‹_›
  case error =>
    split at stepped <;> cases stepped
    exact sound.error ‹_› _
  case load =>
    split at stepped <;> cases stepped
    rename_i at_
    have known := sound.bridge
    have reported := sound.reported
    rw [at_] at known reported
    exact sound.moved (by rw [at_]; rfl) known reported Or.inl Or.inl
  case receive =>
    split at stepped
    · cases stepped
    · split at stepped <;> cases stepped
      exact sound.receive ‹_› ‹_›
  case settle failure => exact sound.settle stepped
  case bridge => exact sound.bridgeStep stepped
  case crash message =>
    cases stepped
    exact ⟨sound.bridge, sound.reported, sound.shim, sound.started, sound.blamed, sound.named,
      sound.handed, sound.told⟩

end World.Sound

section Runs

variable {settings : Settings} {world later : World}

theorem sound_of_reachable (run : Reachable (next settings) {} world) : world.Sound settings := by
  apply run.invariant (World.Sound settings)
  · exact ⟨⟨rfl, rfl⟩, ⟨rfl, rfl⟩, trivial, Ready.noConfusion, Ready.noConfusion,
      (Option.some_ne_none []).symm, fun _ member => absurd member List.not_mem_nil,
      fun _ member => absurd member List.not_mem_nil⟩
  · intro label world later _ sound stepped
    exact sound.next stepped

/-- However the start of the bridge and the calls interleave, every request that is delivered
finds the shared memory and the endpoint it needs, and a bridge that could not start is sent
none. -/
theorem handed_usable (run : Reachable (next settings) {} world) :
    (∀ usable ∈ world.handed, usable = true) ∧
      ∀ message, world.bridge = .failed message → world.posted = 0 := by
  have sound := sound_of_reachable run
  refine ⟨sound.handed, fun message failed => ?_⟩
  have known := sound.bridge
  rw [failed] at known
  exact known.2

/-- However the start of the bridge and the calls interleave, each call that posts nothing says
why, as far as its thread had been told when the call was made. -/
theorem results_told (run : Reachable (next settings) {} world) :
    ∀ result ∈ world.results, result.Told world.bridge :=
  (sound_of_reachable run).told

/-! ## After an `error` event -/

/-- What a step adds to a world in which the `error` event was heard. -/
structure World.Adds (world later : World) : Prop where
  heard : later.bridgeError ≠ none
  posted : later.posted = world.posted
  results : ∃ ended, later.results = world.results ++ ended ∧
    ∀ result ∈ ended, ∃ bridgeError, result.bridgeError = some bridgeError ∧
      result.outcome = .thrown (startFailed bridgeError)

namespace World.Adds

theorem quiet (heard : later.bridgeError ≠ none) (posted : later.posted = world.posted)
    (results : later.results = world.results) : world.Adds later :=
  ⟨heard, posted, [], results.trans (List.append_nil _).symm,
    fun _ member => absurd member List.not_mem_nil⟩

theorem trans {middle : World} (first : world.Adds middle) (second : middle.Adds later) :
    world.Adds later := by
  rcases first.results with ⟨ended, before, told⟩
  rcases second.results with ⟨ended', after, told'⟩
  refine ⟨second.heard, second.posted.trans first.posted, ended ++ ended', ?_, ?_⟩
  · rw [after, before, List.append_assoc]
  · intro result member
    rcases List.mem_append.mp member with old | new
    · exact told result old
    · exact told' result new

end World.Adds

namespace World.Sound

/-- A call that is made now ends at once. -/
theorem adds_shimStep (sound : world.Sound settings) (heard : world.bridgeError ≠ none)
    {late : Bool} (stepped : Readiness.shimStep late world = some later) : world.Adds later := by
  have known := sound.shim
  unfold Readiness.shimStep at stepped
  split at stepped
  case h_1 => cases stepped
  case h_2 => cases stepped
  case h_3 at_ =>
    rw [orNull_of_ne_empty sound.named] at stepped
    split at stepped
    · rename_i bridgeError told
      cases stepped
      refine ⟨heard, rfl, _, rfl, fun result member => ⟨bridgeError, ?_⟩⟩
      rw [List.mem_singleton.mp member]
      exact ⟨told, rfl⟩
    · contradiction
  case h_4 at_ =>
    rw [at_] at known
    exact absurd known heard
  all_goals
    rename_i at_
    rw [at_] at known
    exact absurd known.1 heard

theorem adds (sound : world.Sound settings) (heard : world.bridgeError ≠ none) {label : Label}
    (stepped : Readiness.next settings label world = some later) : world.Adds later := by
  cases label <;> dsimp only [Readiness.next] at stepped
  case shim late => exact sound.adds_shimStep heard stepped
  case error =>
    split at stepped <;> cases stepped
    exact .quiet (Option.some_ne_none _) rfl rfl
  case receive =>
    split at stepped
    · cases stepped
    · split at stepped <;> cases stepped
      rename_i message _ _ _
      cases message <;> exact .quiet heard rfl rfl
  case settle failure =>
    cases failure <;> dsimp only [Readiness.settle] at stepped <;> split at stepped <;>
      cases stepped <;> exact .quiet heard rfl rfl
  case bridge =>
    unfold Readiness.bridgeStep at stepped
    split at stepped <;> cases stepped <;> exact .quiet heard rfl rfl
  case crash message =>
    cases stepped
    exact .quiet heard rfl rfl
  all_goals
    split at stepped <;> cases stepped
    exact .quiet heard rfl rfl

end World.Sound

/-- A call has not come past its first step, and is about to fail there. -/
structure World.Refuses (settings : Settings) (world : World) (bridgeError : Text) : Prop where
  told : world.bridgeError = some bridgeError
  first : world.shim = .idle ∨ world.shim = .handling ∨ world.shim = .entering
  made : world.shim = .handling → ∀ late,
    exec (next settings) [.call, .shim late] world =
      some (world.ends (.thrown (startFailed bridgeError)))
  entered : world.shim = .entering → ∀ late,
    next settings (.shim late) world = some (world.ends (.thrown (startFailed bridgeError)))

theorem World.Sound.refuses (sound : world.Sound settings) {bridgeError : Text}
    (told : world.bridgeError = some bridgeError) : world.Refuses settings bridgeError := by
  have unheard : world.bridgeError ≠ none := by
    rw [told]
    exact Option.some_ne_none _
  have known := sound.shim
  have fails : ∀ entering : World, entering.shim = .entering →
      entering.bridgeError = some bridgeError → ∀ late,
        Readiness.next settings (.shim late) entering =
          some (entering.ends (.thrown (startFailed bridgeError))) := by
    intro entering at_ told late
    have present : orNull (some bridgeError) = some bridgeError :=
      orNull_of_ne_empty fun empty => sound.named (by rwa [‹world.bridgeError = _›])
    rw [Readiness.next, Readiness.shimStep, at_, told]
    simp only [present]
  refine ⟨told, ?_, ?_, fun entering => fails world entering told⟩
  · cases at_ : world.shim <;> rw [at_] at known
    case idle => exact Or.inl rfl
    case handling => exact Or.inr (Or.inl rfl)
    case entering => exact Or.inr (Or.inr rfl)
    case polling => exact absurd known unheard
    all_goals exact absurd known.1 unheard
  · intro handling late
    have called : Readiness.next settings .call world = some { world with shim := .entering } :=
      if_pos handling
    rw [exec, called, Option.bind_some, exec, fails { world with shim := .entering } rfl told]
    rfl

/-- Once the `error` event of the bridge was heard, whatever comes after, no request is posted,
and every call fails at its first step, saying what was heard. -/
theorem fails_of_bridgeError (run : Reachable (next settings) {} world)
    (heard : world.bridgeError ≠ none) (goes : Reachable (next settings) world later) :
    later.posted = world.posted ∧
      (∃ bridgeError, later.Refuses settings bridgeError) ∧
      ∃ ended, later.results = world.results ++ ended ∧
        ∀ result ∈ ended, ∃ bridgeError, result.bridgeError = some bridgeError ∧
          result.outcome = .thrown (startFailed bridgeError) := by
  have both : later.Sound settings ∧ world.Adds later := by
    apply goes.invariant fun state => state.Sound settings ∧ world.Adds state
    · exact ⟨sound_of_reachable run, .quiet heard rfl rfl⟩
    · intro label state state' _ holds stepped
      exact ⟨holds.1.next stepped, holds.2.trans (holds.1.adds holds.2.heard stepped)⟩
  obtain ⟨bridgeError, told⟩ := Option.ne_none_iff_exists'.mp both.2.heard
  exact ⟨both.2.posted, ⟨bridgeError, both.1.refuses told⟩, both.2.results⟩

end Runs

/-! ## A bridge that starts, one that fails and one that is not there -/

def sampleSettings : Settings where
  bridgeUrl := "https://cdn.example/bridge-worker.js".toList

/-- DuckDB's handler makes a call, which comes as far as the flag. -/
def asks : List Label :=
  [.dispatch, .call, .shim false, .shim false, .shim false, .shim false]

theorem exec_starts :
    (exec (next sampleSettings)
        ([.load, .receive, .settle none, .settle none, .bridge] ++ asks ++ [.receive]) {}).map
      (·.handed) = some [true] := by
  decide +kernel

theorem handed_usable_starts :
    ∃ world, Reachable (next sampleSettings) {} world ∧ world.handed = [true] ∧
      (∀ usable ∈ world.handed, usable = true) ∧
        ∀ message, world.bridge = .failed message → world.posted = 0 := by
  rcases Option.map_eq_some_iff.mp exec_starts with ⟨world, ran, handed⟩
  exact ⟨world, reachable_of_exec ran, handed, handed_usable (reachable_of_exec ran)⟩

/-- The first call is waiting when the bridge fails, and the next one is made after the frame. -/
def fails : List Label :=
  [.load, .receive, .settle (some "relay".toList), .dispatch, .call, .shim false, .bridge,
    .bridge, .shim false, .shim false, .shim false, .handlerReturns, .frame] ++ asks.take 5 ++
      [.shim false]

theorem exec_fails :
    (exec (next sampleSettings) fails {}).map (·.results.map (·.outcome)) =
      some [.thrown "quackhole bridge failed to initialise".toList,
        .thrown "quackhole bridge failed to initialise: relay".toList] := by
  decide +kernel

theorem results_told_fails :
    ∃ world, Reachable (next sampleSettings) {} world ∧
      world.results.map (·.outcome) =
        [.thrown "quackhole bridge failed to initialise".toList,
          .thrown "quackhole bridge failed to initialise: relay".toList] ∧
      ∀ result ∈ world.results, result.Told world.bridge := by
  rcases Option.map_eq_some_iff.mp exec_fails with ⟨world, ran, outcomes⟩
  exact ⟨world, reachable_of_exec ran, outcomes, results_told (reachable_of_exec ran)⟩

/-- The script of the bridge is not there. -/
def missing : List Label :=
  [.crash [], .error]

theorem exec_missing :
    (exec (next sampleSettings) missing {}).map (·.bridgeError) =
      some (some "could not load https://cdn.example/bridge-worker.js".toList) := by
  decide +kernel

theorem fails_of_bridgeError_missing :
    ∃ world later, Reachable (next sampleSettings) {} world ∧
      world.bridgeError = some "could not load https://cdn.example/bridge-worker.js".toList ∧
      exec (next sampleSettings) (asks.take 3) world = some later ∧
      later.posted = world.posted ∧
        (∃ bridgeError, later.Refuses sampleSettings bridgeError) ∧
        ∃ ended, later.results = world.results ++ ended ∧
          ∀ result ∈ ended, ∃ bridgeError, result.bridgeError = some bridgeError ∧
            result.outcome = .thrown (startFailed bridgeError) := by
  rcases Option.map_eq_some_iff.mp exec_missing with ⟨world, ran, heard⟩
  have goes : (exec (next sampleSettings) (missing ++ asks.take 3) {}).isSome = true := by
    decide +kernel
  rcases Option.isSome_iff_exists.mp goes with ⟨later, ran'⟩
  rw [exec_append, ran, Option.bind_some] at ran'
  refine ⟨world, later, reachable_of_exec ran, heard, ran', ?_⟩
  refine fails_of_bridgeError (reachable_of_exec ran) ?_ (reachable_of_exec ran')
  rw [heard]
  exact Option.some_ne_none _

end Quackhole.Web.Readiness
