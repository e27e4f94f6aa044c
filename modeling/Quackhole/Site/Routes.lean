import Quackhole.Web.Interleaving
import Quackhole.Word.Record

/-!
# The routes on the page

The page draws a route for each remote when it is dialled, and removes the routes whose names
no connection has.  The calls of the session, of which the page awaits some, may overlap; what
follows a call runs at some point after it is over.
-/

namespace Quackhole.Site.Routes

open Quackhole.Word Quackhole.Ticket Quackhole.Transition
open Web.Remotes (World Event Task Phase Reply Record firstPhase uniqueName_notMem)
open Web.Remotes.World (Changes Role changes_spawn changes_set changes_executed claims_executed
  of_opening claim_opened)

/-! ## The page -/

/-- The session with its calls, and what is drawn. -/
structure Page where
  world : World
  /-- The route of a name, by the number of the attach that drew it. -/
  views : List (Text × Nat) := []
  /-- The routes in the document. -/
  wireList : List Nat := []
  /-- The calls that are over, before their callers go on. -/
  settled : List Nat := []

/-- What goes on when a call is over. -/
inductive Sequel where
  | syncWires
  | refreshSchema
  | nothing
deriving DecidableEq

/-- A failed attach is caught by `addRemote`, and `tables` returns to `refreshSchema`; `attached`,
`dropRemote` and `afterQuery` refresh. -/
def sequel (task : Task) : Sequel :=
  match task.call, task.phase with
  | .attach _ _, .ended (.error _) | .reconcile, _ => .syncWires
  | .attach _ _, _ | .detach _, _ | .typed _, .ended (.ok _) => .refreshSchema
  | .typed _, _ => .nothing

/-- What can happen. -/
inductive Happening where
  | session (event : Event)
  /-- The caller of a call that is over goes on. -/
  | goOn (index : Nat)

def isEnded : Phase → Bool
  | .ended _ => true
  | _ => false

/-- The call that an event may end. -/
def touched : Event → Option Nat
  | .parsed index _ | .resume index => some index
  | .call _ | .execute _ => none

/-- The calls that have just ended. -/
def justEnded (world : World) (event : Event) : List Nat :=
  (touched event).toList.filter fun index =>
    (world.tasks[index]?.map fun task => isEnded task.phase) = some true

section Iroh

variable {Id Url : Type} (iroh : Iroh Id Url) (codec : TicketCodec)

/-- The attach that calls `onDialing`, and the name in its record. -/
def dialing (world : World) : Event → Option (Nat × Text)
  | .parsed index none =>
      match world.tasks[index]?.map Task.call with
      | some (.attach ticket name) =>
          match world.opening iroh codec ticket name with
          | .ok (_, record) => some (index, record.name)
          | .error _ => none
      | _ => none
  | _ => none

end Iroh

namespace Page

variable (page : Page)

/-- Is there a connection of this name? -/
def connected (name : Text) : Bool :=
  page.world.session.names.contains name

def addWire (index : Nat) (name : Text) : Page :=
  { page with
    views := Word.Record.put name index page.views
    wireList := page.wireList ++ [index] }

/-- The routes whose names no connection has. -/
def gone : List Nat :=
  (page.views.filter fun view => !page.connected view.1).map Prod.snd

def syncWires : Page :=
  { page with
    views := page.views.filter fun view => page.connected view.1
    wireList := page.wireList.filter fun index => !page.gone.contains index }

/-- `refreshSchema`, up to `tables`. -/
def refreshSchema : Page :=
  { page with world := page.world.spawn .reconcile }

def perform : Sequel → Page
  | .syncWires => page.syncWires
  | .refreshSchema => page.refreshSchema
  | .nothing => page

/-- The route of an attach that is about to dial goes up. -/
def draw : Option (Nat × Text) → Page
  | some (index, name) => page.addWire index name
  | none => page

section Iroh

variable {Id Url : Type} (iroh : Iroh Id Url) (codec : TicketCodec)

/-- The page when the session has moved. -/
def moved (event : Event) (world : World) : Page :=
  { page.draw (dialing iroh codec page.world event) with
    world := world
    settled := page.settled ++ justEnded world event }

/-- One step. -/
def next : LStep Happening Page
  | .session event, page =>
      (World.next iroh codec event page.world).map fun world => page.moved iroh codec event world
  | .goOn index, page =>
      if page.settled.contains index then
        page.world.tasks[index]?.map fun task =>
          { page with settled := page.settled.erase index }.perform (sequel task)
      else none

/-- An attach is past its check and not yet over. -/
def Dials : Prop :=
  ∃ task ∈ page.world.tasks, task.claim ≠ none

instance : Decidable page.Dials :=
  inferInstanceAs (Decidable (∃ task ∈ page.world.tasks, task.claim ≠ none))

/-- Does the caller of a call that is over remove routes? -/
def syncs (index : Nat) : Bool :=
  (page.world.tasks[index]?.map sequel) = some .syncWires

/-- Nothing is being dialled when routes are removed, and no route has the name of one that goes
up. -/
def Patient : Happening → Prop
  | .session event =>
      ∀ drawn ∈ dialing iroh codec page.world event, drawn.2 ∉ page.views.map Prod.fst
  | .goOn index => page.syncs index = true → ¬ page.Dials

instance (happening : Happening) : Decidable (page.Patient iroh codec happening) :=
  match happening with
  | .session event =>
      inferInstanceAs (Decidable (∀ drawn ∈ dialing iroh codec page.world event,
        drawn.2 ∉ page.views.map Prod.fst))
  | .goOn index => inferInstanceAs (Decidable (page.syncs index = true → ¬ page.Dials))

end Iroh

/-- Nothing is in progress. -/
structure AtRest : Prop where
  calls : ∀ task ∈ page.world.tasks, isEnded task.phase = true
  settled : page.settled = []

/-- Nothing was called or drawn yet. -/
structure Opened : Prop where
  idle : page.world.Idle
  views : page.views = []
  wireList : page.wireList = []

/-- The routes in the document are those of the views, each once, and every remote that is listed
or being dialled has its own. -/
structure Shown : Prop where
  names : (page.views.map Prod.fst).Nodup
  routes : page.wireList = page.views.map Prod.snd
  single : page.wireList.Nodup
  claimed : ∀ {index record}, page.world.Claims index record → (record.name, index) ∈ page.views

end Page

/-! ## What an event does to the calls -/

/-- A call of a typed statement waits for it, or is over. -/
def Fits (task : Task) : Prop :=
  ∀ name, task.call = .typed name →
    (∃ other, task.phase = .typing other) ∨ isEnded task.phase = true

/-- A call made a step. -/
structure Turn {Id Url : Type} (iroh : Iroh Id Url) (codec : TicketCodec) (event : Event)
    (world later : World) (index : Nat) (task : Task) : Prop where
  changes : world.Changes index task later
  localName : later.localName = world.localName
  finishes : isEnded task.phase = true → index ∈ justEnded later event
  begun : ∀ old, world.tasks[index]? = some old → task.phase ≠ .parsing
  fits : (∀ old, world.tasks[index]? = some old → Fits old) → Fits task
  listed : ∀ entry ∈ later.listed, entry ∈ world.listed ∨
    entry.1 = index ∧ task.claim = none ∧ world.Role Task.claim index entry.2
  claim : ∀ record, task.claim = some record → world.Role Task.claim index record ∨
    dialing iroh codec world event = some (index, record.name)
  draws : ∀ drawn ∈ dialing iroh codec world event, drawn.1 = index ∧
    (∃ old, world.tasks[index]? = some old ∧ old.phase = .parsing) ∧
    (∃ record, task.claim = some record) ∧ drawn.2 ∉ world.session.names
  typed : ∀ name, task.call = .typed name → later.listed = world.listed

section Turns

variable {Id Url : Type} {iroh : Iroh Id Url} {codec : TicketCodec} {world later : World}
  {index : Nat} {task : Task}

theorem mem_justEnded {event : Event} (here : touched event = some index)
    (found : later.tasks[index]? = some task) (ended : isEnded task.phase = true) :
    index ∈ justEnded later event := by
  rw [justEnded, here]
  apply List.mem_filter.mpr
  refine ⟨List.mem_singleton.mpr rfl, decide_eq_true ?_⟩
  rw [found, Option.map_some, ended]

theorem turn_spawn (call : Web.Remotes.Call (Nat × Record)) :
    Turn iroh codec (.call call) world (world.spawn call) world.tasks.length
      { call := call, phase := firstPhase call } where
  changes := changes_spawn call
  localName := rfl
  finishes ended := by cases call <;> cases ended
  begun old found := by
    rw [List.getElem?_eq_none (Nat.le_refl _)] at found
    cases found
  fits _ name same := by
    cases same
    exact Or.inl ⟨name, rfl⟩
  listed entry member := Or.inl member
  claim record claim := by cases call <;> cases claim
  draws drawn member := by cases member
  typed _ _ := rfl

theorem not_ended_of_statement {phase : Phase} {statement : Web.Remotes.Statement}
    (issued : phase.statement = some statement) : isEnded phase = false := by
  cases phase <;> first | rfl | cases issued

theorem turn_executed (found : world.tasks[index]? = some task) {statement : Web.Remotes.Statement}
    (issued : task.phase.statement = some statement) (accepts : Bool) :
    Turn iroh codec (.execute accepts) world (world.executed index task statement accepts) index
      { task with reply := some (world.db.execute accepts statement).1 } where
  changes := changes_executed found statement accepts
  localName := rfl
  finishes ended := absurd ended (Bool.eq_false_iff.mp (not_ended_of_statement issued))
  begun old _ := by
    obtain ⟨call, phase, reply⟩ := task
    rintro rfl
    cases issued
  fits before := before task found
  listed entry member := Or.inl member
  claim record claim := Or.inl ⟨task, found, claim⟩
  draws drawn member := by cases member
  typed _ _ := rfl

/-- Where a call goes on, it has no record but the one it had. -/
theorem claim_of_after {call : Web.Remotes.Call (Nat × Record)} {phase : Phase}
    {reply : Option Reply} {record : Record}
    (claim : (Task.mk call (phase.after reply) none).claim = some record) :
    (Task.mk call phase (some reply)).claim = some record := by
  cases phase with
  | creating peer own =>
      cases reply with
      | none => cases claim
      | some answer => exact claim
  | typing name => cases reply <;> cases claim
  | attaching peer own => cases reply <;> cases claim
  | _ => cases claim

theorem listed_of_listedAfter {phase : Phase} {reply : Option Reply} {entry : Nat × Record}
    (member : entry ∈ world.listedAfter index phase reply) :
    entry ∈ world.listed ∨ ∃ peer answer, phase = .attaching peer entry.2 ∧ reply = some answer ∧
      entry.1 = index := by
  unfold World.listedAfter at member
  split at member
  · rename_i peer record answer
    rcases List.mem_append.mp member with old | new
    · exact Or.inl old
    · obtain rfl := List.mem_singleton.mp new
      exact Or.inr ⟨peer, answer, rfl, rfl, rfl⟩
  · exact Or.inl (List.mem_filter.mp member).1
  · exact Or.inl member

/-- A typed statement goes on to its end. -/
theorem fits_after {call : Web.Remotes.Call (Nat × Record)} {phase : Phase}
    {answer reply : Option (Option Reply)} (fits : Fits ⟨call, phase, answer⟩) (result : Option Reply) :
    Fits ⟨call, phase.after result, reply⟩ := by
  intro name typed
  right
  rcases fits name typed with ⟨other, waits⟩ | ended
  · obtain rfl : phase = .typing other := waits
    cases result <;> rfl
  · cases phase <;> first | rfl | cases ended

theorem turn_resumed (found : world.tasks[index]? = some task) {statement : Web.Remotes.Statement}
    (issued : task.phase.statement = some statement) {reply : Option Reply}
    (replied : task.reply = some reply) (fits : Fits task) :
    Turn iroh codec (.resume index) world (world.resumed index task reply) index
      { call := task.call, phase := task.phase.after reply } := by
  have changes : world.Changes index { call := task.call, phase := task.phase.after reply }
      (world.resumed index task reply) :=
    changes_set found (task.phase.after reply) none _ _ _
  obtain ⟨call, phase, answer⟩ := task
  obtain rfl : answer = some reply := replied
  refine ⟨changes, rfl, ?_, ?_, ?_, ?_, ?_, ?_, ?_⟩
  · exact mem_justEnded rfl ((changes.tasks index).trans (if_pos rfl))
  · intro old _ begins
    cases phase <;> cases issued <;> cases reply <;> cases begins
  · intro before
    exact fits_after (before _ found) reply
  · intro entry member
    rcases listed_of_listedAfter member with old | ⟨peer, answer, attaching, rfl, own⟩
    · exact Or.inl old
    · obtain rfl : phase = .attaching peer entry.2 := attaching
      exact Or.inr ⟨own, rfl, _, found, rfl⟩
  · intro record claim
    exact Or.inl ⟨_, found, claim_of_after claim⟩
  · intro drawn member
    cases member
  · intro name typed
    rcases fits name typed with ⟨other, waits⟩ | ended
    · obtain rfl : phase = .typing other := waits
      rfl
    · exact absurd ended (Bool.eq_false_iff.mp (not_ended_of_statement issued))

theorem dialing_parsed (found : world.tasks[index]? = some task) {ticket name : Text}
    (made : task.call = .attach ticket name) :
    dialing iroh codec world (.parsed index none) =
      match world.opening iroh codec ticket name with
      | .ok (_, record) => some (index, record.name)
      | .error _ => none := by
  rw [dialing, found, Option.map_some, made]

/-- An attach that does not pass its check. -/
theorem turn_failed (found : world.tasks[index]? = some task) {ticket name : Text}
    (made : task.call = .attach ticket name) {failure : Option String}
    (undrawn : dialing iroh codec world (.parsed index failure) = none)
    (thrown : Web.Remotes.Thrown) :
    Turn iroh codec (.parsed index failure) world
      (world.goOn index task.call (.ended (.error thrown))) index
      { call := task.call, phase := .ended (.error thrown) } := by
  have changes : world.Changes index { call := task.call, phase := .ended (.error thrown) }
      (world.goOn index task.call (.ended (.error thrown))) :=
    changes_set found _ none _ _ _
  refine ⟨changes, rfl, ?_, ?_, ?_, ?_, ?_, ?_, ?_⟩
  · exact mem_justEnded rfl ((changes.tasks index).trans (if_pos rfl))
  · intro old _ begins
    cases begins
  · exact fun _ _ _ => Or.inr rfl
  · exact fun entry member => Or.inl member
  · intro record claim
    cases claim
  · intro drawn member
    rw [undrawn] at member
    cases member
  · intro other typed
    cases made.symm.trans typed

/-- An attach that passes its check. -/
theorem turn_opened (found : world.tasks[index]? = some task) (parsing : task.phase = .parsing)
    {ticket name : Text} (made : task.call = .attach ticket name) {peer : Peer} {record : Record}
    (passes : world.opening iroh codec ticket name = .ok (peer, record)) :
    Turn iroh codec (.parsed index none) world
      (world.goOn index task.call (.opened peer record)) index
      { call := task.call, phase := .opened peer record } := by
  have changes : world.Changes index { call := task.call, phase := .opened peer record }
      (world.goOn index task.call (.opened peer record)) :=
    changes_set found _ none _ _ _
  have drawn : dialing iroh codec world (.parsed index none) = some (index, record.name) := by
    rw [dialing_parsed found made, passes]
  have claimed := claim_opened task.call peer record
  have waits : isEnded (.opened peer record) = false ∧ Phase.opened peer record ≠ .parsing := by
    rw [Phase.opened]
    split <;> exact ⟨rfl, Phase.noConfusion⟩
  refine ⟨changes, rfl, ?_, ?_, ?_, ?_, ?_, ?_, ?_⟩
  · intro ended
    exact absurd ended (Bool.eq_false_iff.mp waits.1)
  · exact fun _ _ => waits.2
  · intro _ other typed
    cases made.symm.trans typed
  · exact fun entry member => Or.inl member
  · intro record' claim
    obtain rfl := Option.some.inj (claimed.symm.trans claim)
    exact Or.inr drawn
  · intro pair member
    obtain rfl := Option.some.inj (drawn.symm.trans member)
    refine ⟨rfl, ⟨task, found, parsing⟩, ⟨record, claimed⟩, ?_⟩
    rw [(of_opening passes).2.2]
    exact uniqueName_notMem _ _
  · intro other typed
    cases made.symm.trans typed

/-- Whatever happens in the session is a step of one call. -/
theorem exists_turn {event : Event} (fits : ∀ task ∈ world.tasks, Fits task)
    (moved : World.next iroh codec event world = some later) :
    ∃ index task, Turn iroh codec event world later index task := by
  cases event with
  | call call =>
      cases moved
      exact ⟨_, _, turn_spawn call⟩
  | parsed index failure =>
      rcases Option.bind_eq_some_iff.mp moved with ⟨task, found, moved⟩
      split at moved
      · rename_i ticket name parsing made
        cases moved
        cases failure with
        | some message => exact ⟨_, _, turn_failed found made rfl (.message message)⟩
        | none =>
            have drawn : dialing iroh codec world (.parsed index none) = _ :=
              dialing_parsed found made
            rw [World.parsed]
            split
            · rename_i thrown fails
              rw [fails] at drawn
              exact ⟨_, _, turn_failed found made drawn thrown⟩
            · rename_i peer record passes
              exact ⟨_, _, turn_opened found parsing made passes⟩
      · cases moved
  | execute accepts =>
      rcases Option.bind_eq_some_iff.mp moved with ⟨index, first, moved⟩
      rcases Option.bind_eq_some_iff.mp moved with ⟨task, found, moved⟩
      rcases Option.map_eq_some_iff.mp moved with ⟨statement, issued, rfl⟩
      exact ⟨_, _, turn_executed found issued accepts⟩
  | resume index =>
      rcases Option.bind_eq_some_iff.mp moved with ⟨task, found, moved⟩
      rcases Option.bind_eq_some_iff.mp moved with ⟨statement, issued, moved⟩
      rcases Option.map_eq_some_iff.mp moved with ⟨reply, replied, rfl⟩
      exact ⟨_, _, turn_resumed found issued replied (fits task (List.mem_of_getElem? found))⟩

theorem Turn.found {event : Event} (turn : Turn iroh codec event world later index task) :
    later.tasks[index]? = some task :=
  (turn.changes.tasks index).trans (if_pos rfl)

/-- Who has a record had it before, or is about to dial. -/
theorem Turn.claims {event : Event} (turn : Turn iroh codec event world later index task)
    {other : Nat} {record : Record} (claims : later.Claims other record) :
    world.Claims other record ∨ dialing iroh codec world event = some (other, record.name) := by
  rcases claims with member | has
  · rcases turn.listed _ member with old | ⟨same, _, own⟩
    · exact Or.inl (Or.inl old)
    · obtain rfl : other = index := same
      exact Or.inl (Or.inr own)
  · by_cases here : other = index
    · subst here
      exact (turn.claim record (turn.changes.role_self.mp has)).imp_left Or.inr
    · exact Or.inl (Or.inr ((turn.changes.role_of_ne here).mp has))

theorem claim_of_ended (ended : isEnded task.phase = true) : task.claim = none := by
  obtain ⟨call, phase, reply⟩ := task
  cases phase <;> first | rfl | cases ended

theorem claim_of_typed (fits : Fits task) {name : Text} (typed : task.call = .typed name) :
    task.claim = none := by
  rcases fits name typed with ⟨other, waits⟩ | ended
  · rw [Task.claim, waits]
  · exact claim_of_ended ended

theorem Turn.fits_of_mem {event : Event} (turn : Turn iroh codec event world later index task)
    (fits : ∀ task ∈ world.tasks, Fits task) : ∀ task ∈ later.tasks, Fits task := by
  intro other member
  rcases List.mem_iff_getElem?.mp member with ⟨number, found⟩
  rw [turn.changes.tasks] at found
  split at found
  · cases found
    exact turn.fits fun old found => fits old (List.mem_of_getElem? found)
  · exact fits other (List.mem_of_getElem? found)

/-- A call that has begun stays so. -/
theorem Turn.begun_of_begun {event : Event} (turn : Turn iroh codec event world later index task)
    {other : Nat} (begun : ∃ old, world.tasks[other]? = some old ∧ old.phase ≠ .parsing) :
    ∃ old, later.tasks[other]? = some old ∧ old.phase ≠ .parsing := by
  rcases begun with ⟨old, found, past⟩
  by_cases here : other = index
  · subst here
    exact ⟨task, turn.found, turn.begun old found⟩
  · exact ⟨old, ((turn.changes.tasks other).trans (if_neg here)).trans found, past⟩

end Turns

end Quackhole.Site.Routes
