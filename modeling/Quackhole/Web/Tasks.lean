import Quackhole.Transition.Labelled
import Quackhole.Web.Remotes

/-!
# Calls in progress

The calls of a session are asynchronous.  Between two awaits a call runs alone; at an
await the others may go on.  The statements of all of them go through one connection,
which executes them in the order they were issued in; what follows a statement runs
at some point after it was executed.
-/

namespace Quackhole.Web.Remotes

open Quackhole.Word Quackhole.Ticket Quackhole.Transition

/-- What a call awaits: the parser, or the statement it has issued. -/
inductive Phase where
  | parsing
  | creating (peer : Peer) (record : Record)
  | attaching (peer : Peer) (record : Record)
  /-- The secret is taken back out, since a statement was refused. -/
  | cleaning (record : Record) (failed : Statement)
  | detaching (record : Record)
  | dropping (record : Record)
  | selecting
  | typing (name : Text)
  | ended (result : Except Thrown (Option Record))

namespace Phase

def statement : Phase → Option Statement
  | .creating peer record => some (createStatement peer record)
  | .attaching peer record => some (attachStatement peer record)
  | .cleaning record _ | .dropping record => some (.dropSecret record.secretName)
  | .detaching record => some (.detach record.name)
  | .selecting => some .databaseNames
  | .typing name => some (.detach name)
  | .parsing | .ended _ => none

/-- Where an attach goes on that has made its record. -/
def opened (peer : Peer) (record : Record) : Phase :=
  if peer.token.isEmpty then .attaching peer record else .creating peer record

/-- Where a call goes on once its statement was executed. -/
def after : Phase → Option Reply → Phase
  | .creating peer record, some _ => .attaching peer record
  | .creating peer record, none => .cleaning record (createStatement peer record)
  | .attaching _ record, some _ => .ended (.ok (some record))
  | .attaching peer record, none => .cleaning record (attachStatement peer record)
  | .cleaning _ failed, _ => .ended (.error (.refused failed))
  | .detaching record, _ => .dropping record
  | .dropping _, _ => .selecting
  | .typing name, none => .ended (.error (.refused (.detach name)))
  | .selecting, _ | .typing _, some _ => .ended (.ok none)
  | .parsing, _ => .parsing
  | .ended result, _ => .ended result

end Phase

/-- A call that was made.  An object is a record together with the number of the call
that made it. -/
structure Task where
  call : Call (Nat × Record)
  phase : Phase
  /-- What the statement came to, once it was executed. -/
  reply : Option (Option Reply) := none

/-- A session with all calls that were ever made, in order. -/
structure World where
  localName : Text
  listed : List (Nat × Record) := []
  db : Database := {}
  tasks : List Task := []
  /-- The calls whose statements wait to be executed. -/
  queue : List Nat := []

/-- What can happen. -/
inductive Event where
  | call (call : Call (Nat × Record))
  /-- The parser is done with a ticket, or has failed for another reason. -/
  | parsed (index : Nat) (failure : Option String)
  /-- The first statement that waits is executed. -/
  | execute (accepts : Bool)
  | resume (index : Nat)

/-- The phase a call is in when its caller gets its promise. -/
def firstPhase : Call (Nat × Record) → Phase
  | .attach _ _ => .parsing
  | .detach object => .detaching object.2
  | .reconcile => .selecting
  | .typed name => .typing name

/-- The call as a session sees it. -/
def Call.passed : Call (Nat × Record) → Call Record
  | .attach ticket name => .attach ticket name
  | .detach object => .detach object.2
  | .reconcile => .reconcile
  | .typed name => .typed name

namespace World

variable (world : World)

/-- The session as the calls see it. -/
def session : Session where
  localName := world.localName
  remotes := world.listed.map Prod.snd
  db := world.db

/-- The statements that wait, when a call goes into a phase. -/
def queueWith (index : Nat) (phase : Phase) : List Nat :=
  match phase.statement with
  | some _ => world.queue ++ [index]
  | none => world.queue

def spawn (call : Call (Nat × Record)) : World :=
  { world with
    tasks := world.tasks ++ [{ call := call, phase := firstPhase call }]
    queue := world.queueWith world.tasks.length (firstPhase call) }

def goOn (index : Nat) (call : Call (Nat × Record)) (phase : Phase) : World :=
  { world with
    tasks := world.tasks.set index { call := call, phase := phase }
    queue := world.queueWith index phase }

/-- What a continuation does to the list. -/
def listedAfter (index : Nat) : Phase → Option Reply → List (Nat × Record)
  | .attaching _ record, some _ => world.listed ++ [(index, record)]
  | .selecting, some (.names live) => world.listed.filter fun entry => live.contains entry.2.name
  | _, _ => world.listed

def resumed (index : Nat) (task : Task) (reply : Option Reply) : World :=
  { world.goOn index task.call (task.phase.after reply) with
    listed := world.listedAfter index task.phase reply }

def executed (index : Nat) (task : Task) (statement : Statement) (accepts : Bool) : World :=
  let executed := world.db.execute accepts statement
  { world with
    tasks := world.tasks.set index { task with reply := some executed.1 }
    queue := world.queue.tail
    db := executed.2 }

section Iroh

variable {Id Url : Type} (iroh : Iroh Id Url) (codec : TicketCodec)

/-- `attach`, from the parser to its first statement: the peer, and the record made for
it. -/
def opening (ticket name : Text) : Except Thrown (Peer × Record) :=
  match Peer.parseTicket iroh codec ticket with
  | .error message => .error (.message message)
  | .ok peer =>
      match world.session.remotes.find? (·.endpointId = peer.endpointId) with
      | some already => .error (alreadyAttached already)
      | none => .ok (peer, recordOf world.session.names peer name)

def parsed (index : Nat) (call : Call (Nat × Record)) (ticket name : Text) :
    Option String → World
  | some message => world.goOn index call (.ended (.error (.message message)))
  | none =>
      match world.opening iroh codec ticket name with
      | .error thrown => world.goOn index call (.ended (.error thrown))
      | .ok (peer, record) => world.goOn index call (.opened peer record)

/-- One event. -/
def next : LStep Event World
  | .call call, world => some (world.spawn call)
  | .parsed index failure, world =>
      world.tasks[index]?.bind fun task =>
        match task.phase, task.call with
        | .parsing, .attach ticket name =>
            some (world.parsed iroh codec index task.call ticket name failure)
        | _, _ => none
  | .execute accepts, world =>
      world.queue.head?.bind fun index =>
        world.tasks[index]?.bind fun task =>
          task.phase.statement.map fun statement => world.executed index task statement accepts
  | .resume index, world =>
      world.tasks[index]?.bind fun task =>
        task.phase.statement.bind fun _ =>
          task.reply.map fun reply => world.resumed index task reply

end Iroh

/-! ## A call that runs alone -/

section Alone

variable {Id Url : Type} (iroh : Iroh Id Url) (codec : TicketCodec) (accepts : Accepts) (base : World)

/-- A call was made last, and no other statement waits. -/
def last (call : Call (Nat × Record)) (phase : Phase) : World :=
  { base with
    tasks := base.tasks ++ [{ call := call, phase := phase }]
    queue := { base with queue := [] }.queueWith base.tasks.length phase }

/-- What the statement of the last call makes of the rest, together with what follows
it. -/
def turned (phase : Phase) (executed : Option Reply × Database) : World :=
  { base with
    listed := base.listedAfter base.tasks.length phase executed.1
    db := executed.2 }

/-- The last call comes to its end by events of its own. -/
def Finishes (call : Call (Nat × Record)) (phase : Phase) (result : Except Thrown (Option Record))
    (session : Session) : Prop :=
  ∃ events listed db, exec (next iroh codec) events (base.last call phase) =
      some ({ base with listed := listed, db := db }.last call (.ended result)) ∧
    session = ⟨base.localName, listed.map Prod.snd, db⟩

variable {iroh codec accepts base} {call : Call (Nat × Record)}

theorem set_append_last (tasks : List Task) (old task : Task) :
    (tasks ++ [old]).set tasks.length task = tasks ++ [task] := by
  rw [List.set_append_right _ _ (Nat.le_refl _), Nat.sub_self]
  rfl

/-- The statement of the last call is executed, and the call goes on. -/
theorem exec_turn {phase : Phase} {statement : Statement}
    (issued : phase.statement = some statement) (accepts : Bool) (events : List Event) :
    exec (next iroh codec) (.execute accepts :: .resume base.tasks.length :: events)
        (base.last call phase) =
      exec (next iroh codec) events ((base.turned phase (base.db.execute accepts statement)).last
        call (phase.after (base.db.execute accepts statement).1)) := by
  have queue : (base.last call phase).queue = [base.tasks.length] := by
    rw [last, queueWith, issued]
    rfl
  have found : (base.last call phase).tasks[base.tasks.length]? =
      some { call := call, phase := phase } := List.getElem?_concat_length
  have executed : next iroh codec (.execute accepts) (base.last call phase) =
      some { base with
        tasks := base.tasks ++ [⟨call, phase, some (base.db.execute accepts statement).1⟩]
        queue := []
        db := (base.db.execute accepts statement).2 } := by
    rw [next, queue, List.head?_cons, Option.bind_some, found, Option.bind_some, issued,
      Option.map_some, World.executed, queue]
    congr 2
    exact set_append_last _ _ _
  rw [exec_cons, executed, Option.bind_some, exec_cons, next]
  dsimp only
  rw [List.getElem?_concat_length, Option.bind_some, issued, Option.bind_some, Option.map_some,
    Option.bind_some, resumed, goOn]
  dsimp only
  rw [set_append_last]
  rfl

theorem finishes_turn {phase : Phase} {statement : Statement}
    (issued : phase.statement = some statement) {result : Except Thrown (Option Record)}
    {session : Session} {executed : Option Reply × Database}
    (does : base.db.execute (accepts statement) statement = executed)
    (rest : (base.turned phase executed).Finishes iroh codec call (phase.after executed.1) result
      session) : base.Finishes iroh codec call phase result session := by
  rcases rest with ⟨events, listed, db, ran, same⟩
  refine ⟨.execute (accepts statement) :: .resume base.tasks.length :: events, listed, db, ?_, same⟩
  rw [exec_turn issued, does]
  exact ran

theorem finishes_ended (result : Except Thrown (Option Record)) :
    base.Finishes iroh codec call (.ended result) result base.session :=
  ⟨[], base.listed, base.db, rfl, rfl⟩

theorem finishes_cleaning (record : Record) (failed : Statement) :
    base.Finishes iroh codec call (.cleaning record failed) (.error (.refused failed))
      (base.session.cleanUp accepts record failed).2 :=
  finishes_turn rfl rfl (finishes_ended _)

theorem query_of_execute {session : Session} {statement : Statement} {reply : Option Reply}
    {db : Database} (does : session.db.execute (accepts statement) statement = (reply, db)) :
    session.query accepts statement = (reply, { session with db := db }) := by
  rw [Session.query, does]

theorem finishes_attaching (peer : Peer) (record : Record) :
    base.Finishes iroh codec call (.attaching peer record)
      ((base.session.attachRecord accepts peer record).1.map some)
      (base.session.attachRecord accepts peer record).2 := by
  rcases does : base.db.execute (accepts (attachStatement peer record))
    (attachStatement peer record) with ⟨reply, db⟩
  apply finishes_turn rfl does
  rw [Session.attachRecord, query_of_execute does]
  cases reply with
  | none => exact finishes_cleaning record (attachStatement peer record)
  | some answer =>
      have listed : (base.turned (.attaching peer record) (some answer, db)).session =
          { base.session with remotes := base.session.remotes ++ [record], db := db } := by
        rw [World.session, turned, listedAfter]
        dsimp only
        rw [List.map_append]
        rfl
      dsimp only
      rw [← listed]
      exact finishes_ended _

theorem finishes_creating (peer : Peer) (record : Record) :
    base.Finishes iroh codec call (.creating peer record)
      ((match base.session.query accepts (createStatement peer record) with
        | (some _, session) => session.attachRecord accepts peer record
        | (none, session) => session.cleanUp accepts record (createStatement peer record)).1.map some)
      (match base.session.query accepts (createStatement peer record) with
        | (some _, session) => session.attachRecord accepts peer record
        | (none, session) => session.cleanUp accepts record (createStatement peer record)).2 := by
  rcases does : base.db.execute (accepts (createStatement peer record))
    (createStatement peer record) with ⟨reply, db⟩
  apply finishes_turn rfl does
  rw [query_of_execute does]
  cases reply with
  | none => exact finishes_cleaning record (createStatement peer record)
  | some answer => exact finishes_attaching peer record

theorem finishes_selecting :
    base.Finishes iroh codec call .selecting (.ok none) (base.session.reconcile accepts) := by
  rcases does : base.db.execute (accepts .databaseNames) .databaseNames with ⟨reply, db⟩
  apply finishes_turn rfl does
  rw [Session.reconcile, query_of_execute does]
  rcases reply with _ | _ | live
  · exact finishes_ended _
  · exact finishes_ended _
  · have listed : (base.turned .selecting (some (.names live), db)).session =
        { base.session with remotes := stillLive live base.session.remotes, db := db } := by
      have same : (fun record : Record => decide (record.name ∈ live)) ∘ Prod.snd =
          fun entry : Nat × Record => live.contains entry.2.name := by
        funext entry
        exact (List.contains_eq_mem _ _).symm
      rw [World.session, World.session, turned, listedAfter, stillLive, List.filter_map, same]
    dsimp only
    rw [← listed]
    exact finishes_ended _

theorem finishes_detaching (record : Record) :
    base.Finishes iroh codec call (.detaching record) (.ok none)
      (base.session.detach accepts record) :=
  finishes_turn rfl rfl (finishes_turn rfl rfl finishes_selecting)

theorem finishes_typing (name : Text) :
    base.Finishes iroh codec call (.typing name)
      (match (base.session.query accepts (.detach name)).1 with
        | some _ => .ok none
        | none => .error (.refused (.detach name)))
      (base.session.query accepts (.detach name)).2 := by
  rcases does : base.db.execute (accepts (.detach name)) (.detach name) with ⟨reply, db⟩
  apply finishes_turn rfl does
  rw [query_of_execute does]
  cases reply with
  | none => exact finishes_ended _
  | some answer => exact finishes_ended _

/-- An attach goes on as its opening says. -/
theorem attach_eq_opening (ticket name : Text) :
    base.session.attach iroh codec accepts ticket name =
      match base.opening iroh codec ticket name with
      | .error thrown => (.error thrown, base.session)
      | .ok (peer, record) =>
          if peer.token.isEmpty then base.session.attachRecord accepts peer record
          else
            match base.session.query accepts (createStatement peer record) with
            | (some _, session) => session.attachRecord accepts peer record
            | (none, session) => session.cleanUp accepts record (createStatement peer record) := by
  rw [Session.attach, opening]
  cases Peer.parseTicket iroh codec ticket with
  | error message => rfl
  | ok peer =>
      dsimp only
      cases base.session.remotes.find? (·.endpointId = peer.endpointId) with
      | some already => rfl
      | none => rfl

theorem goOn_last (phase : Phase) :
    (base.last call .parsing).goOn base.tasks.length call phase = base.last call phase := by
  rw [goOn, last]
  dsimp only
  rw [set_append_last]
  rfl

/-- An attach whose parser is done goes on. -/
theorem exec_parsed {ticket name : Text} (events : List Event) :
    exec (next iroh codec) (.parsed base.tasks.length none :: events)
        (base.last (.attach ticket name) .parsing) =
      exec (next iroh codec) events (base.last (.attach ticket name)
        (match base.opening iroh codec ticket name with
          | .error thrown => .ended (.error thrown)
          | .ok (peer, record) => .opened peer record)) := by
  have found : (base.last (.attach ticket name) .parsing).tasks[base.tasks.length]? =
      some { call := .attach ticket name, phase := .parsing } := List.getElem?_concat_length
  have same : (base.last (.attach ticket name) .parsing).opening iroh codec ticket name =
      base.opening iroh codec ticket name := rfl
  rw [exec_cons, next, found, Option.bind_some]
  dsimp only
  rw [Option.bind_some, World.parsed, same]
  cases base.opening iroh codec ticket name with
  | error thrown =>
      dsimp only
      rw [goOn_last]
  | ok made =>
      dsimp only
      rw [goOn_last]

theorem finishes_parsing (ticket name : Text) :
    base.Finishes iroh codec (.attach ticket name) .parsing
      ((base.session.attach iroh codec accepts ticket name).1.map some)
      (base.session.attach iroh codec accepts ticket name).2 := by
  have rest : base.Finishes iroh codec (.attach ticket name)
      (match base.opening iroh codec ticket name with
        | .error thrown => .ended (.error thrown)
        | .ok (peer, record) => .opened peer record)
      ((base.session.attach iroh codec accepts ticket name).1.map some)
      (base.session.attach iroh codec accepts ticket name).2 := by
    rw [attach_eq_opening]
    rcases base.opening iroh codec ticket name with thrown | ⟨peer, record⟩
    · exact finishes_ended _
    · dsimp only
      rw [Phase.opened]
      split
      · exact finishes_attaching peer record
      · exact finishes_creating peer record
  rcases rest with ⟨events, listed, db, ran, same⟩
  refine ⟨.parsed base.tasks.length none :: events, listed, db, ?_, same⟩
  rw [exec_parsed]
  exact ran

/-- A call that is made while no statement waits can come to its end by itself, and does
to the session what it does there; and so the calls can run one after the other. -/
theorem exists_alone (idle : base.queue = []) (call : Call (Nat × Record)) (accepts : Accepts) :
    ∃ events later result, exec (next iroh codec) (.call call :: events) base = some later ∧
      later.session = base.session.call iroh codec accepts call.passed ∧ later.queue = [] ∧
      later.tasks = base.tasks ++ [{ call := call, phase := .ended result }] ∧
      ∀ ticket name, call = .attach ticket name →
        result = (base.session.attach iroh codec accepts ticket name).1.map some := by
  have spawned : base.spawn call = base.last call (firstPhase call) := by
    rw [spawn, last, queueWith, queueWith, idle]
  have finishes : ∃ result, base.Finishes iroh codec call (firstPhase call) result
      (base.session.call iroh codec accepts call.passed) ∧
        ∀ ticket name, call = .attach ticket name →
          result = (base.session.attach iroh codec accepts ticket name).1.map some := by
    cases call with
    | attach ticket name =>
        refine ⟨_, finishes_parsing ticket name, ?_⟩
        intro ticket' name' same
        cases same
        rfl
    | detach object =>
        refine ⟨_, finishes_detaching object.2, ?_⟩
        intro ticket name same
        cases same
    | reconcile =>
        refine ⟨_, finishes_selecting, ?_⟩
        intro ticket name same
        cases same
    | typed name =>
        refine ⟨_, finishes_typing name, ?_⟩
        intro ticket name same
        cases same
  rcases finishes with ⟨result, ⟨events, listed, db, ran, session⟩, returned⟩
  refine ⟨events, ({ base with listed := listed, db := db } : World).last call (.ended result),
    result, ?_, session.symm, rfl, rfl, returned⟩
  rw [exec_cons, next, Option.bind_some, spawned]
  exact ran

end Alone

end World

end Quackhole.Web.Remotes
