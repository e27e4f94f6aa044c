import Quackhole.Ticket.Identity
import Quackhole.Transition.Labelled

/-!
# Serving sessions

A serving session is an accept loop and the tasks it spawns: one for each
connection, which spawns one for each stream it bridges.  All tasks are counted
by one tracker.  Stopping cancels the session, waits for the loop and then for
the tracker, up to a deadline, and does not keep a new session from starting
meanwhile.  Wherever `select!` has a choice, either branch is a step.
-/

namespace Quackhole.Serve

open Quackhole.Word Quackhole.Ticket Quackhole.Transition

/-- `TaskTracker`.  Tasks are counted whether or not it is closed. -/
structure TaskTracker where
  isClosed : Bool := false
  count : Nat := 0
deriving DecidableEq

namespace TaskTracker

variable (tracker : TaskTracker)

def close : TaskTracker :=
  { tracker with isClosed := true }

def spawn : TaskTracker :=
  { tracker with count := tracker.count + 1 }

/-- A task that was spawned is over. -/
def finish : TaskTracker :=
  { tracker with count := tracker.count - 1 }

/-- `wait` completes. -/
def isDone : Bool :=
  tracker.isClosed && tracker.count == 0

end TaskTracker

/-- Where the accept loop is. -/
inductive LoopPhase where
  | selecting
  /-- With an incoming connection in hand. -/
  | holding
  | ended
deriving DecidableEq

/-- Where the task of a connection is. -/
inductive ConnectionPhase (Id : Type) where
  | handshaking
  /-- In front of the allow list. -/
  | checking (remote : Id)
  | selecting (remote : Id)
  /-- With a stream in hand. -/
  | holding (remote : Id)
  | ended
deriving DecidableEq

/-- The task that bridges one stream. -/
structure BridgeTask (Id : Type) where
  remote : Id
  isLive : Bool
deriving DecidableEq

/-- How far `ServeHandle::stop` is. -/
inductive StopPhase where
  | notCalled
  | called
  | cancelled
  | closed
  /-- The loop was joined. -/
  | joined
  /-- It returned because the tracker's wait completed. -/
  | drained
  /-- It returned for another reason: the deadline, or no runtime. -/
  | abandoned
deriving DecidableEq

/-- One session. -/
structure Session (Id : Type) where
  /-- The allow list given to `serve_start`. -/
  given : List Text
  allow : List Id
  isCancelled : Bool := false
  tracker : TaskTracker := {}
  loop : LoopPhase := .selecting
  connections : List (ConnectionPhase Id) := []
  bridges : List (BridgeTask Id) := []
  stop : StopPhase := .notCalled
deriving DecidableEq

/-- What the tasks of a session do. -/
inductive SessionMove (Id : Type) where
  /-- The loop sees the cancellation. -/
  | loopCancelled
  | incoming
  /-- The endpoint was closed. -/
  | endpointClosed
  /-- The loop spawns the task of the connection it holds. -/
  | spawnConnection
  | handshake (connection : Nat) (remote : Id)
  | handshakeFails (connection : Nat)
  | checkAllowed (connection : Nat)
  /-- The connection's task sees the cancellation. -/
  | connectionCancelled (connection : Nat)
  | stream (connection : Nat)
  /-- The peer closed the connection. -/
  | peerCloses (connection : Nat)
  /-- The connection's task spawns the bridge of the stream it holds. -/
  | spawnBridge (connection : Nat)
  /-- The bridge sees the cancellation. -/
  | bridgeCancelled (bridge : Nat)
  | bridgeReturns (bridge : Nat)
  /-- The next step of `ServeHandle::stop`. -/
  | stopGoesOn
  | stopGivesUp
deriving DecidableEq

namespace Session

variable {Id : Type}

/-- Is the remote admitted by the allow list? -/
def Admits (session : Session Id) (remote : Id) : Prop :=
  session.allow = [] ∨ remote ∈ session.allow

instance [DecidableEq Id] (session : Session Id) (remote : Id) :
    Decidable (session.Admits remote) :=
  inferInstanceAs (Decidable (_ ∨ _))

/-- The task of a connection goes on. -/
def goOn (session : Session Id) (connection : Nat) (phase : ConnectionPhase Id) : Session Id :=
  { session with connections := session.connections.set connection phase }

/-- The task of a connection is over. -/
def endConnection (session : Session Id) (connection : Nat) : Session Id :=
  { session.goOn connection .ended with tracker := session.tracker.finish }

/-- A bridge is over. -/
def endBridge (session : Session Id) (bridge : Nat) (remote : Id) : Session Id :=
  { session with
    bridges := session.bridges.set bridge ⟨remote, false⟩
    tracker := session.tracker.finish }

/-- `ServeHandle::stop`, step by step. -/
def stopNext (session : Session Id) : Option (Session Id) :=
  match session.stop with
  | .called => some { session with isCancelled := true, stop := .cancelled }
  | .cancelled => some { session with tracker := session.tracker.close, stop := .closed }
  | .closed => if session.loop = .ended then some { session with stop := .joined } else none
  | .joined => if session.tracker.isDone then some { session with stop := .drained } else none
  | _ => none

/-- One step of one task. -/
def next [DecidableEq Id] : LStep (SessionMove Id) (Session Id)
  | .loopCancelled, session =>
      if session.loop = .selecting ∧ session.isCancelled then some { session with loop := .ended }
      else none
  | .incoming, session =>
      if session.loop = .selecting then some { session with loop := .holding } else none
  | .endpointClosed, session =>
      if session.loop = .selecting then some { session with loop := .ended } else none
  | .spawnConnection, session =>
      if session.loop = .holding then
        some { session with
          loop := .selecting
          connections := session.connections ++ [.handshaking]
          tracker := session.tracker.spawn }
      else none
  | .handshake connection remote, session =>
      match session.connections[connection]? with
      | some .handshaking => some (session.goOn connection (.checking remote))
      | _ => none
  | .handshakeFails connection, session =>
      match session.connections[connection]? with
      | some .handshaking => some (session.endConnection connection)
      | _ => none
  | .checkAllowed connection, session =>
      match session.connections[connection]? with
      | some (.checking remote) =>
          if session.Admits remote then some (session.goOn connection (.selecting remote))
          else some (session.endConnection connection)
      | _ => none
  | .connectionCancelled connection, session =>
      match session.connections[connection]? with
      | some (.selecting _) =>
          if session.isCancelled then some (session.endConnection connection) else none
      | _ => none
  | .stream connection, session =>
      match session.connections[connection]? with
      | some (.selecting remote) => some (session.goOn connection (.holding remote))
      | _ => none
  | .peerCloses connection, session =>
      match session.connections[connection]? with
      | some (.selecting _) => some (session.endConnection connection)
      | _ => none
  | .spawnBridge connection, session =>
      match session.connections[connection]? with
      | some (.holding remote) =>
          some { session.goOn connection (.selecting remote) with
            bridges := session.bridges ++ [⟨remote, true⟩]
            tracker := session.tracker.spawn }
      | _ => none
  | .bridgeCancelled bridge, session =>
      match session.bridges[bridge]? with
      | some ⟨remote, true⟩ =>
          if session.isCancelled then some (session.endBridge bridge remote) else none
      | _ => none
  | .bridgeReturns bridge, session =>
      match session.bridges[bridge]? with
      | some ⟨remote, true⟩ => some (session.endBridge bridge remote)
      | _ => none
  | .stopGoesOn, session => session.stopNext
  | .stopGivesUp, session =>
      if session.stop ∈ [.called, .closed, .joined] then
        some { session with stop := .abandoned }
      else none

/-! ## Who holds the tracker open -/

end Session

/-- The remote of a connection that has passed the allow list. -/
def ConnectionPhase.admitted {Id : Type} : ConnectionPhase Id → Option Id
  | .selecting remote => some remote
  | .holding remote => some remote
  | _ => none

def ConnectionPhase.isLive {Id : Type} : ConnectionPhase Id → Bool
  | .ended => false
  | _ => true

/-- What replacing one element does to a count. -/
theorem countP_set_add {α : Type} (p : α → Bool) {tasks : List α} {i : Nat} {before : α}
    (found : tasks[i]? = some before) (after : α) :
    (tasks.set i after).countP p + (if p before then 1 else 0) =
      tasks.countP p + (if p after then 1 else 0) := by
  rcases List.getElem?_eq_some_iff.mp found with ⟨inside, rfl⟩
  rw [List.countP_set inside]
  have counted : p tasks[i] = true → 0 < tasks.countP p := fun holds =>
    List.countP_pos_iff.mpr ⟨tasks[i], List.getElem_mem inside, holds⟩
  cases holds : p tasks[i] with
  | false => simp
  | true =>
      have positive := counted holds
      simp only [if_true]
      omega

namespace Session

variable {Id : Type} {session : Session Id}

/-- The tasks that are not over. -/
def liveTasks (session : Session Id) : Nat :=
  session.connections.countP ConnectionPhase.isLive +
    session.bridges.countP BridgeTask.isLive

/-- Streams are bridged for admitted remotes only, the tracker counts the live
tasks, a loop that was joined is over, and a drained session has no task. -/
structure Inv (session : Session Id) : Prop where
  admitted : ∀ connection ∈ session.connections, ∀ remote ∈ connection.admitted,
    session.Admits remote
  bridged : ∀ bridge ∈ session.bridges, session.Admits bridge.remote
  counted : session.tracker.count = session.liveTasks
  joined : session.stop = .joined ∨ session.stop = .drained → session.loop = .ended
  drained : session.stop = .drained → session.tracker.count = 0

/-- The task of a connection goes on, with a remote that is admitted if it is past
the allow list. -/
theorem Inv.goOn (inv : session.Inv) {connection : Nat} {before phase : ConnectionPhase Id}
    (found : session.connections[connection]? = some before)
    (live : before.isLive = true) (stillLive : phase.isLive = true)
    (admitted : ∀ remote ∈ phase.admitted, session.Admits remote) :
    (session.goOn connection phase).Inv where
  admitted other member := by
    rcases List.mem_or_eq_of_mem_set member with old | rfl
    · exact inv.admitted other old
    · exact admitted
  bridged := inv.bridged
  counted := by
    have replaced := countP_set_add ConnectionPhase.isLive found phase
    rw [live, stillLive] at replaced
    rw [liveTasks, Session.goOn]
    dsimp only
    rw [Nat.add_right_cancel replaced]
    exact inv.counted
  joined := inv.joined
  drained := inv.drained

/-- The task of a connection is over, and is not counted any more. -/
theorem Inv.endConnection (inv : session.Inv) {connection : Nat} {before : ConnectionPhase Id}
    (found : session.connections[connection]? = some before) (live : before.isLive = true) :
    (session.endConnection connection).Inv where
  admitted other member := by
    rcases List.mem_or_eq_of_mem_set member with old | rfl
    · exact inv.admitted other old
    · rintro remote ⟨⟩
  bridged := inv.bridged
  counted := by
    have counted := inv.counted
    have replaced := countP_set_add ConnectionPhase.isLive found .ended
    rw [live] at replaced
    rw [liveTasks] at counted
    simp only [liveTasks, Session.endConnection, Session.goOn, TaskTracker.finish]
    simp only [ConnectionPhase.isLive, if_true, Bool.false_eq_true, if_false] at replaced
    omega
  joined := inv.joined
  drained stopped := by
    simp [Session.endConnection, TaskTracker.finish, inv.drained stopped]

/-- A bridge is over, and is not counted any more. -/
theorem Inv.endBridge (inv : session.Inv) {bridge : Nat} {remote : Id}
    (found : session.bridges[bridge]? = some ⟨remote, true⟩) :
    (session.endBridge bridge remote).Inv where
  admitted := inv.admitted
  bridged other member := by
    rcases List.mem_or_eq_of_mem_set member with old | rfl
    · exact inv.bridged other old
    · exact inv.bridged ⟨remote, true⟩ (List.mem_of_getElem? found)
  counted := by
    have counted := inv.counted
    have replaced := countP_set_add BridgeTask.isLive found ⟨remote, false⟩
    rw [liveTasks] at counted
    simp only [liveTasks, Session.endBridge, TaskTracker.finish]
    simp only [if_true, Bool.false_eq_true, if_false] at replaced
    omega
  joined := inv.joined
  drained stopped := by
    simp [Session.endBridge, TaskTracker.finish, inv.drained stopped]

theorem Inv.withStop (inv : session.Inv) {phase : StopPhase}
    (joined : phase = .joined ∨ phase = .drained → session.loop = .ended)
    (drained : phase = .drained → session.tracker.count = 0) :
    { session with stop := phase }.Inv :=
  ⟨inv.admitted, inv.bridged, inv.counted, joined, drained⟩

/-- A drained session has no live task. -/
theorem Inv.not_live (inv : session.Inv) (stopped : session.stop = .drained) :
    (∀ connection ∈ session.connections, connection.isLive = false) ∧
      ∀ bridge ∈ session.bridges, bridge.isLive = false := by
  have none := inv.drained stopped
  rw [inv.counted, liveTasks, Nat.add_eq_zero_iff, List.countP_eq_zero,
    List.countP_eq_zero] at none
  exact ⟨fun connection member => by simpa using none.1 connection member,
    fun bridge member => by simpa using none.2 bridge member⟩

/-- What a step of a task can do. -/
inductive Moved (session : Session Id) : Session Id → Prop where
  | loop (phase : LoopPhase) (running : session.loop ≠ .ended) :
      Moved session { session with loop := phase }
  | spawnConnection (running : session.loop ≠ .ended) :
      Moved session { session with
        loop := .selecting
        connections := session.connections ++ [.handshaking]
        tracker := session.tracker.spawn }
  | goOn {connection : Nat} {before phase : ConnectionPhase Id}
      (found : session.connections[connection]? = some before) (live : before.isLive = true)
      (stillLive : phase.isLive = true)
      (admitted : ∀ remote ∈ phase.admitted,
        session.Admits remote ∨ remote ∈ before.admitted) :
      Moved session (session.goOn connection phase)
  | endConnection {connection : Nat} {before : ConnectionPhase Id}
      (found : session.connections[connection]? = some before) (live : before.isLive = true) :
      Moved session (session.endConnection connection)
  | spawnBridge {connection : Nat} {remote : Id}
      (found : session.connections[connection]? = some (.holding remote)) :
      Moved session
        { session.goOn connection (.selecting remote) with
          bridges := session.bridges ++ [⟨remote, true⟩]
          tracker := session.tracker.spawn }
  | endBridge {bridge : Nat} {remote : Id}
      (found : session.bridges[bridge]? = some ⟨remote, true⟩) :
      Moved session (session.endBridge bridge remote)
  | cancel (called : session.stop = .called) :
      Moved session { session with isCancelled := true, stop := .cancelled }
  | close (cancelled : session.stop = .cancelled) :
      Moved session { session with tracker := session.tracker.close, stop := .closed }
  | join (closed : session.stop = .closed) (ended : session.loop = .ended) :
      Moved session { session with stop := .joined }
  | drain (joined : session.stop = .joined) (done : session.tracker.isDone = true) :
      Moved session { session with stop := .drained }
  | giveUp (called : session.stop ≠ .notCalled) (waiting : session.stop ≠ .drained) :
      Moved session { session with stop := .abandoned }

/-- Every step is one of these. -/
theorem moved_of_next [DecidableEq Id] {move : SessionMove Id} {after : Session Id}
    (moved : Session.next move session = some after) : session.Moved after := by
  cases move with
  | loopCancelled =>
      simp only [Session.next, Option.ite_none_right_eq_some, Option.some.injEq] at moved
      rcases moved with ⟨⟨selecting, -⟩, rfl⟩
      exact .loop .ended (by simp [selecting])
  | incoming =>
      simp only [Session.next, Option.ite_none_right_eq_some, Option.some.injEq] at moved
      rcases moved with ⟨selecting, rfl⟩
      exact .loop .holding (by simp [selecting])
  | endpointClosed =>
      simp only [Session.next, Option.ite_none_right_eq_some, Option.some.injEq] at moved
      rcases moved with ⟨selecting, rfl⟩
      exact .loop .ended (by simp [selecting])
  | spawnConnection =>
      simp only [Session.next, Option.ite_none_right_eq_some, Option.some.injEq] at moved
      rcases moved with ⟨holding, rfl⟩
      exact .spawnConnection (by simp [holding])
  | handshake connection remote =>
      simp only [Session.next] at moved
      split at moved
      · rename_i found
        obtain rfl := Option.some.inj moved
        exact .goOn found rfl rfl (by rintro _ ⟨⟩)
      · cases moved
  | handshakeFails connection =>
      simp only [Session.next] at moved
      split at moved
      · rename_i found
        obtain rfl := Option.some.inj moved
        exact .endConnection found rfl
      · cases moved
  | checkAllowed connection =>
      simp only [Session.next] at moved
      split at moved
      · rename_i remote found
        split at moved
        · rename_i admits
          obtain rfl := Option.some.inj moved
          apply Moved.goOn found rfl rfl
          rintro _ ⟨⟩
          exact Or.inl admits
        · obtain rfl := Option.some.inj moved
          exact .endConnection found rfl
      · cases moved
  | connectionCancelled connection =>
      simp only [Session.next] at moved
      split at moved
      · rename_i remote found
        split at moved
        · obtain rfl := Option.some.inj moved
          exact .endConnection found rfl
        · cases moved
      · cases moved
  | stream connection =>
      simp only [Session.next] at moved
      split at moved
      · rename_i remote found
        obtain rfl := Option.some.inj moved
        exact .goOn found rfl rfl fun _ holds => Or.inr holds
      · cases moved
  | peerCloses connection =>
      simp only [Session.next] at moved
      split at moved
      · rename_i remote found
        obtain rfl := Option.some.inj moved
        exact .endConnection found rfl
      · cases moved
  | spawnBridge connection =>
      simp only [Session.next] at moved
      split at moved
      · rename_i remote found
        obtain rfl := Option.some.inj moved
        exact .spawnBridge found
      · cases moved
  | bridgeCancelled bridge =>
      simp only [Session.next] at moved
      split at moved
      · rename_i remote found
        split at moved
        · obtain rfl := Option.some.inj moved
          exact .endBridge found
        · cases moved
      · cases moved
  | bridgeReturns bridge =>
      simp only [Session.next] at moved
      split at moved
      · rename_i remote found
        obtain rfl := Option.some.inj moved
        exact .endBridge found
      · cases moved
  | stopGoesOn =>
      simp only [Session.next, stopNext] at moved
      split at moved
      · rename_i called
        obtain rfl := Option.some.inj moved
        exact .cancel called
      · rename_i cancelled
        obtain rfl := Option.some.inj moved
        exact .close cancelled
      · rename_i closed
        simp only [Option.ite_none_right_eq_some, Option.some.injEq] at moved
        rcases moved with ⟨ended, rfl⟩
        exact .join closed ended
      · rename_i joined
        simp only [Option.ite_none_right_eq_some, Option.some.injEq] at moved
        rcases moved with ⟨done, rfl⟩
        exact .drain joined done
      · cases moved
  | stopGivesUp =>
      simp only [Session.next, Option.ite_none_right_eq_some, Option.some.injEq] at moved
      rcases moved with ⟨waiting, rfl⟩
      exact .giveUp (fun notCalled => by simp [notCalled] at waiting)
        fun drained => by simp [drained] at waiting

/-- Every step keeps the accounts. -/
theorem Inv.moved (inv : session.Inv) {after : Session Id} (moved : session.Moved after) :
    after.Inv := by
  have running : session.loop ≠ .ended → ¬ (session.stop = .joined ∨ session.stop = .drained) :=
    fun running stopped => running (inv.joined stopped)
  cases moved with
  | loop phase notEnded =>
      exact ⟨inv.admitted, inv.bridged, inv.counted,
        fun stopped => absurd stopped (running notEnded), inv.drained⟩
  | spawnConnection notEnded =>
      refine ⟨?_, inv.bridged, ?_, fun stopped => absurd stopped (running notEnded),
        fun stopped => absurd (Or.inr stopped) (running notEnded)⟩
      · intro connection member
        rcases List.mem_append.mp member with old | new
        · exact inv.admitted connection old
        · cases List.mem_singleton.mp new
          rintro remote ⟨⟩
      · have counted := inv.counted
        rw [liveTasks] at counted
        simp only [liveTasks, TaskTracker.spawn, List.countP_append, List.countP_singleton,
          ConnectionPhase.isLive, if_true]
        omega
  | goOn found live stillLive admitted =>
      apply inv.goOn found live stillLive
      intro remote holds
      rcases admitted remote holds with admits | before
      · exact admits
      · exact inv.admitted _ (List.mem_of_getElem? found) remote before
  | endConnection found live => exact inv.endConnection found live
  | @spawnBridge connection remote found =>
      have admits := inv.admitted _ (List.mem_of_getElem? found)
      have kept : (session.goOn connection (.selecting remote)).Inv :=
        inv.goOn found rfl rfl admits
      refine ⟨kept.admitted, ?_, ?_, inv.joined, fun stopped => ?_⟩
      · intro bridge member
        rcases List.mem_append.mp member with old | new
        · exact inv.bridged bridge old
        · cases List.mem_singleton.mp new
          exact admits remote rfl
      · have counted := kept.counted
        rw [liveTasks] at counted
        simp only [liveTasks, TaskTracker.spawn, List.countP_append, List.countP_singleton,
          if_true]
        simp only [Session.goOn] at counted ⊢
        omega
      · -- The connection's own task is counted, so the session is not drained.
        have live := (inv.not_live stopped).1 _ (List.mem_of_getElem? found)
        cases live
  | endBridge found => exact inv.endBridge found
  | cancel _ =>
      have cancelled : { session with isCancelled := true }.Inv :=
        ⟨inv.admitted, inv.bridged, inv.counted, inv.joined, inv.drained⟩
      exact cancelled.withStop (by simp) (by simp)
  | close _ =>
      have closed : { session with tracker := session.tracker.close }.Inv :=
        ⟨inv.admitted, inv.bridged, inv.counted, inv.joined, inv.drained⟩
      exact closed.withStop (by simp) (by simp)
  | join _ ended => exact inv.withStop (fun _ => ended) (by simp)
  | drain joined done =>
      apply inv.withStop (fun _ => inv.joined (Or.inl joined))
      intro _
      simpa [TaskTracker.isDone] using (Bool.and_eq_true_iff.mp done).2
  | giveUp _ _ => exact inv.withStop (by simp) (by simp)

/-- A step changes neither the allow list nor what was given for it. -/
theorem Moved.allow {after : Session Id} (moved : session.Moved after) :
    after.given = session.given ∧ after.allow = session.allow := by
  cases moved <;> exact ⟨rfl, rfl⟩

/-- No task stops a session that was not asked to stop. -/
theorem Moved.notCalled {after : Session Id} (moved : session.Moved after)
    (notCalled : session.stop = .notCalled) : after.stop = .notCalled := by
  cases moved with
  | cancel called => cases notCalled.symm.trans called
  | close cancelled => cases notCalled.symm.trans cancelled
  | join closed _ => cases notCalled.symm.trans closed
  | drain joined _ => cases notCalled.symm.trans joined
  | giveUp called _ => exact absurd notCalled called
  | _ => exact notCalled

/-- Nothing of the session runs. -/
def Quiet (session : Session Id) : Prop :=
  session.loop = .ended ∧ (∀ connection ∈ session.connections, connection.isLive = false) ∧
    ∀ bridge ∈ session.bridges, bridge.isLive = false

theorem Inv.quiet (inv : session.Inv) (stopped : session.stop = .drained) : session.Quiet :=
  ⟨inv.joined (Or.inr stopped), inv.not_live stopped⟩

/-- In a drained session nothing can happen any more. -/
theorem Inv.not_moved (inv : session.Inv) (stopped : session.stop = .drained)
    {after : Session Id} : ¬ session.Moved after := by
  rcases inv.quiet stopped with ⟨ended, connections, bridges⟩
  intro moved
  cases moved with
  | loop _ running => exact running ended
  | spawnConnection running => exact running ended
  | goOn found live _ _ =>
      rw [connections _ (List.mem_of_getElem? found)] at live
      cases live
  | endConnection found live =>
      rw [connections _ (List.mem_of_getElem? found)] at live
      cases live
  | spawnBridge found => cases connections _ (List.mem_of_getElem? found)
  | endBridge found => cases bridges _ (List.mem_of_getElem? found)
  | cancel called => cases stopped.symm.trans called
  | close cancelled => cases stopped.symm.trans cancelled
  | join closed _ => cases stopped.symm.trans closed
  | drain joined _ => cases stopped.symm.trans joined
  | giveUp _ waiting => exact waiting stopped

/-- A bridge is spawned by the live task of an admitted connection. -/
theorem Inv.of_spawned (inv : session.Inv) {after : Session Id} (moved : session.Moved after) :
    ∀ bridge ∈ after.bridges.drop session.bridges.length,
      ¬ session.Quiet ∧ session.Admits bridge.remote := by
  have same : after.bridges.length = session.bridges.length →
      ∀ bridge ∈ after.bridges.drop session.bridges.length,
        ¬ session.Quiet ∧ session.Admits bridge.remote := by
    intro equal bridge member
    rw [← equal, List.drop_length] at member
    cases member
  cases moved with
  | @spawnBridge connection remote found =>
      have held := List.mem_of_getElem? found
      rintro bridge member
      rw [List.drop_left, List.mem_singleton] at member
      subst member
      constructor
      · intro quiet
        cases quiet.2.1 _ held
      · exact inv.admitted _ held remote rfl
  | endBridge found =>
      apply same
      rw [Session.endBridge, List.length_set]
  | _ => exact same rfl

end Session

/-! ## One session after another -/

/-- The serving half of a core: every session it has started, and the one whose
handle it holds. -/
structure Server (Id : Type) where
  sessions : List (Session Id) := []
  handle : Option Nat := none
deriving DecidableEq

/-- A call, or a step of a session. -/
inductive ServerMove (Id : Type) where
  | serveStart (target : Text) (allow : List Text)
  | serveStop
  | session (index : Nat) (move : SessionMove Id)
deriving DecidableEq

section Server

variable {Id Url : Type} (iroh : Iroh Id Url) (isSocketAddr : Text → Bool)

/-- The ids of an allow list. -/
def parseAllow : List Text → Except String (List Id)
  | [] => .ok []
  | entry :: allow =>
      match iroh.parseEndpointId entry with
      | .error err => .error ("allow list entry '" ++ String.ofList entry ++
          "' is not a valid endpoint id: " ++ err)
      | .ok id => (parseAllow allow).map (id :: ·)

namespace Server

/-- `serve_start`. -/
def serveStart (server : Server Id) (target : Text) (allow : List Text) :
    Except String (Server Id) :=
  if server.handle.isSome then
    .error "quackhole is already serving; call quackhole_stop() first"
  else
    match parseAllow iroh allow with
    | .error err => .error err
    | .ok ids =>
        if isSocketAddr target then
          .ok
            { sessions := server.sessions ++ [{ given := allow, allow := ids }]
              handle := some server.sessions.length }
        else .error ("target '" ++ String.ofList target ++ "' is not a host:port address")

/-- `serve_stop`, up to the call of `ServeHandle::stop`. -/
def serveStop (server : Server Id) : Server Id :=
  match server.handle with
  | none => server
  | some index =>
      { sessions := server.sessions.modify index fun session => { session with stop := .called }
        handle := none }

/-- One step.  A call that fails changes nothing. -/
def next [DecidableEq Id] : LStep (ServerMove Id) (Server Id)
  | .serveStart target allow, server =>
      match server.serveStart iroh isSocketAddr target allow with
      | .ok after => some after
      | .error _ => some server
  | .serveStop, server => some server.serveStop
  | .session index move, server =>
      (server.sessions[index]?).bind fun session =>
        (Session.next move session).map fun after =>
          { server with sessions := server.sessions.set index after }

/-- Every session keeps its accounts and has the allow list it was given, and the
one whose handle is held has not been stopped. -/
structure Inv (server : Server Id) : Prop where
  session : ∀ (index : Nat) (session : Session Id), server.sessions[index]? = some session →
    session.Inv ∧ parseAllow iroh session.given = .ok session.allow
  handle : ∀ index ∈ server.handle, ∃ session : Session Id,
    server.sessions[index]? = some session ∧ session.stop = .notCalled

variable {iroh isSocketAddr}

/-- Starting appends a session of the allow list it was given. -/
theorem serveStart_eq_ok {server after : Server Id} {target : Text} {allow : List Text}
    (started : server.serveStart iroh isSocketAddr target allow = .ok after) :
    ∃ ids, parseAllow iroh allow = .ok ids ∧
      after.sessions = server.sessions ++ [{ given := allow, allow := ids }] ∧
      after.handle = some server.sessions.length := by
  rw [serveStart] at started
  split at started
  · cases started
  · split at started
    · cases started
    · rename_i ids parsed
      split at started
      · cases started
        exact ⟨ids, parsed, rfl, rfl⟩
      · cases started

/-- A session that has begun keeps its accounts. -/
theorem Session.inv_new (given : List Text) (allow : List Id) :
    ({ given := given, allow := allow } : Session Id).Inv where
  admitted := by simp
  bridged := by simp
  counted := rfl
  joined := by simp
  drained := by simp

/-- A new session is served by the handle, and the others stay as they are. -/
theorem Inv.serveStart {server after : Server Id} (inv : server.Inv iroh) {target : Text}
    {allow : List Text} (started : server.serveStart iroh isSocketAddr target allow = .ok after) :
    after.Inv iroh := by
  rcases serveStart_eq_ok started with ⟨ids, parsed, sessions, handle⟩
  constructor
  · intro index session found
    rw [sessions, List.getElem?_append] at found
    split at found
    · exact inv.session index session found
    · rw [List.getElem?_singleton] at found
      split at found
      · cases found
        exact ⟨Session.inv_new allow ids, parsed⟩
      · cases found
  · intro index held
    rw [handle] at held
    cases held
    refine ⟨{ given := allow, allow := ids }, ?_, rfl⟩
    rw [sessions, List.getElem?_concat_length]

/-- Stopping asks the session to stop whose handle it takes. -/
theorem serveStop_cases (server : Server Id) :
    (server.handle = none ∧ server.serveStop = server) ∨
      ∃ index, server.handle = some index ∧ server.serveStop.handle = none ∧
        server.serveStop.sessions =
          server.sessions.modify index fun session => { session with stop := .called } := by
  rcases server with ⟨sessions, _ | index⟩
  · exact Or.inl ⟨rfl, rfl⟩
  · exact Or.inr ⟨index, rfl, rfl, rfl⟩

theorem Inv.serveStop {server : Server Id} (inv : server.Inv iroh) :
    server.serveStop.Inv iroh := by
  rcases server.serveStop_cases with ⟨-, same⟩ | ⟨index, -, handle, sessions⟩
  · rw [same]
    exact inv
  · constructor
    · intro other session found
      rw [sessions, List.getElem?_modify] at found
      rcases Option.map_eq_some_iff.mp found with ⟨before, was, now⟩
      have kept := inv.session other before was
      split at now
      · subst now
        exact ⟨kept.1.withStop (by simp) (by simp), kept.2⟩
      · subst now
        exact kept
    · intro other held
      rw [handle] at held
      cases held

/-- A step of one session leaves the others as they are. -/
theorem Inv.moved {server : Server Id} (inv : server.Inv iroh) {index : Nat}
    {session after : Session Id} (found : server.sessions[index]? = some session)
    (moved : session.Moved after) :
    { server with sessions := server.sessions.set index after }.Inv iroh := by
  have inside : index < server.sessions.length := (List.getElem?_eq_some_iff.mp found).1
  constructor
  · intro other now nowFound
    rw [List.getElem?_set] at nowFound
    split at nowFound
    · cases nowFound
      have kept := inv.session index session found
      rw [moved.allow.1, moved.allow.2]
      exact ⟨kept.1.moved moved, kept.2⟩
    · exact inv.session other now nowFound
  · intro other held
    rcases inv.handle other held with ⟨holder, holderFound, notCalled⟩
    by_cases same : index = other
    · subst same
      cases found.symm.trans holderFound
      exact ⟨after, List.getElem?_set_self inside, moved.notCalled notCalled⟩
    · exact ⟨holder, by rw [List.getElem?_set_ne same]; exact holderFound, notCalled⟩

variable [DecidableEq Id]

/-- Every step of the server keeps the accounts of every session. -/
theorem Inv.next {server after : Server Id} (inv : server.Inv iroh) {move : ServerMove Id}
    (moved : next iroh isSocketAddr move server = some after) : after.Inv iroh := by
  cases move with
  | serveStart target allow =>
      simp only [Server.next] at moved
      split at moved
      · rename_i started
        cases moved
        exact inv.serveStart started
      · cases moved
        exact inv
  | serveStop =>
      cases moved
      exact inv.serveStop
  | session index move =>
      rcases Option.bind_eq_some_iff.mp moved with ⟨session, found, stepped⟩
      rcases Option.map_eq_some_iff.mp stepped with ⟨now, sessionMoved, rfl⟩
      exact inv.moved found (Session.moved_of_next sessionMoved)

/-- What a step of the server does to one session. -/
theorem session_of_next {server after : Server Id} (inv : server.Inv iroh) {move : ServerMove Id}
    (moved : next iroh isSocketAddr move server = some after) {index : Nat} {session : Session Id}
    (found : server.sessions[index]? = some session) :
    ∃ now, after.sessions[index]? = some now ∧
      (now = session ∨ session.stop = .notCalled ∧ now = { session with stop := .called } ∨
        session.Moved now) := by
  have inside : index < server.sessions.length := (List.getElem?_eq_some_iff.mp found).1
  cases move with
  | serveStart target allow =>
      simp only [Server.next] at moved
      split at moved
      · rename_i started
        cases moved
        rcases serveStart_eq_ok started with ⟨ids, -, sessions, -⟩
        refine ⟨session, ?_, Or.inl rfl⟩
        rw [sessions, List.getElem?_append_left inside]
        exact found
      · cases moved
        exact ⟨session, found, Or.inl rfl⟩
  | serveStop =>
      cases moved
      rcases server.serveStop_cases with ⟨-, same⟩ | ⟨held, handle, -, sessions⟩
      · rw [same]
        exact ⟨session, found, Or.inl rfl⟩
      · rw [sessions, List.getElem?_modify, found]
        by_cases same : held = index
        · subst same
          rcases inv.handle held handle with ⟨holder, holderFound, notCalled⟩
          cases found.symm.trans holderFound
          exact ⟨_, rfl, Or.inr (Or.inl ⟨notCalled, if_pos rfl⟩)⟩
        · exact ⟨_, rfl, Or.inl (if_neg same)⟩
  | session other move =>
      rcases Option.bind_eq_some_iff.mp moved with ⟨before, otherFound, stepped⟩
      rcases Option.map_eq_some_iff.mp stepped with ⟨now, sessionMoved, rfl⟩
      by_cases same : other = index
      · subst same
        cases found.symm.trans otherFound
        exact ⟨now, List.getElem?_set_self inside,
          Or.inr (Or.inr (Session.moved_of_next sessionMoved))⟩
      · exact ⟨session, by rw [List.getElem?_set_ne same]; exact found, Or.inl rfl⟩

theorem inv_of_reachable {server : Server Id}
    (reached : Reachable (next iroh isSocketAddr) {} server) : server.Inv iroh := by
  apply reached.invariant (Server.Inv iroh)
  · constructor
    · intro index session found
      cases found
    · intro index held
      cases held
  · intro move before after _ inv moved
    exact inv.next moved

/-- A drained session stays as it is in every continuation. -/
theorem drained_of_reachable {server later : Server Id} (inv : server.Inv iroh)
    {index : Nat} {session : Session Id} (found : server.sessions[index]? = some session)
    (stopped : session.stop = .drained)
    (reached : Reachable (next iroh isSocketAddr) server later) :
    later.sessions[index]? = some session := by
  have kept := reached.invariant
    (fun later => later.Inv iroh ∧ later.sessions[index]? = some session) ⟨inv, found⟩ ?_
  · exact kept.2
  · rintro move before after - ⟨inv, same⟩ moved
    refine ⟨inv.next moved, ?_⟩
    rcases session_of_next inv moved same with ⟨now, nowFound, rfl | ⟨notCalled, -⟩ | stepped⟩
    · exact nowFound
    · cases stopped.symm.trans notCalled
    · exact absurd stepped ((inv.session index session same).1.not_moved stopped)

variable (iroh isSocketAddr) in
/-- In every run, streams are bridged for remotes on the allow list of their
session only; a session whose stop returned because everything was over has
nothing running and never will; and a stream is bridged only by a session that is
still running and admits its remote. -/
theorem admitted_and_drained {server : Server Id}
    (reached : Reachable (next iroh isSocketAddr) {} server) :
    (∀ (index : Nat) (session : Session Id), server.sessions[index]? = some session →
      parseAllow iroh session.given = .ok session.allow ∧
        ∀ bridge ∈ session.bridges, session.Admits bridge.remote) ∧
    (∀ (index : Nat) (session : Session Id), server.sessions[index]? = some session →
      session.stop = .drained →
      session.Quiet ∧ ∀ later, Reachable (next iroh isSocketAddr) server later →
        later.sessions[index]? = some session) ∧
    ∀ (move : ServerMove Id) (later : Server Id) (index : Nat) (before after : Session Id),
      next iroh isSocketAddr move server = some later →
      server.sessions[index]? = some before → later.sessions[index]? = some after →
        ∀ bridge ∈ after.bridges.drop before.bridges.length,
          before.stop ≠ .drained ∧ ¬ before.Quiet ∧ before.Admits bridge.remote := by
  have inv := inv_of_reachable reached
  refine ⟨fun index session found => ?_, fun index session found stopped => ?_, ?_⟩
  · have kept := inv.session index session found
    exact ⟨kept.2, kept.1.bridged⟩
  · exact ⟨(inv.session index session found).1.quiet stopped,
      fun later reached => drained_of_reachable inv found stopped reached⟩
  · intro move later index before after moved found afterFound bridge spawned
    rcases session_of_next inv moved found with ⟨now, nowFound, stepped⟩
    cases afterFound.symm.trans nowFound
    have kept := (inv.session index before found).1
    rcases stepped with rfl | ⟨-, rfl⟩ | stepped
    · rw [List.drop_length] at spawned
      cases spawned
    · rw [List.drop_length] at spawned
      cases spawned
    · have held := kept.of_spawned stepped bridge spawned
      exact ⟨fun stopped => kept.not_moved stopped stepped, held⟩

/-- Two peers, named by one letter each. -/
def twoPeers : Iroh Bool Unit where
  fromStr text := if text = ['a'] then some false else if text = ['b'] then some true else none
  fromZ32 _ := none
  toZ32 peer := if peer then ['b'] else ['a']
  parseUrl _ := none
  scheme _ := []
  urlText _ := []

def isLocalServer (target : Text) : Bool :=
  target == "127.0.0.1:9494".toList

/-- A session for one peer turns another away and bridges a stream; while it is
being stopped a session for everyone starts. -/
def restart : List (ServerMove Bool) :=
  [.serveStart "127.0.0.1:9494".toList [['a']],
    .session 0 .incoming, .session 0 .spawnConnection, .session 0 (.handshake 0 false),
    .session 0 .incoming, .session 0 .spawnConnection, .session 0 (.handshake 1 true),
    .session 0 (.checkAllowed 0), .session 0 (.checkAllowed 1),
    .session 0 (.stream 0), .session 0 (.spawnBridge 0),
    .serveStop, .session 0 .stopGoesOn,
    .serveStart "127.0.0.1:9494".toList [],
    .session 0 .stopGoesOn, .session 0 (.stream 0), .session 0 .loopCancelled,
    .session 0 .stopGoesOn, .session 0 (.spawnBridge 0),
    .session 0 (.connectionCancelled 0), .session 0 (.bridgeReturns 0),
    .session 0 (.bridgeCancelled 1), .session 0 .stopGoesOn]

/-- The session that was stopped, when nothing of it is left. -/
def stoppedSession : Session Bool where
  given := [['a']]
  allow := [false]
  isCancelled := true
  tracker := { isClosed := true }
  loop := .ended
  connections := [.ended, .ended]
  bridges := [⟨false, false⟩, ⟨false, false⟩]
  stop := .drained

/-- The sample run drains the first session, which stays as it is from then on. -/
theorem drained_restart :
    ∃ server, Reachable (next twoPeers isLocalServer) {} server ∧ server.handle = some 1 ∧
      stoppedSession.Quiet ∧
      ∀ later, Reachable (next twoPeers isLocalServer) server later →
        later.sessions[0]? = some stoppedSession := by
  have ran : exec (next twoPeers isLocalServer) restart {} =
      some { sessions := [stoppedSession, { given := [], allow := [] }], handle := some 1 } := by
    decide +kernel
  have reached := reachable_of_exec ran
  have drained := (admitted_and_drained twoPeers isLocalServer reached).2.1 0 stoppedSession rfl rfl
  exact ⟨_, reached, rfl, drained.1, drained.2⟩

end Server

end Server

end Quackhole.Serve
