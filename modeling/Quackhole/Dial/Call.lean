import Quackhole.Transition.Labelled
import Quackhole.Compress.Envelope

/-!
# One request and its redial

`requestAsync` as a machine that stops at every point where something else can
happen: each use of the connection cache is one step, and each await is one step
whose label says how it came out.  The labels therefore range over every failure
of the transport and over everything other requests do to the shared cache.

The machine records what each attempt has handed to the peer, newest first.
-/

namespace Quackhole.Dial

open Quackhole.Word
open Quackhole.Compress
open Quackhole.Transition

/-- `Attempt`: the outcome of one attempt, split by whether the peer could
already have acted. -/
inductive Attempt where
  /-- Failed before the request was fully handed to the peer. -/
  | beforeSend (message : Text)
  /-- The request was written; the failure came later. -/
  | afterSend (message : Text)
  | response (body : Bytes)
  deriving DecidableEq, Repr

/-- `may_retry`: may this failure be retried on a fresh connection? -/
def mayRetry (attempt : Attempt) (reused : Bool) : Bool :=
  match attempt with
  | .beforeSend _ => reused
  | _ => false

/-- An error with the context it was reported in. -/
def withContext (context cause : Text) : Text :=
  context ++ ": ".toList ++ cause

/-- Which of the two attempts is being made.  The first knows whether there was
a cached connection when the request began. -/
inductive Round where
  | first (reused : Bool)
  | second
  deriving DecidableEq, Repr

/-- Where `request_async` stands. -/
inductive Phase (Conn : Type) where
  /-- Before the cache is asked whether there is a connection to reuse. -/
  | begin
  /-- Before `get_or_connect` asks the cache. -/
  | lookup (round : Round)
  /-- Awaiting `connect`. -/
  | connecting (round : Round)
  /-- Before `get_or_connect` stores the new connection. -/
  | storing (round : Round) (conn : Conn)
  /-- Awaiting `open_bi`. -/
  | opening (round : Round) (conn : Conn)
  /-- Awaiting `write_all`, which has this much left to hand over. -/
  | writing (round : Round) (conn : Conn) (pending : Bytes)
  /-- Awaiting `read_to_end`. -/
  | reading (round : Round) (conn : Conn)
  /-- The attempt has come to an end. -/
  | resolved (round : Round) (conn : Conn) (attempt : Attempt)
  | done (result : Except Text Bytes)

/-- What can happen next. -/
inductive Label (Id Conn : Type) where
  /-- Other requests have used the cache. -/
  | others (cache : Id → Option Conn)
  /-- The request runs on to its next await or use of the cache. -/
  | proceed
  | connect (outcome : Except Text Conn)
  | openBi (outcome : Except Text Unit)
  /-- The transport takes this many more bytes of the request. -/
  | accept (count : Nat)
  | writeFails (cause : Text)
  | readToEnd (outcome : Except Text Bytes)

/-- The cache all requests share, and the request. -/
structure Call (Id Conn : Type) where
  cache : Id → Option Conn
  phase : Phase Conn
  /-- What each attempt has handed to the peer, newest first. -/
  handed : List Bytes

variable {Id Conn : Type} [DecidableEq Id]

/-- A request that has not begun. -/
def Call.initial (cache : Id → Option Conn) : Call Id Conn :=
  ⟨cache, .begin, []⟩

/-- The request moves on. -/
def Call.enter (call : Call Id Conn) (phase : Phase Conn) : Call Id Conn :=
  { call with phase }

/-- `ConnCache::put` and `ConnCache::invalidate`. -/
def Call.setCached (call : Call Id Conn) (id : Id) (entry : Option Conn) : Call Id Conn :=
  { call with cache := Function.update call.cache id entry }

/-- `round_trip` begins on a connection. -/
def Call.beginAttempt (call : Call Id Conn) (round : Round) (conn : Conn) : Call Id Conn :=
  { call with phase := .opening round conn, handed := [] :: call.handed }

/-- The stream the peer reads takes some more bytes. -/
def handOver (handed : List Bytes) (bytes : Bytes) : List Bytes :=
  match handed with
  | [] => [bytes]
  | stream :: earlier => (stream ++ bytes) :: earlier

/-- `write_all` with this much left: it returns once nothing is. -/
def writePhase (round : Round) (conn : Conn) (pending : Bytes) : Phase Conn :=
  if pending = [] then .reading round conn else .writing round conn pending

/-- What `request_async` makes of a resolved attempt. -/
def settle (gzip : Codec) (id : Id) (call : Call Id Conn) (round : Round)
    (attempt : Attempt) : Call Id Conn :=
  match round, attempt with
  | _, .response body => call.enter (.done ((decode gzip body).mapError DecodeError.message))
  | .second, .beforeSend message | .second, .afterSend message =>
      call.enter (.done (.error message))
  | .first reused, .beforeSend message | .first reused, .afterSend message =>
      (call.setCached id none).enter
        (if mayRetry attempt reused then .lookup .second else .done (.error message))

/-- One step of `request_async` to the peer `id`, whose printed form is `name`,
with the request `req`. -/
def next (gzip : Codec) (id : Id) (name : Text) (req : Bytes) :
    LStep (Label Id Conn) (Call Id Conn)
  | .others cache, call => some { call with cache }
  | .proceed, call =>
      match call.phase with
      | .begin => some (call.enter (.lookup (.first (call.cache id).isSome)))
      | .lookup round =>
          match call.cache id with
          | some conn => some (call.beginAttempt round conn)
          | none => some (call.enter (.connecting round))
      | .storing round conn => some ((call.setCached id (some conn)).beginAttempt round conn)
      | .resolved round _ attempt => some (settle gzip id call round attempt)
      | _ => none
  | .connect outcome, call =>
      match call.phase, outcome with
      | .connecting round, .ok conn => some (call.enter (.storing round conn))
      | .connecting _, .error cause =>
          let context := "failed to connect to endpoint ".toList ++ name
          some (call.enter (.done (.error (withContext context cause))))
      | _, _ => none
  | .openBi outcome, call =>
      match call.phase, outcome with
      | .opening round conn, .ok () => some (call.enter (writePhase round conn req))
      | .opening round conn, .error cause =>
          let message := withContext "failed to open bi-stream".toList cause
          some (call.enter (.resolved round conn (.beforeSend message)))
      | _, _ => none
  | .accept count, call =>
      match call.phase with
      | .writing round conn pending =>
          some { call with
            phase := writePhase round conn (pending.drop count)
            handed := handOver call.handed (pending.take count) }
      | _ => none
  | .writeFails cause, call =>
      match call.phase with
      | .writing round conn _ =>
          let message := withContext "failed to write request".toList cause
          some (call.enter (.resolved round conn (.beforeSend message)))
      | _ => none
  | .readToEnd outcome, call =>
      match call.phase, outcome with
      | .reading round conn, .ok body =>
          some (call.enter (.resolved round conn (.response body)))
      | .reading round conn, .error cause =>
          let message := withContext "failed to read response".toList cause
          some (call.enter (.resolved round conn (.afterSend message)))
      | _, _ => none

/-! ## What a step can do -/

/-- Every step of a request, by the phase it leaves. -/
inductive Moved (gzip : Codec) (id : Id) (name : Text) (req : Bytes) (call : Call Id Conn) :
    Label Id Conn → Call Id Conn → Prop
  | others (cache : Id → Option Conn) :
      Moved gzip id name req call (.others cache) { call with cache }
  | begins : call.phase = .begin →
      Moved gzip id name req call .proceed (call.enter (.lookup (.first (call.cache id).isSome)))
  | reuses (round : Round) (conn : Conn) : call.phase = .lookup round →
      call.cache id = some conn →
      Moved gzip id name req call .proceed (call.beginAttempt round conn)
  | dials (round : Round) : call.phase = .lookup round → call.cache id = none →
      Moved gzip id name req call .proceed (call.enter (.connecting round))
  | connects (round : Round) (conn : Conn) : call.phase = .connecting round →
      Moved gzip id name req call (.connect (.ok conn)) (call.enter (.storing round conn))
  | unconnected (round : Round) (cause message : Text) : call.phase = .connecting round →
      Moved gzip id name req call (.connect (.error cause)) (call.enter (.done (.error message)))
  | stores (round : Round) (conn : Conn) : call.phase = .storing round conn →
      Moved gzip id name req call .proceed
        ((call.setCached id (some conn)).beginAttempt round conn)
  | opens (round : Round) (conn : Conn) : call.phase = .opening round conn →
      Moved gzip id name req call (.openBi (.ok ())) (call.enter (writePhase round conn req))
  | unopened (round : Round) (conn : Conn) (cause message : Text) :
      call.phase = .opening round conn →
      Moved gzip id name req call (.openBi (.error cause))
        (call.enter (.resolved round conn (.beforeSend message)))
  | accepts (round : Round) (conn : Conn) (pending : Bytes) (count : Nat) :
      call.phase = .writing round conn pending →
      Moved gzip id name req call (.accept count)
        { call with
          phase := writePhase round conn (pending.drop count)
          handed := handOver call.handed (pending.take count) }
  | unwritten (round : Round) (conn : Conn) (pending : Bytes) (cause message : Text) :
      call.phase = .writing round conn pending →
      Moved gzip id name req call (.writeFails cause)
        (call.enter (.resolved round conn (.beforeSend message)))
  | reads (round : Round) (conn : Conn) (body : Bytes) : call.phase = .reading round conn →
      Moved gzip id name req call (.readToEnd (.ok body))
        (call.enter (.resolved round conn (.response body)))
  | unread (round : Round) (conn : Conn) (cause message : Text) :
      call.phase = .reading round conn →
      Moved gzip id name req call (.readToEnd (.error cause))
        (call.enter (.resolved round conn (.afterSend message)))
  | settles (round : Round) (conn : Conn) (attempt : Attempt) :
      call.phase = .resolved round conn attempt →
      Moved gzip id name req call .proceed (settle gzip id call round attempt)

/-- A step is one of these. -/
theorem moved_of_next {gzip : Codec} {id : Id} {name : Text} {req : Bytes}
    {label : Label Id Conn} {call call' : Call Id Conn}
    (stepped : next gzip id name req label call = some call') :
    Moved gzip id name req call label call' := by
  unfold next at stepped
  split at stepped
  · cases stepped
    exact .others _
  · split at stepped
    · rename_i here
      cases stepped
      exact .begins here
    · rename_i here
      split at stepped
      · rename_i cached
        cases stepped
        exact .reuses _ _ here cached
      · rename_i cached
        cases stepped
        exact .dials _ here cached
    · rename_i here
      cases stepped
      exact .stores _ _ here
    · rename_i here
      cases stepped
      exact .settles _ _ _ here
    · cases stepped
  · split at stepped
    · rename_i here
      cases stepped
      exact .connects _ _ here
    · rename_i here
      cases stepped
      exact .unconnected _ _ _ here
    · cases stepped
  · split at stepped
    · rename_i here
      cases stepped
      exact .opens _ _ here
    · rename_i here
      cases stepped
      exact .unopened _ _ _ _ here
    · cases stepped
  · split at stepped
    · rename_i here
      cases stepped
      exact .accepts _ _ _ _ here
    · cases stepped
  · split at stepped
    · rename_i here
      cases stepped
      exact .unwritten _ _ _ _ _ here
    · cases stepped
  · split at stepped
    · rename_i here
      cases stepped
      exact .reads _ _ _ here
    · rename_i here
      cases stepped
      exact .unread _ _ _ _ here
    · cases stepped

end Quackhole.Dial
