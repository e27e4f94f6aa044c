import Quackhole.Dial.AtMostOnce
import Quackhole.Http.Receive

/-!
# The native client and its retries

`Core::request` wraps the request in a timeout, the C ABI turns its result into
a pointer or a null and a message, and `RoundTrip` turns that into an HTTP
response whose `request_error` makes DuckDB send the request again.  The layers
are one machine here: inside it runs the machine of a single request.

What the peer is handed over the whole run is the subject.  A call that failed
after it had written the request is reported like one that never did, so the
runs that deliver the request once are those in which no such failure happens
while DuckDB still has a retry left.
-/

namespace Quackhole.Dial

open Quackhole.Word
open Quackhole.Compress
open Quackhole.Transition
open Quackhole.Http

/-! ## The layers -/

/-- What a client is given, and what it relies on. -/
structure ClientConfig (Id : Type) where
  gzip : Codec
  /-- The width of `usize`. -/
  bits : Nat
  /-- The characters past ASCII that an error writes as numbers. -/
  hidden : Char → Bool
  /-- The peer the endpoint id and the relay name, or why they name none. -/
  address : Except Text Id
  /-- The printed form of the endpoint id. -/
  name : Text
  request : Request
  /-- How often DuckDB sends a request again. -/
  retries : Nat

/-- The request `Post` gives to `RoundTrip`: it always has a body, and the type
of the body is left to the core. -/
def postRequest (path host port : Text) (headers : List (Text × Text)) (body : Bytes) :
    Request where
  method := "POST".toList
  path := path
  host := host
  port := port
  headers := headers
  body := some body
  contentType := []

/-- `HTTPResponse`. -/
structure HttpResponse where
  status : Nat
  reason : Text
  headers : List (Text × Text)
  body : Bytes
  success : Bool
  requestError : Bytes
  deriving DecidableEq, Repr

/-- `TransportError`: no usable HTTP response came back. -/
def transportError (message : Bytes) : HttpResponse where
  status := 0
  reason := []
  headers := []
  body := []
  success := false
  requestError := message

/-- `CString::new(s).unwrap_or_default()`. -/
def cText (text : Text) : Text :=
  if Char.ofNat 0 ∈ text then [] else text

/-- `BuildResponse` of what crossed the C ABI: a real HTTP response, whatever
its status. -/
def buildResponse (response : Response) : HttpResponse where
  status := response.status
  reason := cText response.reason
  headers := response.headers.map fun header => (cText header.1, cText header.2)
  body := response.body
  success := decide (200 ≤ response.status ∧ response.status < 300)
  requestError := []

/-- `QH_ERR_LEN`. -/
def errLen : Nat :=
  512

/-- `write_err` and the reading of its buffer: the message is cut to the buffer
and ends at its first NUL. -/
def errText (message : Text) : Bytes :=
  ((utf8 message).take (errLen - 1)).takeWhile (· ≠ 0)

/-- `RoundTrip`, from the result of `Core::request`. -/
def roundTrip (result : Except Text Response) : HttpResponse :=
  match result with
  | .error message => transportError (utf8 "quackhole: ".toList ++ errText message)
  | .ok response =>
      if response.status = 0 then
        transportError (utf8 "quackhole: peer sent an unparseable HTTP status line".toList)
      else buildResponse response

/-- A response with a `request_error` means "retry me" to DuckDB. -/
def asksForRetry (response : HttpResponse) : Bool :=
  decide (response.requestError ≠ [])

namespace ClientConfig

variable {Id : Type} (config : ClientConfig Id)

/-- What `Core::request` does before it awaits anything. -/
def prepare : Except Text (Id × Bytes) := do
  let id ← config.address
  let bytes ← buildRequest config.request
  .ok (id, bytes)

/-- HEAD carries a Content-Length it does not honour. -/
def expectBody : Bool :=
  decide (config.request.method ≠ "HEAD".toList)

/-- What `Core::request` makes of the result of `request_async`. -/
def parse (result : Except Text Bytes) : Except Text Response :=
  match result with
  | .error message => .error message
  | .ok raw =>
      (parseResponse config.bits raw config.expectBody).mapError
        (ParseError.message config.hidden)

/-- The bytes that were read are a response DuckDB is given as one. -/
def usable (raw : Bytes) : Bool :=
  match receive config.gzip config.bits config.expectBody raw with
  | .error _ => false
  | .ok response => decide (response.status ≠ 0)

end ClientConfig

/-- A failure is always repeated. -/
theorem asksForRetry_error (message : Text) :
    asksForRetry (roundTrip (.error message)) = true := by
  have prefixed : utf8 "quackhole: ".toList ≠ [] := by decide
  exact decide_eq_true (List.append_ne_nil_of_left_ne_nil prefixed _)

/-- What was read makes DuckDB send the request again exactly when it is not
usable. -/
theorem asksForRetry_roundTrip_parse {Id : Type} (config : ClientConfig Id) (raw : Bytes) :
    asksForRetry (roundTrip (config.parse
      ((decode config.gzip raw).mapError DecodeError.message))) = !config.usable raw := by
  unfold ClientConfig.usable receive
  cases decode config.gzip raw with
  | error reason => exact asksForRetry_error reason.message
  | ok bytes =>
      simp only [Except.mapError, ClientConfig.parse]
      cases parseResponse config.bits bytes config.expectBody with
      | error reason => exact asksForRetry_error (reason.message config.hidden)
      | ok response =>
          by_cases status : response.status = 0
          · simp only [roundTrip, status, if_true, ne_eq, not_true, decide_false, Bool.not_false]
            decide
          · simp only [roundTrip, status, if_false, ne_eq, not_false_eq_true, decide_true,
              Bool.not_true]
            rfl

/-! ## The machine -/

/-- Where DuckDB's retry loop stands. -/
inductive Stage (Id : Type) where
  /-- Before a call of the client. -/
  | idle
  /-- Inside `block_on`. -/
  | calling (id : Id) (req : Bytes)
  /-- `Core::request` has returned. -/
  | answered (result : Except Text Response)
  /-- DuckDB has the response. -/
  | returned (response : HttpResponse)

inductive ClientLabel (Id Conn : Type) where
  /-- The request in progress takes a step. -/
  | call (label : Label Id Conn)
  /-- The timeout fires while the request awaits something. -/
  | expire
  /-- The layers around the request run on. -/
  | proceed

structure Client (Id Conn : Type) where
  stage : Stage Id
  /-- How often DuckDB has sent the request again. -/
  tries : Nat
  call : Call Id Conn
  /-- What the earlier calls handed to the peer, newest first. -/
  earlier : List Bytes

variable {Id Conn : Type}

/-- Everything the peer was handed. -/
def Client.handed (client : Client Id Conn) : List Bytes :=
  client.call.handed ++ client.earlier

/-- A client that has not been called. -/
def Client.initial (cache : Id → Option Conn) : Client Id Conn :=
  ⟨.idle, 0, Call.initial cache, []⟩

/-- A call of the client begins. -/
def Client.start (client : Client Id Conn) (id : Id) (req : Bytes) : Client Id Conn where
  stage := .calling id req
  tries := client.tries
  call := Call.initial client.call.cache
  earlier := client.handed

/-- The whole run hands over the request at most once if the earlier calls did
not. -/
theorem count_handed_le_one {req : Bytes} {client : Client Id Conn}
    (consistent : client.call.Consistent req) (missing : req ∉ client.earlier) :
    client.handed.count req ≤ 1 := by
  obtain ⟨round, made⟩ := consistent.round
  rw [Client.handed, List.count_append, List.count_eq_zero.mpr missing]
  exact (atMostOnce_of_round made).once

/-- The request awaits something. -/
def Phase.awaiting : Phase Conn → Bool
  | .connecting _ | .opening _ _ | .writing _ _ _ | .reading _ _ => true
  | _ => false

theorem prepare_eq_ok {config : ClientConfig Id} {id : Id} {req : Bytes}
    (address : config.address = .ok id) (built : buildRequest config.request = .ok req) :
    config.prepare = .ok (id, req) := by
  rw [ClientConfig.prepare, address, built]
  rfl

variable [DecidableEq Id]

/-- One step of the client. -/
def clientNext (config : ClientConfig Id) : LStep (ClientLabel Id Conn) (Client Id Conn)
  | .call label, client =>
      match client.stage with
      | .calling id req =>
          (next config.gzip id config.name req label client.call).map fun call =>
            { client with call }
      | _ => none
  | .expire, client =>
      match client.stage with
      | .calling _ _ =>
          if client.call.phase.awaiting then
            let message := withContext "request timed out".toList "deadline has elapsed".toList
            some { client with stage := .answered (.error message) }
          else none
      | _ => none
  | .proceed, client =>
      match client.stage with
      | .idle =>
          match config.prepare with
          | .error message => some { client with stage := .answered (.error message) }
          | .ok (id, req) => some (client.start id req)
      | .calling _ _ =>
          match client.call.phase with
          | .done result => some { client with stage := .answered (config.parse result) }
          | _ => none
      | .answered result =>
          if asksForRetry (roundTrip result) ∧ client.tries < config.retries then
            some { client with stage := .idle, tries := client.tries + 1 }
          else some { client with stage := .returned (roundTrip result) }
      | .returned _ => none

/-- The label fails a request that awaits its response. -/
def spoils (config : ClientConfig Id) : ClientLabel Id Conn → Bool
  | .expire => true
  | .call (.readToEnd (.error _)) => true
  | .call (.readToEnd (.ok raw)) => !config.usable raw
  | _ => false

/-- The request has been written, and its response is awaited. -/
def Client.awaitsResponse (client : Client Id Conn) : Bool :=
  match client.stage, client.call.phase with
  | .calling _ _, .reading _ _ => true
  | _, _ => false

/-- The step is no failure of a request that was written, or it is and DuckDB
has no retry left. -/
def Harmless (config : ClientConfig Id) (label : ClientLabel Id Conn)
    (client : Client Id Conn) : Prop :=
  client.tries < config.retries → client.awaitsResponse = true → spoils config label = false

/-! ## Harmless runs deliver once -/

/-- As long as DuckDB has a retry left: no attempt has failed after it wrote the
request, what was read is usable, and a request that ends in a way DuckDB
repeats has handed over less than all of it. -/
def Phase.Quiet (config : ClientConfig Id) (req : Bytes) : Phase Conn → List Bytes → Prop
  | .resolved _ _ (.afterSend _), _ => False
  | .resolved _ _ (.response raw), _ => config.usable raw = true
  | .done result, handed =>
      asksForRetry (roundTrip (config.parse result)) = true → req ∉ handed
  | _, _ => True

/-- The invariant of a client. -/
def Client.Sound (config : ClientConfig Id) (req : Bytes) (client : Client Id Conn) : Prop :=
  match client.stage with
  | .idle => req ∉ client.handed
  | .calling _ bytes =>
      bytes = req ∧ client.call.Consistent req ∧ req ∉ client.earlier ∧
        (client.tries < config.retries → client.call.phase.Quiet config req client.call.handed)
  | .answered result =>
      client.handed.count req ≤ 1 ∧
        (client.tries < config.retries → asksForRetry (roundTrip result) = true →
          req ∉ client.handed)
  | .returned _ => client.handed.count req ≤ 1

theorem Round.Before.not_mem {req : Bytes} {round : Round} {handed : List Bytes}
    (before : round.Before req handed) : req ∉ handed := by
  cases round with
  | first reused =>
      cases before
      exact List.not_mem_nil
  | second =>
      obtain ⟨stream, rfl, partly⟩ := before
      exact fun member => partly.2 (List.mem_singleton.mp member).symm

theorem InRound.not_mem {req : Bytes} {round : Round} {handed : List Bytes}
    (inRound : InRound req round handed (Partial req)) : req ∉ handed := by
  obtain ⟨stream, earlier, rfl, before, partly⟩ := inRound
  intro member
  rcases List.mem_cons.mp member with equal | old
  · exact partly.2 equal.symm
  · exact before.not_mem old

/-- Before the request is read for, less than all of it was handed over. -/
theorem Phase.Consistent.not_mem_of_awaiting {req : Bytes} {phase : Phase Conn}
    {handed : List Bytes} (nonempty : req ≠ []) (consistent : phase.Consistent req handed)
    (awaiting : phase.awaiting = true) (unread : ∀ round conn, phase ≠ .reading round conn) :
    req ∉ handed := by
  cases phase with
  | connecting round => exact Round.Before.not_mem consistent
  | opening round conn =>
      exact InRound.not_mem (consistent.mono fun stream empty =>
        empty ▸ ⟨List.nil_prefix, nonempty.symm⟩)
  | writing round conn pending =>
      exact InRound.not_mem (consistent.mono fun stream split => partial_of_pending split)
  | reading round conn => exact absurd rfl (unread round conn)
  | begin | lookup | storing | resolved | done => exact Bool.noConfusion awaiting

/-- A harmless step of the request keeps it quiet. -/
theorem Phase.Quiet.step {config : ClientConfig Id} {id : Id} {req : Bytes}
    {label : Label Id Conn} {call call' : Call Id Conn}
    (consistent : call.Consistent req) (quiet : call.phase.Quiet config req call.handed)
    (harmless : ∀ round conn, call.phase = .reading round conn →
      spoils config (.call label) = false)
    (stepped : next config.gzip id config.name req label call = some call') :
    call'.phase.Quiet config req call'.handed := by
  have writes : ∀ (round : Round) (conn : Conn) (pending : Bytes) handed,
      (writePhase round conn pending).Quiet config req handed := by
    intro round conn pending handed
    unfold writePhase
    split <;> trivial
  cases moved_of_next stepped with
  | others cache => exact quiet
  | begins | reuses | dials | connects | stores | unopened | unwritten => trivial
  | opens | accepts => exact writes _ _ _ _
  | unconnected round cause message here =>
      rw [Call.Consistent, here] at consistent
      exact fun _ => Round.Before.not_mem consistent
  | reads round conn body here =>
      have usable := harmless round conn here
      simp only [spoils, Bool.not_eq_false'] at usable
      exact usable
  | unread round conn cause message here => exact Bool.noConfusion (harmless round conn here)
  | settles round conn attempt here =>
      rw [Call.Consistent, here] at consistent
      rw [here] at quiet
      cases attempt with
      | response raw =>
          have shape : settle config.gzip id call round (.response raw) =
              call.enter (.done ((decode config.gzip raw).mapError DecodeError.message)) := by
            cases round <;> rfl
          rw [shape]
          intro asks
          rw [asksForRetry_roundTrip_parse, show config.usable raw = true from quiet] at asks
          cases asks
      | afterSend message => exact quiet.elim
      | beforeSend message =>
          have missing : req ∉ call.handed := InRound.not_mem consistent
          cases round with
          | second => exact fun _ => missing
          | first reused =>
              cases reused with
              | false => exact fun _ => missing
              | true => trivial

/-- A harmless step preserves the invariant. -/
theorem Client.Sound.step {config : ClientConfig Id} {req : Bytes}
    (built : buildRequest config.request = .ok req) {label : ClientLabel Id Conn}
    {client client' : Client Id Conn} (sound : client.Sound config req)
    (harmless : Harmless config label client)
    (stepped : clientNext config label client = some client') : client'.Sound config req := by
  have nonempty := buildRequest_ne_nil built
  unfold clientNext at stepped
  split at stepped
  · rename_i inner
    split at stepped
    · rename_i id bytes stage
      simp only [Client.Sound, stage] at sound
      obtain ⟨rfl, consistent, missing, quiet⟩ := sound
      obtain ⟨call, moved, rfl⟩ := Option.map_eq_some_iff.mp stepped
      simp only [Client.Sound, stage]
      refine ⟨trivial, consistent.step nonempty moved, missing, fun left => ?_⟩
      refine (quiet left).step consistent (fun round conn here => ?_) moved
      exact harmless left (by simp [Client.awaitsResponse, stage, here])
    · cases stepped
  · split at stepped
    · rename_i id bytes stage
      split at stepped
      · rename_i awaiting
        simp only [Client.Sound, stage] at sound
        obtain ⟨rfl, consistent, missing, quiet⟩ := sound
        cases stepped
        refine ⟨count_handed_le_one consistent missing, fun left _ member => ?_⟩
        rcases List.mem_append.mp member with current | old
        · refine Phase.Consistent.not_mem_of_awaiting nonempty consistent awaiting ?_ current
          intro round conn here
          exact Bool.noConfusion (harmless left (by simp [Client.awaitsResponse, stage, here]))
        · exact missing old
      · cases stepped
    · cases stepped
  · split at stepped
    · rename_i stage
      simp only [Client.Sound, stage] at sound
      split at stepped
      · cases stepped
        refine ⟨?_, fun _ _ => sound⟩
        rw [Client.handed] at sound ⊢
        rw [List.count_eq_zero.mpr sound]
        exact Nat.zero_le 1
      · rename_i id bytes prepared
        cases stepped
        have same : bytes = req := by
          obtain ⟨_, _, rest⟩ := bind_eq_ok_iff.mp prepared
          obtain ⟨sent, sentBuilt, pair⟩ := bind_eq_ok_iff.mp rest
          rw [built] at sentBuilt
          cases sentBuilt
          cases pair
          rfl
        exact ⟨same, rfl, sound, fun _ => trivial⟩
    · rename_i id bytes stage
      simp only [Client.Sound, stage] at sound
      obtain ⟨rfl, consistent, missing, quiet⟩ := sound
      split at stepped
      · rename_i result finished
        cases stepped
        refine ⟨count_handed_le_one consistent missing, fun left asks member => ?_⟩
        have stillQuiet := quiet left
        rw [finished] at stillQuiet
        rcases List.mem_append.mp member with current | old
        · exact stillQuiet asks current
        · exact missing old
      · cases stepped
    · rename_i result stage
      simp only [Client.Sound, stage] at sound
      split at stepped
      · rename_i repeats
        cases stepped
        exact sound.2 repeats.2 repeats.1
      · cases stepped
        exact sound.1
    · cases stepped

/-- The invariant holds at every point of a harmless run. -/
theorem sound_of_harmless {config : ClientConfig Id} {req : Bytes}
    (built : buildRequest config.request = .ok req) {cache : Id → Option Conn}
    {client : Client Id Conn}
    (run : Run (clientNext config) (Harmless config) (Client.initial cache) client) :
    client.Sound config req :=
  run.invariant (Client.Sound config req) List.not_mem_nil
    fun _ _ _ harmless sound stepped => sound.step built harmless stepped

/-- The peer is handed the whole request at most once in every run in which,
while DuckDB has a retry left, no call fails after its request was written: no
failed read, no timeout, no response that does not decode, parse or carry a
status. -/
theorem count_handed_le_one_of_harmless {config : ClientConfig Id} {req : Bytes}
    (built : buildRequest config.request = .ok req) {cache : Id → Option Conn}
    {client : Client Id Conn}
    (run : Run (clientNext config) (Harmless config) (Client.initial cache) client) :
    client.handed.count req ≤ 1 := by
  have sound := sound_of_harmless built run
  unfold Client.Sound at sound
  split at sound
  · rw [List.count_eq_zero.mpr sound]
    exact Nat.zero_le 1
  · obtain ⟨_, consistent, missing, _⟩ := sound
    exact count_handed_le_one consistent missing
  · exact sound.1
  · exact sound

/-! ## A harmful step delivers twice -/

variable {config : ClientConfig Id} {id : Id} {req : Bytes}

/-- The labels of a call that dials and writes the whole request. -/
def deliverLabels (conn : Conn) (req : Bytes) : List (ClientLabel Id Conn) :=
  [.proceed, .call (.others fun _ => none), .call .proceed, .call .proceed,
    .call (.connect (.ok conn)), .call .proceed, .call (.openBi (.ok ())),
    .call (.accept req.length)]

/-- The client with the whole request on its way. -/
def Client.written (client : Client Id Conn) (id : Id) (conn : Conn) (req : Bytes) :
    Client Id Conn :=
  { client.start id req with
    call :=
      { cache := Function.update (fun _ => none) id (some conn)
        phase := .reading (.first false) conn
        handed := [req] } }

theorem exec_deliverLabels (conn : Conn) (prepared : config.prepare = .ok (id, req))
    (nonempty : req ≠ []) {client : Client Id Conn} (idle : client.stage = .idle) :
    exec (clientNext config) (deliverLabels conn req) client =
      some (client.written id conn req) := by
  simp [deliverLabels, clientNext, idle, prepared, Client.start, Call.initial, next, Call.enter,
    Call.beginAttempt, Call.setCached, writePhase, handOver, nonempty, Client.written]

/-- From where DuckDB calls the client, a harmless run hands the peer the whole
request and awaits the response. -/
theorem exists_deliver (conn : Conn) (address : config.address = .ok id)
    (built : buildRequest config.request = .ok req) {client : Client Id Conn}
    (idle : client.stage = .idle) :
    ∃ client' : Client Id Conn, Run (clientNext config) (Harmless config) client client' ∧
      client'.awaitsResponse = true ∧ client'.tries = client.tries ∧
      client'.handed = req :: client.handed := by
  have prepared := prepare_eq_ok address built
  refine ⟨client.written id conn req, run_of_exec
    (exec_deliverLabels conn prepared (buildRequest_ne_nil built) idle) ?_, rfl, rfl, rfl⟩
  simp [deliverLabels, Harmless, spoils]

/-- A call that ends in a way DuckDB repeats leads back to where DuckDB calls
the client. -/
theorem exec_repeat {client : Client Id Conn} {bytes : Bytes} {result : Except Text Bytes}
    (stage : client.stage = .calling id bytes) (phase : client.call.phase = .done result)
    (left : client.tries < config.retries)
    (asks : asksForRetry (roundTrip (config.parse result)) = true) :
    exec (clientNext config) [.proceed, .proceed] client =
      some { client with stage := .idle, tries := client.tries + 1 } := by
  simp [clientNext, stage, phase, asks, left]

theorem settle_handed (gzip : Codec) (id : Id) (call : Call Id Conn) (round : Round)
    (attempt : Attempt) : (settle gzip id call round attempt).handed = call.handed := by
  cases round <;> cases attempt <;> rfl

/-- An attempt that settles to such an end leads back there too. -/
theorem exists_repeat_of_resolved (client : Client Id Conn) {bytes : Bytes} {round : Round}
    {conn : Conn} {attempt : Attempt} (result : Except Text Bytes)
    (stage : client.stage = .calling id bytes)
    (phase : client.call.phase = .resolved round conn attempt)
    (settled : (settle config.gzip id client.call round attempt).phase = .done result)
    (left : client.tries < config.retries)
    (asks : asksForRetry (roundTrip (config.parse result)) = true) :
    ∃ client' : Client Id Conn, Reachable (clientNext config) client client' ∧
      client'.stage = .idle ∧ client'.handed = client.handed := by
  let settling : Client Id Conn :=
    { client with call := settle config.gzip id client.call round attempt }
  have stepped : clientNext config (.call .proceed) client = some settling := by
    simp [clientNext, stage, next, phase, settling]
  have repeated : exec (clientNext config) [.proceed, .proceed] settling = some _ :=
    exec_repeat stage settled left asks
  refine ⟨_, (reachable_of_next _ stepped).trans (reachable_of_exec repeated), rfl, ?_⟩
  simp only [Client.handed, settling, settle_handed]

/-- A label that fails a request which awaits its response leads back to where
DuckDB calls the client, if it has a retry left. -/
theorem exists_repeat {label : ClientLabel Id Conn} {client : Client Id Conn} {bytes : Bytes}
    {round : Round} {conn : Conn} (stage : client.stage = .calling id bytes)
    (phase : client.call.phase = .reading round conn) (left : client.tries < config.retries)
    (spoiled : spoils config label = true) :
    ∃ failed client' : Client Id Conn, clientNext config label client = some failed ∧
      Reachable (clientNext config) failed client' ∧
      client'.stage = .idle ∧ client'.handed = client.handed := by
  cases label with
  | proceed => cases spoiled
  | expire =>
      let message := withContext "request timed out".toList "deadline has elapsed".toList
      refine ⟨{ client with stage := .answered (.error message) }, _, ?_,
        reachable_of_next .proceed (if_pos ⟨asksForRetry_error message, left⟩),
        rfl, rfl⟩
      simp [clientNext, stage, phase, Phase.awaiting, message]
  | call inner =>
      cases inner with
      | others | proceed | connect | openBi | accept | writeFails => cases spoiled
      | readToEnd outcome =>
          cases outcome with
          | error cause =>
              let message := withContext "failed to read response".toList cause
              let failed : Client Id Conn :=
                { client with
                  call := client.call.enter (.resolved round conn (.afterSend message)) }
              obtain ⟨client', reached⟩ := exists_repeat_of_resolved failed
                (.error message) stage rfl (by cases round <;> rfl) left
                (asksForRetry_error message)
              exact ⟨failed, client', by simp [clientNext, stage, next, phase, failed, message],
                reached⟩
          | ok raw =>
              let failed : Client Id Conn :=
                { client with call := client.call.enter (.resolved round conn (.response raw)) }
              obtain ⟨client', reached⟩ := exists_repeat_of_resolved failed
                ((decode config.gzip raw).mapError DecodeError.message) stage rfl
                (by cases round <;> rfl) left (by
                  rw [asksForRetry_roundTrip_parse]
                  exact spoiled)
              exact ⟨failed, client', by simp [clientNext, stage, next, phase, failed], reached⟩

/-- The condition is sharp: a harmless run can be continued, after its first
harmful step, so that the peer is handed the whole request twice. -/
theorem exists_handed_twice {cache : Id → Option Conn} {client : Client Id Conn}
    {label : ClientLabel Id Conn} (address : config.address = .ok id)
    (built : buildRequest config.request = .ok req)
    (run : Run (clientNext config) (Harmless config) (Client.initial cache) client)
    (harmful : ¬ Harmless config label client) :
    ∃ failed client' : Client Id Conn, clientNext config label client = some failed ∧
      Reachable (clientNext config) failed client' ∧ 2 ≤ client'.handed.count req := by
  simp only [Harmless, Classical.not_imp, Bool.not_eq_false] at harmful
  obtain ⟨left, awaits, spoiled⟩ := harmful
  unfold Client.awaitsResponse at awaits
  split at awaits
  · rename_i _ bytes round conn calling phase
    obtain ⟨failed, idle, stepped, repeated, stage, handed⟩ :=
      exists_repeat calling phase left spoiled
    obtain ⟨client', delivered, _, _, handed'⟩ := exists_deliver conn address built stage
    refine ⟨failed, client', stepped, repeated.trans delivered.reachable, ?_⟩
    have sound := sound_of_harmless built run
    simp only [Client.Sound, calling] at sound
    obtain ⟨_, consistent, _⟩ := sound
    rw [Call.Consistent, phase] at consistent
    obtain ⟨stream, earlier, shape, _, rfl⟩ := consistent
    rw [handed', handed, Client.handed, shape]
    simp
  · cases awaits

/-- A statement posted by DuckDB, which would send it three times again. -/
def samplePost : ClientConfig Nat where
  gzip := sampleGzip
  bits := 64
  hidden := fun _ => false
  address := .ok 7
  name := "peer".toList
  request := postRequest "/quack".toList "peer.iroh".toList "9494".toList []
    (utf8 "INSERT".toList)
  retries := 3

/-- What is sent for it. -/
def samplePostBytes : Bytes :=
  utf8 (headText samplePost.request) ++ utf8 "INSERT".toList

theorem buildRequest_samplePost : buildRequest samplePost.request = .ok samplePostBytes :=
  buildRequest_eq_ok_iff.mpr ⟨by constructor <;> decide, rfl⟩

theorem prepare_samplePost : samplePost.prepare = .ok (7, samplePostBytes) :=
  prepare_eq_ok rfl buildRequest_samplePost

/-- The statement has been written on a new connection. -/
theorem count_handed_samplePost :
    ((Client.initial fun _ => none : Client Nat Nat).written 7 0 samplePostBytes).handed.count
      samplePostBytes ≤ 1 :=
  count_handed_le_one_of_harmless buildRequest_samplePost
    (run_of_exec (exec_deliverLabels 0 prepare_samplePost (by decide) rfl)
      (by simp [deliverLabels, Harmless, spoils]))

/-- The read of its response fails, and the peer is handed the statement
again. -/
theorem samplePost_handed_twice :
    ∃ client : Client Nat Nat,
      Reachable (clientNext samplePost) (Client.initial fun _ => none) client ∧
        2 ≤ client.handed.count samplePostBytes := by
  let start : Client Nat Nat := Client.initial fun _ => none
  have idle : start.stage = .idle := rfl
  obtain ⟨written, delivered, awaits, tries, _⟩ :=
    exists_deliver 0 rfl buildRequest_samplePost idle
  have harmful : ¬ Harmless samplePost
      (.call (.readToEnd (.error "connection lost".toList))) written := by
    simp [Harmless, awaits, tries, spoils, start, Client.initial, samplePost]
  obtain ⟨failed, twice, stepped, repeated, count⟩ :=
    exists_handed_twice rfl buildRequest_samplePost delivered harmful
  exact ⟨twice, (delivered.reachable.tail trivial stepped).trans repeated, count⟩

end Quackhole.Dial
