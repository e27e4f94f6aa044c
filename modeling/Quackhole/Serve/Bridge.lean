import Quackhole.Transition.Labelled
import Quackhole.Compress.Envelope

/-!
# One stream bridged to one connection

`bridge` reads enough of a request to decide about compression, connects to the
local server, forwards what it has read, and then copies in both directions at
once until the response ends or either direction fails.  Each read, each write
and each end of a copy is one step, so the two directions interleave in every
order `select!` can choose.

The bytes the client sends and the bytes the server writes before it closes are
part of the state: a read takes some of them.  The client does not reset the
stream and serving is not stopped, so there are no steps for either.
-/

namespace Quackhole.Serve

open Quackhole.Word
open Quackhole.Compress
open Quackhole.Transition

/-- `MAX_HEAD_BYTES`: how much of a request will be buffered while looking for
the end of its head. -/
def maxHeadBytes : Nat :=
  16 * 1024

/-- How much `sniff` reads at a time. -/
def sniffBytes : Nat :=
  4096

/-- How much of the response is read at a time. -/
def responseBytes : Nat :=
  64 * 1024

/-- What `sniff` decides once it has read this much, if it stops there. -/
def sniffDecision (buf : Bytes) : Option Bool :=
  match headEnd buf with
  | some n => some (wantsCompression (buf.take n))
  | none => if buf.length < maxHeadBytes then none else some false

/-- What a bridge fails with. -/
inductive Failure where
  | connect
  | forwardRequest
  | copyRequest
  | copyResponse
  deriving DecidableEq, Repr

/-- The text of the error. -/
def Failure.message (target : Text) : Failure → Text
  | connect => "failed to connect to ".toList ++ target
  | forwardRequest => "failed to forward request".toList
  | copyRequest => "failed to copy request".toList
  | copyResponse => "failed to copy response".toList

/-- Where `bridge` stands. -/
inductive Phase where
  /-- Inside `sniff`. -/
  | sniffing
  /-- Awaiting the connection to the server. -/
  | connecting
  /-- Writing what `sniff` has read. -/
  | forwarding
  /-- In the loop around `select!`. -/
  | copying
  /-- The response stream has been finished. -/
  | finished
  | failed (reason : Failure)
  deriving DecidableEq, Repr

/-- What can happen next. -/
inductive Label where
  /-- Read this much of the request. -/
  | readRequest (count : Nat)
  /-- Read the end of the request stream. -/
  | endRequest
  | connect
  | refuse
  /-- The server's socket takes this much of what was read. -/
  | writeRequest (count : Nat)
  /-- The server has stopped reading, or closed. -/
  | requestFails
  /-- Read this much of the response. -/
  | readResponse (count : Nat)
  /-- Read the end of the response. -/
  | endResponse
  /-- The response cannot be read. -/
  | responseFails
  /-- The client's stream takes this much of what was read. -/
  | writeResponse (count : Nat)
  /-- The copy of the response is over, and the loop is left. -/
  | finish
  deriving DecidableEq, Repr

/-- A bridge, with the bytes on both sides of it. -/
structure Bridge (gzip : Codec) where
  phase : Phase
  /-- What the client has sent and the bridge has not read. -/
  request : Bytes
  /-- The client ends its stream after that. -/
  halfClosed : Bool
  /-- Read from the client, and not written to the server. -/
  upstream : Bytes
  toServer : Bytes
  /-- The copy of the request has come to its end. -/
  requestDrained : Bool
  /-- What the server writes before it closes and the bridge has not read. -/
  response : Bytes
  /-- The encoder, when the client asked for one. -/
  encoder : Option (Encoder gzip)
  /-- Read from the server, and not written to the client. -/
  outgoing : Bytes
  toClient : Bytes
  /-- The end of the response has been read. -/
  responseOver : Bool

variable {gzip : Codec}

namespace Bridge

/-- A bridge that has read nothing. -/
def initial (request : Bytes) (halfClosed : Bool) (response : Bytes) : Bridge gzip where
  phase := .sniffing
  request := request
  halfClosed := halfClosed
  upstream := []
  toServer := []
  requestDrained := false
  response := response
  encoder := none
  outgoing := []
  toClient := []
  responseOver := false

/-- `sniff` returns. -/
def sniffed (bridge : Bridge gzip) (compress : Bool) : Bridge gzip :=
  { bridge with phase := .connecting, encoder := if compress then some Encoder.new else none }

/-- `write_all(&head)` with this much left: it returns once nothing is. -/
def forward (bridge : Bridge gzip) : Bridge gzip :=
  { bridge with phase := if bridge.upstream = [] then .copying else .forwarding }

/-- Take some of the request. -/
def takeRequest (bridge : Bridge gzip) (count : Nat) : Bridge gzip :=
  { bridge with
    request := bridge.request.drop count
    upstream := bridge.upstream ++ bridge.request.take count }

/-- Hand some of what was read to the server. -/
def giveServer (bridge : Bridge gzip) (count : Nat) : Bridge gzip :=
  { bridge with
    upstream := bridge.upstream.drop count
    toServer := bridge.toServer ++ bridge.upstream.take count }

/-- Take some of the response, through the encoder if there is one: a plain copy
adds to what is outgoing, and the pump's output buffer is cleared first. -/
def takeResponse (bridge : Bridge gzip) (count : Nat) : Bridge gzip :=
  let chunk := bridge.response.take count
  { bridge with
    response := bridge.response.drop count
    encoder := bridge.encoder.map fun encoder => (encoder.push chunk []).1
    outgoing :=
      match bridge.encoder with
      | none => bridge.outgoing ++ chunk
      | some encoder => (encoder.push chunk []).2 }

/-- The end of the response, with the trailer of the encoder if there is one. -/
def closeResponse (bridge : Bridge gzip) : Bridge gzip :=
  { bridge with
    responseOver := true
    outgoing :=
      match bridge.encoder with
      | none => bridge.outgoing
      | some encoder => encoder.finish [] }

/-- Hand some of what was read to the client. -/
def giveClient (bridge : Bridge gzip) (count : Nat) : Bridge gzip :=
  { bridge with
    outgoing := bridge.outgoing.drop count
    toClient := bridge.toClient ++ bridge.outgoing.take count }

/-- The response may be read: the pump writes all of a chunk before it reads the
next one, and a plain copy reads ahead. -/
def readsResponse (bridge : Bridge gzip) : Prop :=
  bridge.phase = .copying ∧ bridge.responseOver = false ∧
    (bridge.encoder.isNone = true ∨ bridge.outgoing = [])

instance (bridge : Bridge gzip) : Decidable bridge.readsResponse :=
  inferInstanceAs (Decidable (_ ∧ _ ∧ _))

end Bridge

/-- One step of `bridge`. -/
def bridgeNext : LStep Label (Bridge gzip)
  | .readRequest count, bridge =>
      if 0 < count ∧ count ≤ bridge.request.length then
        match bridge.phase with
        | .sniffing =>
            if count ≤ sniffBytes then
              match sniffDecision (bridge.takeRequest count).upstream with
              | none => some (bridge.takeRequest count)
              | some compress => some ((bridge.takeRequest count).sniffed compress)
            else none
        | .copying =>
            if bridge.requestDrained then none else some (bridge.takeRequest count)
        | _ => none
      else none
  | .endRequest, bridge =>
      if bridge.request = [] ∧ bridge.halfClosed then
        match bridge.phase with
        | .sniffing => some (bridge.sniffed false)
        | .copying =>
            if bridge.upstream = [] ∧ bridge.requestDrained = false then
              some { bridge with requestDrained := true }
            else none
        | _ => none
      else none
  | .connect, bridge =>
      if bridge.phase = .connecting then some bridge.forward else none
  | .refuse, bridge =>
      if bridge.phase = .connecting then some { bridge with phase := .failed .connect } else none
  | .writeRequest count, bridge =>
      if 0 < count ∧ count ≤ bridge.upstream.length then
        match bridge.phase with
        | .forwarding => some (bridge.giveServer count).forward
        | .copying => some (bridge.giveServer count)
        | _ => none
      else none
  | .requestFails, bridge =>
      if bridge.upstream = [] then none
      else
        match bridge.phase with
        | .forwarding => some { bridge with phase := .failed .forwardRequest }
        | .copying => some { bridge with phase := .failed .copyRequest }
        | _ => none
  | .readResponse count, bridge =>
      if bridge.readsResponse ∧ 0 < count ∧ count ≤ bridge.response.length ∧
          count ≤ responseBytes then
        some (bridge.takeResponse count)
      else none
  | .endResponse, bridge =>
      if bridge.readsResponse ∧ bridge.response = [] then some bridge.closeResponse else none
  | .responseFails, bridge =>
      if bridge.readsResponse then some { bridge with phase := .failed .copyResponse } else none
  | .writeResponse count, bridge =>
      if bridge.phase = .copying ∧ 0 < count ∧ count ≤ bridge.outgoing.length then
        some (bridge.giveClient count)
      else none
  | .finish, bridge =>
      if bridge.phase = .copying ∧ bridge.responseOver = true ∧ bridge.outgoing = [] then
        some { bridge with phase := .finished }
      else none

/-! ## What a step can do -/

/-- Every step of a bridge, by the phase it leaves. -/
inductive Moved (bridge : Bridge gzip) : Label → Bridge gzip → Prop
  | sniffs (count : Nat) : bridge.phase = .sniffing →
      sniffDecision (bridge.takeRequest count).upstream = none →
      0 < count → count ≤ bridge.request.length →
      Moved bridge (.readRequest count) (bridge.takeRequest count)
  | decides (count : Nat) (compress : Bool) : bridge.phase = .sniffing →
      sniffDecision (bridge.takeRequest count).upstream = some compress →
      0 < count → count ≤ bridge.request.length →
      Moved bridge (.readRequest count) ((bridge.takeRequest count).sniffed compress)
  | sniffsEnd : bridge.phase = .sniffing → bridge.request = [] → bridge.halfClosed = true →
      Moved bridge .endRequest (bridge.sniffed false)
  | connects : bridge.phase = .connecting → Moved bridge .connect bridge.forward
  | refused : bridge.phase = .connecting →
      Moved bridge .refuse { bridge with phase := .failed .connect }
  | forwards (count : Nat) : bridge.phase = .forwarding →
      0 < count → count ≤ bridge.upstream.length →
      Moved bridge (.writeRequest count) (bridge.giveServer count).forward
  | forwardBreaks : bridge.phase = .forwarding → bridge.upstream ≠ [] →
      Moved bridge .requestFails { bridge with phase := .failed .forwardRequest }
  | copies (count : Nat) : bridge.phase = .copying → bridge.requestDrained = false →
      0 < count → count ≤ bridge.request.length →
      Moved bridge (.readRequest count) (bridge.takeRequest count)
  | writes (count : Nat) : bridge.phase = .copying →
      0 < count → count ≤ bridge.upstream.length →
      Moved bridge (.writeRequest count) (bridge.giveServer count)
  | drains : bridge.phase = .copying → bridge.request = [] → bridge.upstream = [] →
      bridge.requestDrained = false →
      Moved bridge .endRequest { bridge with requestDrained := true }
  | copyBreaks : bridge.phase = .copying → bridge.upstream ≠ [] →
      Moved bridge .requestFails { bridge with phase := .failed .copyRequest }
  | reads (count : Nat) : bridge.readsResponse → 0 < count → count ≤ bridge.response.length →
      Moved bridge (.readResponse count) (bridge.takeResponse count)
  | ends : bridge.readsResponse → bridge.response = [] →
      Moved bridge .endResponse bridge.closeResponse
  | responseBreaks : bridge.readsResponse →
      Moved bridge .responseFails { bridge with phase := .failed .copyResponse }
  | delivers (count : Nat) : bridge.phase = .copying →
      0 < count → count ≤ bridge.outgoing.length →
      Moved bridge (.writeResponse count) (bridge.giveClient count)
  | finishes : bridge.phase = .copying → bridge.responseOver = true → bridge.outgoing = [] →
      Moved bridge .finish { bridge with phase := .finished }

/-- A step is one of these. -/
theorem moved_of_bridgeNext {label : Label} {bridge bridge' : Bridge gzip}
    (stepped : bridgeNext label bridge = some bridge') : Moved bridge label bridge' := by
  unfold bridgeNext at stepped
  split at stepped
  · split at stepped
    · rename_i count fits
      split at stepped
      · rename_i here
        split at stepped
        · split at stepped
          · rename_i undecided
            cases stepped
            exact .sniffs count here undecided fits.1 fits.2
          · rename_i compress decided
            cases stepped
            exact .decides count compress here decided fits.1 fits.2
        · cases stepped
      · rename_i here
        split at stepped
        · cases stepped
        · rename_i undrained
          cases stepped
          exact .copies count here (by simpa using undrained) fits.1 fits.2
      · cases stepped
    · cases stepped
  · split at stepped
    · rename_i closed
      split at stepped
      · rename_i here
        cases stepped
        exact .sniffsEnd here closed.1 closed.2
      · rename_i here
        split at stepped
        · rename_i drained
          cases stepped
          exact .drains here closed.1 drained.1 drained.2
        · cases stepped
      · cases stepped
    · cases stepped
  · split at stepped
    · rename_i here
      cases stepped
      exact .connects here
    · cases stepped
  · split at stepped
    · rename_i here
      cases stepped
      exact .refused here
    · cases stepped
  · split at stepped
    · rename_i count fits
      split at stepped
      · rename_i here
        cases stepped
        exact .forwards count here fits.1 fits.2
      · rename_i here
        cases stepped
        exact .writes count here fits.1 fits.2
      · cases stepped
    · cases stepped
  · split at stepped
    · cases stepped
    · rename_i pending
      split at stepped
      · rename_i here
        cases stepped
        exact .forwardBreaks here pending
      · rename_i here
        cases stepped
        exact .copyBreaks here pending
      · cases stepped
  · split at stepped
    · rename_i count fits
      cases stepped
      exact .reads count fits.1 fits.2.1 fits.2.2.1
    · cases stepped
  · split at stepped
    · rename_i closed
      cases stepped
      exact .ends closed.1 closed.2
    · cases stepped
  · split at stepped
    · rename_i here
      cases stepped
      exact .responseBreaks here
    · cases stepped
  · split at stepped
    · rename_i count fits
      cases stepped
      exact .delivers count fits.1 fits.2.1 fits.2.2
    · cases stepped
  · split at stepped
    · rename_i closed
      cases stepped
      exact .finishes closed.1 closed.2.1 closed.2.2
    · cases stepped

end Quackhole.Serve
