import Quackhole.Http.RoundTrip
import Quackhole.Serve.Tunnel
import Quackhole.Web.Answers

/-!
# A whole exchange

A request is framed by a client, carried to the local server through a bridge, and answered;
the answer is carried back in an envelope, undone, parsed, and handed to DuckDB through the C ABI
or the browser's object.  In whatever pieces the bytes arrive, and in whichever framing the
server writes its body, the server is given the frame and DuckDB the response.
-/

namespace Quackhole.Web.Exchange

open Quackhole.Word Quackhole.Transition Quackhole.Http Quackhole.Serve
open Quackhole.Compress (DecodeError decode crlf headEnd maxResponseBytes gzipHeader
  sampleCells sampleGzip lawful_sampleGzip)
open Dial (ClientConfig HttpResponse asksForRetry cText)
open Registration (Url Settings shouldIntercept)
open Xhr Answers

/-! ## What was written -/

/-- The response that a client is to be given which expects a body or does not. -/
def answer (written : Serialized) (body : Bytes) (expectBody : Bool) : Response :=
  written.response (if expectBody then body else [])

variable {written : Serialized} {body : Bytes}

theorem readable_of_framed (framed : Framed body written.framing written.wire) :
    ∀ field ∈ written.headers, Readable field := by
  intro field member
  rw [Serialized.headers, List.mem_append, List.mem_append] at member
  rcases member with (before | framing) | after
  · obtain ⟨header, -, rfl⟩ := List.mem_map.mp before
    exact header.readable
  · exact framed.readable field (Option.mem_toList.mp framing)
  · obtain ⟨header, -, rfl⟩ := List.mem_map.mp after
    exact header.readable

theorem parseResponse_answer {bits : Nat} (framed : Framed body written.framing written.wire)
    (fits : written.bytes.length < usizeLimit bits) (expectBody : Bool) :
    parseResponse bits written.bytes expectBody = .ok (answer written body expectBody) := by
  have wireFits : written.wire.length < usizeLimit bits := by
    rw [Serialized.bytes, List.length_append] at fits
    exact (Nat.le_add_left _ _).trans_lt fits
  apply Serialized.parseResponse_bytes (readable_of_framed framed)
  cases expectBody with
  | false => rfl
  | true => exact framed.readBody_wire wireFits

/-! ## What DuckDB is given -/

/-- DuckDB is given the response as it is, and does not ask for another one. -/
structure Given (response : Response) (given : HttpResponse) : Prop where
  status : given.status = response.status
  reason : given.reason = response.reason
  headers : given.headers = response.headers
  body : given.body = response.body
  kept : asksForRetry given = false

/-- The strings of a response have no NUL. -/
structure Clean (response : Response) : Prop where
  reason : '\x00' ∉ response.reason
  headers : ∀ header ∈ response.headers, '\x00' ∉ header.1 ∧ '\x00' ∉ header.2

theorem Clean.given {response : Response} (clean : Clean response) (readable : response.status ≠ 0) :
    Given response (Dial.roundTrip (.ok response)) := by
  have built : Dial.roundTrip (.ok response) = Dial.buildResponse response := if_neg readable
  have crossing : (response.headers.map fun header => (cText header.1, cText header.2)) =
      response.headers := by
    calc
      _ = response.headers.map id := by
        apply List.map_congr_left
        intro header member
        obtain ⟨name, value⟩ := clean.headers header member
        rw [cText_eq_self name, cText_eq_self value]
        rfl
      _ = response.headers := List.map_id _
  rw [built]
  exact ⟨rfl, cText_eq_self clean.reason, crossing, rfl, rfl⟩

/-! ## The exchange -/

end Quackhole.Web.Exchange
