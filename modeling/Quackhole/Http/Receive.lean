import Quackhole.Http.Response
import Quackhole.Compress.Envelope

/-!
# Receiving a response

What a dialing side does with the bytes of a response stream: it undoes the
envelope, if there is one, and parses what is underneath.  A stream that was cut
short is an error on this path or, where the cut took nothing the parse depends
on, has the same result as the whole.
-/

namespace Quackhole.Http

open Quackhole.Word
open Quackhole.Compress

/-- Why received bytes are no response. -/
inductive ReceiveError where
  | undecodable (reason : DecodeError)
  | malformed (reason : ParseError)
  deriving DecidableEq, Repr

/-- `read_to_end(MAX_RESPONSE_BYTES)` on a stream that ends after these bytes. -/
def readToEnd (stream : Bytes) : Option Bytes :=
  if stream.length ≤ maxResponseBytes then some stream else none

/-- Undo the envelope and parse the response: the end of `request_async` and the
end of `Core::request`. -/
def receive (gzip : Codec) (bits : Nat) (expectBody : Bool) (raw : Bytes) :
    Except ReceiveError Response :=
  match decode gzip raw with
  | .error reason => .error (.undecodable reason)
  | .ok bytes =>
      match parseResponse bits bytes expectBody with
      | .error reason => .error (.malformed reason)
      | .ok response => .ok response

/-- What `Core::request` makes of a response stream that ends after these bytes,
or nothing when the stream is too long to be read. -/
def requestResult (gzip : Codec) (bits : Nat) (method : Text) (stream : Bytes) :
    Option (Except ReceiveError Response) :=
  (readToEnd stream).map (receive gzip bits (method ≠ "HEAD".toList))

theorem receive_eq_ok_iff {gzip : Codec} {bits : Nat} {expectBody : Bool} {raw : Bytes}
    {response : Response} :
    receive gzip bits expectBody raw = .ok response ↔
      ∃ bytes, decode gzip raw = .ok bytes ∧
        parseResponse bits bytes expectBody = .ok response := by
  unfold receive
  cases decode gzip raw with
  | error reason => simp
  | ok bytes =>
      simp only [Except.ok.injEq, exists_eq_left']
      cases parseResponse bits bytes expectBody with
      | error reason => simp
      | ok response => simp

/-- An envelope within the cap of a response within the cap is received as the
response. -/
theorem receive_envelope {gzip : Codec} (lawful : gzip.Lawful) {bits : Nat} {expectBody : Bool}
    {chunks : List Bytes} (bounded : chunks.flatten.length ≤ maxResponseBytes) :
    receive gzip bits expectBody (envelope gzip chunks) =
      (parseResponse bits chunks.flatten expectBody).mapError .malformed := by
  rw [receive, decode_envelope lawful bounded]
  dsimp only
  cases parseResponse bits chunks.flatten expectBody with
  | error reason => rfl
  | ok response => rfl

/-! ## Prefixes -/

theorem take_of_isPrefix {short long : Bytes} {n : Nat} (isPrefix : short <+: long)
    (reaches : n ≤ short.length) : long.take n = short.take n := by
  obtain ⟨rest, rfl⟩ := isPrefix
  exact List.take_append_of_le_length reaches

/-- A chunk that begins a prefix begins the whole. -/
theorem FirstChunk.of_isPrefix {bits : Nat} {short long : Bytes} {lineEnd size : Nat}
    (isPrefix : short <+: long) (first : FirstChunk bits short lineEnd size) :
    FirstChunk bits long lineEnd size := by
  obtain ⟨found, parsed⟩ := first
  have pattern : utf8 crlf ≠ [] := by simp
  have bound := findWord_lt pattern found
  refine ⟨findWord_of_isPrefix pattern isPrefix found, ?_⟩
  rw [take_of_isPrefix isPrefix (by omega)]
  exact parsed

/-- Chunks that decode in a prefix decode to the same data in the whole: the
last chunk is in the prefix. -/
theorem decodeChunks_of_isPrefix {bits : Nat} {out short long body : Bytes}
    (isPrefix : short <+: long) (decoded : decodeChunks bits out short = .ok body) :
    decodeChunks bits out long = .ok body := by
  induction size : short.length using Nat.strongRecOn generalizing out short long with
  | ind length ih =>
      obtain ⟨lineEnd, size, first, outcome⟩ := decodeChunks_eq_ok_iff.mp decoded
      refine decodeChunks_eq_ok_iff.mpr ⟨lineEnd, size, first.of_isPrefix isPrefix, ?_⟩
      have restPrefix : short.drop (lineEnd + 2) <+: long.drop (lineEnd + 2) :=
        isPrefix.drop (lineEnd + 2)
      rcases outcome with last | ⟨positive, fits, rest⟩
      · exact Or.inl last
      · refine Or.inr ⟨positive, fits.trans restPrefix.length_le, ?_⟩
        rw [take_of_isPrefix restPrefix fits]
        refine ih _ ?_ ((restPrefix.drop size).drop 2) rest rfl
        have bound := findWord_lt (by simp) first.1
        simp only [utf8_crlf, List.length_cons, List.length_nil] at bound
        simp only [List.length_drop]
        omega

/-- The head says where the body ends. -/
def SelfDelimited (bits : Nat) (headers : List (Text × Text)) : Prop :=
  isChunked headers = true ∨ (promisedLength bits headers).isSome = true

/-- A body that reads in a prefix reads the same in the whole. -/
theorem readBody_of_isPrefix {bits : Nat} {expectBody : Bool} {headers : List (Text × Text)}
    {short long body : Bytes} (delimited : SelfDelimited bits headers)
    (isPrefix : short <+: long) (read : readBody bits expectBody headers short = .ok body) :
    readBody bits expectBody headers long = .ok body := by
  unfold readBody at read ⊢
  by_cases bodiless : (!expectBody) = true
  · rw [if_pos bodiless] at read ⊢
    exact read
  · rw [if_neg bodiless] at read ⊢
    by_cases chunked : isChunked headers = true
    · rw [if_pos chunked] at read ⊢
      exact decodeChunks_of_isPrefix isPrefix read
    · rw [if_neg chunked] at read ⊢
      obtain ⟨len, promised⟩ := Option.isSome_iff_exists.mp (delimited.resolve_left chunked)
      simp only [promised] at read ⊢
      by_cases short_len : len > short.length
      · rw [if_pos short_len] at read
        cases read
      · have fits : len ≤ short.length := Nat.le_of_not_lt short_len
        rw [if_neg short_len] at read
        rw [if_neg (Nat.not_lt.mpr (fits.trans isPrefix.length_le)),
          take_of_isPrefix isPrefix fits]
        exact read

/-- A response that parses from a prefix parses the same from the whole, if the
head of the whole says where the body ends. -/
theorem parseResponse_of_isPrefix {bits : Nat} {expectBody : Bool} {short long : Bytes}
    {split : Nat} {response : Response} (ended : findWord headTerminator long = some split)
    (delimited : SelfDelimited bits (parseHead (long.take split)).headers)
    (isPrefix : short <+: long) (parsed : parseResponse bits short expectBody = .ok response) :
    parseResponse bits long expectBody = .ok response := by
  obtain ⟨shortSplit, body, found, read, assembled⟩ := parseResponse_eq_ok_iff.mp parsed
  have same : shortSplit = split := by
    have foundLong := findWord_of_isPrefix headTerminator_ne_nil isPrefix found
    rw [foundLong] at ended
    exact Option.some.inj ended
  subst same
  have bound := findWord_lt headTerminator_ne_nil found
  have sameHead : long.take shortSplit = short.take shortSplit :=
    take_of_isPrefix isPrefix (by omega)
  rw [sameHead] at delimited
  refine parseResponse_eq_ok_iff.mpr ⟨shortSplit, body, ended, ?_, ?_⟩
  · rw [sameHead]
    exact readBody_of_isPrefix delimited (isPrefix.drop (shortSplit + 4)) read
  · rw [sameHead]
    exact assembled

/-! ## A response cut short -/

/-- The bytes a serving bridge sends for a complete response: the envelope of
it, in whatever chunks it arrived, or the response itself, which is no envelope
and whose head frames its body by a length or by chunks. -/
inductive WireForm (gzip : Codec) (bits : Nat) (response : Bytes) : Bytes → Prop
  | enveloped (chunks : List Bytes) :
      chunks.flatten = response → WireForm gzip bits response (envelope gzip chunks)
  | measured (split : Nat) :
      ¬ magic <+: response →
      findWord headTerminator response = some split →
      promisedLength bits (parseHead (response.take split)).headers =
        some (response.drop (split + 4)).length →
      WireForm gzip bits response response
  | chunked (split : Nat) (body : Bytes) :
      ¬ magic <+: response →
      findWord headTerminator response = some split →
      isChunked (parseHead (response.take split)).headers = true →
      decodeChunks bits [] (response.drop (split + 4)) = .ok body →
      WireForm gzip bits response response

/-- A prefix that is shorter than the magic has no head. -/
theorem not_parse_of_prefix_magic {bits : Nat} {expectBody : Bool} {short : Bytes}
    {response : Response} (isPrefix : short <+: magic) :
    parseResponse bits short expectBody ≠ .ok response := by
  intro parsed
  obtain ⟨split, _, found, _⟩ := parseResponse_eq_ok_iff.mp parsed
  have foundMagic := findWord_of_isPrefix headTerminator_ne_nil isPrefix found
  have none : findWord headTerminator magic = none := by decide
  rw [none] at foundMagic
  cases foundMagic

/-- A cut in an envelope is always an error. -/
theorem not_receive_cut_envelope {gzip : Codec} (lawful : gzip.Lawful) {bits : Nat}
    {expectBody : Bool} {chunks : List Bytes} {cut : Bytes} {response : Response}
    (isPrefix : cut <+: envelope gzip chunks) (proper : cut ≠ envelope gzip chunks) :
    receive gzip bits expectBody cut ≠ .ok response := by
  intro received
  obtain ⟨bytes, decoded, parsed⟩ := receive_eq_ok_iff.mp received
  rw [envelope_eq lawful] at isPrefix proper
  by_cases announced : magic <+: cut
  · obtain ⟨coded, rfl⟩ := announced
    rw [List.prefix_append_right_inj] at isPrefix
    exact decode_cut_envelope lawful isPrefix (fun equal => proper (by rw [equal])) decoded
  · have inMagic : cut <+: magic :=
      Or.resolve_right ( List.prefix_or_prefix_of_prefix isPrefix (List.prefix_append _ _)) announced
    rw [decode, decodeWithin_of_plain announced] at decoded
    cases decoded
    exact not_parse_of_prefix_magic inMagic parsed

/-- A cut in a plain response that frames its own body is an error or loses
nothing. -/
theorem parseResponse_of_receive_cut {gzip : Codec} {bits : Nat} {expectBody : Bool}
    {whole cut : Bytes} {split : Nat} {response : Response} (plain : ¬ magic <+: whole)
    (ended : findWord headTerminator whole = some split)
    (delimited : SelfDelimited bits (parseHead (whole.take split)).headers)
    (isPrefix : cut <+: whole) (received : receive gzip bits expectBody cut = .ok response) :
    parseResponse bits whole expectBody = .ok response := by
  obtain ⟨bytes, decoded, parsed⟩ := receive_eq_ok_iff.mp received
  rw [decode, decodeWithin_of_plain fun announced => plain (announced.trans isPrefix)] at decoded
  cases decoded
  exact parseResponse_of_isPrefix ended delimited isPrefix parsed

/-- A response cut short is never taken for a whole one: whatever is received
from a proper prefix of its wire form is what the whole response parses to. -/
theorem parseResponse_of_receive_prefix {gzip : Codec} (lawful : gzip.Lawful) {bits : Nat}
    {expectBody : Bool} {whole wire cut : Bytes} {response : Response}
    (form : WireForm gzip bits whole wire) (isPrefix : cut <+: wire) (proper : cut ≠ wire)
    (received : receive gzip bits expectBody cut = .ok response) :
    parseResponse bits whole expectBody = .ok response := by
  cases form with
  | enveloped chunks =>
      exact absurd received (not_receive_cut_envelope lawful isPrefix proper)
  | measured split plain ended promised =>
      exact parseResponse_of_receive_cut plain ended (Or.inr (by rw [promised]; rfl)) isPrefix
        received
  | chunked split body plain ended coded decoded =>
      exact parseResponse_of_receive_cut plain ended (Or.inl coded) isPrefix received

/-- A response whose body is two bytes long. -/
def twoByteResponse : Bytes :=
  utf8 "HTTP/1.1 200 OK\r\nContent-Length: 2\r\n\r\nhi".toList

/-- To a HEAD request a body that was cut off makes no difference. -/
theorem receive_cut_twoByteResponse :
    parseResponse 64 twoByteResponse false =
      .ok { status := 200
            reason := "OK".toList
            headers := [("Content-Length".toList, "2".toList)]
            body := [] } :=
  have form : WireForm sampleGzip 64 twoByteResponse twoByteResponse :=
    .measured 34 (by decide) (by decide) (by decide)
  parseResponse_of_receive_prefix lawful_sampleGzip form (List.dropLast_prefix _) (by decide)
    (receive_eq_ok_iff.mpr
      ⟨twoByteResponse.dropLast, decodeWithin_of_plain (by decide) _,
        parseResponse_eq_ok_iff.mpr ⟨34, [], by decide, rfl, by decide⟩⟩)

end Quackhole.Http
