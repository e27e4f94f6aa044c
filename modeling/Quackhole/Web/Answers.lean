import Quackhole.Dial.Client
import Quackhole.Http.Width
import Quackhole.Web.Xhr

/-!
# The answers of the two clients

What comes of a request in the core reaches DuckDB through the C ABI, or through an object of
properties, the shared buffer and a text of headers.  On the first way a string with a NUL is
lost, on the second a header of one name is.  Otherwise DuckDB is given the same on both, for
every response that has a status.
-/

namespace Quackhole.Web.Answers

open Quackhole.Word
open Quackhole.Compress (DecodeError decode)
open Quackhole.Http
open Dial (ClientConfig HttpResponse asksForRetry cText)
open Registration (Url Settings shouldIntercept)
open Xhr

/-! ## The two ways -/

/-- What `request_async` returns: an error, or what is in the envelope of a stream that ended. -/
inductive Fetched (gzip : Codec) : Except Text Bytes → Prop where
  | failed (message : Text) : Fetched gzip (.error message)
  | read {stream raw : Bytes} (ended : readToEnd stream = some raw) :
      Fetched gzip ((decode gzip raw).mapError DecodeError.message)

theorem Fetched.length_lt {gzip : Codec} {bytes : Bytes} (fetched : Fetched gzip (.ok bytes)) :
    bytes.length < usizeLimit 32 := by
  generalize result : Except.ok bytes = fetch at fetched
  cases fetched with
  | failed message => cases result
  | @read stream raw ended =>
      rw [readToEnd, Option.ite_none_right_eq_some, Option.some.injEq] at ended
      obtain ⟨short, rfl⟩ := ended
      cases decoded : decode gzip stream with
      | error reason =>
          rw [decoded] at result
          cases result
      | ok held =>
          rw [decoded] at result
          obtain rfl : bytes = held := Except.ok.inj result
          exact (length_le_of_decode short decoded).trans_lt maxResponseBytes_lt

section Bridge

variable (case : Lowercase) {Id : Type} (config : ClientConfig Id)

/-- `QuackholeClient::request`, from the result of `request_async` on. -/
def reply : Except Text Bytes → Reply
  | .error message => .failure message
  | .ok bytes => case.reply config.hidden (parseResponse 32 bytes config.expectBody)

end Bridge

/-! ## What they agree on -/

section Headers

variable (case : Lowercase)

/-- The value that was given last to a name, in whatever case. -/
def lastValue (headers : List (Text × Text)) (name : Text) : Option Text :=
  (headers.map fun header => (case.lower header.1, header.2)).reverse.lookup name

/-- DuckDB is given a response of the extension, and the object shows the same: the status, the
body, and for each name the value that was given to it last. -/
structure Agree (core : HttpResponse) (xhr : Object) : Prop where
  usable : asksForRetry core = false
  status : xhr.status = .own (some (.number (decimal core.status)))
  body : xhr.response = .own core.body
  headers : ∃ text, case.getAllResponseHeaders xhr = .own (some text) ∧
    ∀ name, (readHeaders text).lookup name = lastValue case core.headers name

/-- No header is lost on either way. -/
structure Clear (headers : List (Text × Text)) : Prop where
  names : ∀ header ∈ headers, case.lower header.1 ≠ Record.proto ∧ '\x00' ∉ header.1
  values : ∀ name value, lastValue case headers name = some value → '\x00' ∉ value

theorem cText_eq_self {text : Text} (clear : '\x00' ∉ text) : cText text = text :=
  if_neg clear

theorem notMem_cText (text : Text) : '\x00' ∉ cText text := by
  rw [cText]
  split
  · exact List.not_mem_nil
  · assumption

/-- What the C ABI leaves of a header. -/
def crossed (header : Text × Text) : Text × Text :=
  (cText header.1, cText header.2)

variable {case} {headers : List (Text × Text)}

theorem lastValue_crossed (names : ∀ header ∈ headers, '\x00' ∉ header.1) (name : Text) :
    lastValue case (headers.map crossed) name = (lastValue case headers name).map cText := by
  have lowered : (headers.map crossed).map (fun header => (case.lower header.1, header.2)) =
      (headers.map fun header => (case.lower header.1, header.2)).map
        fun header => (header.1, cText header.2) := by
    rw [List.map_map, List.map_map]
    apply List.map_congr_left
    intro header member
    rw [Function.comp_apply, Function.comp_apply, crossed, cText_eq_self (names header member)]
  rw [lastValue, lowered, ← List.map_reverse, Record.lookup_map_values, lastValue]

theorem exists_lastValue {header : Text × Text} (member : header ∈ headers) :
    ∃ value, lastValue case headers (case.lower header.1) = some value := by
  apply Record.exists_lookup_of_mem
  rw [List.map_reverse, List.mem_reverse, List.map_map]
  exact List.mem_map_of_mem member

theorem exists_of_lastValue {name value : Text} (found : lastValue case headers name = some value) :
    ∃ header ∈ headers, case.lower header.1 = name ∧ header.2 = value := by
  have member := Record.mem_of_lookup found
  rw [List.mem_reverse] at member
  obtain ⟨header, inside, same⟩ := List.mem_map.mp member
  exact ⟨header, inside, congrArg Prod.fst same, congrArg Prod.snd same⟩

/-- Headers without a NUL, and none that is called `__proto__`. -/
theorem Clear.of_forall (clear : ∀ header ∈ headers,
    case.lower header.1 ≠ Record.proto ∧ '\x00' ∉ header.1 ∧ '\x00' ∉ header.2) :
    Clear case headers := by
  refine ⟨fun header member => ⟨(clear header member).1, (clear header member).2.1⟩, ?_⟩
  intro name value found
  obtain ⟨header, member, -, rfl⟩ := exists_of_lastValue found
  exact (clear header member).2.2

/-- The values on the two ways are the same exactly when no header is lost. -/
theorem clear_iff :
    (∀ name, (if name = Record.proto then none else lastValue case headers name) =
      lastValue case (headers.map crossed) name) ↔ Clear case headers := by
  constructor
  · intro same
    -- A name with a NUL would have to be one that has crossed.
    have clearNames : ∀ header ∈ headers, '\x00' ∉ header.1 := by
      intro header member nul
      have lowered := (case.nul header.1).mpr nul
      have own : case.lower header.1 ≠ Record.proto := by
        intro equal
        rw [equal] at lowered
        exact absurd lowered (by decide)
      obtain ⟨value, found⟩ : ∃ value, lastValue case headers (case.lower header.1) = some value :=
        exists_lastValue member
      have there := same (case.lower header.1)
      rw [if_neg own, found] at there
      obtain ⟨other, crossedMember, equal, -⟩ := exists_of_lastValue there.symm
      obtain ⟨written, -, rfl⟩ := List.mem_map.mp crossedMember
      rw [← equal, case.nul] at lowered
      exact notMem_cText written.1 lowered
    have own : ∀ header ∈ headers, case.lower header.1 ≠ Record.proto := by
      intro header member equal
      obtain ⟨value, found⟩ : ∃ value, lastValue case headers (case.lower header.1) = some value :=
        exists_lastValue member
      have there := same (case.lower header.1)
      rw [if_pos equal, lastValue_crossed clearNames, found] at there
      cases there
    refine ⟨fun header member => ⟨own header member, clearNames header member⟩, ?_⟩
    intro name value found
    obtain ⟨header, member, rfl, -⟩ := exists_of_lastValue found
    have there := same (case.lower header.1)
    rw [if_neg (own header member), lastValue_crossed clearNames, found, Option.map_some,
      Option.some.injEq] at there
    exact there ▸ notMem_cText value
  · intro clear name
    rw [lastValue_crossed fun header member => (clear.names header member).2]
    cases found : lastValue case headers name with
    | none => exact ite_self none
    | some value =>
        obtain ⟨header, member, rfl, -⟩ := exists_of_lastValue found
        rw [if_neg (clear.names header member).1, Option.map_some,
          cText_eq_self (clear.values _ _ found)]

/-- Where the object shows the response, the two agree if the headers do. -/
theorem agree_buildResponse_iff {hidden : Char → Bool} {xhr : Object} {response : Response}
    (shows : case.Shows hidden xhr (.ok response)) :
    Agree case (Dial.buildResponse response) xhr ↔ Clear case response.headers := by
  obtain ⟨status, body, text, shown, -, values⟩ := shows
  rw [← clear_iff]
  constructor
  · intro agree name
    obtain ⟨other, also, read⟩ := agree.headers
    rw [shown, Reading.own.injEq, Option.some.injEq] at also
    rw [← also] at read
    exact (values name).symm.trans (read name)
  · intro same
    exact ⟨rfl, status, body, text, shown, fun name => (values name).trans (same name)⟩

end Headers

/-! ## From the core to DuckDB -/

/-- DuckDB is told to try again exactly when there is no response with a status. -/
theorem asksForRetry_roundTrip (result : Except Text Response) :
    asksForRetry (Dial.roundTrip result) = false ↔
      ∃ response, result = .ok response ∧ response.status ≠ 0 ∧
        Dial.roundTrip result = Dial.buildResponse response := by
  cases result with
  | error message =>
      rw [Dial.asksForRetry_error]
      constructor
      · rintro ⟨⟩
      · rintro ⟨_, ⟨⟩, _⟩
  | ok response =>
      rw [Dial.roundTrip]
      by_cases unreadable : response.status = 0
      · rw [if_pos unreadable]
        constructor
        · intro usable
          exact absurd usable (by decide)
        · rintro ⟨_, ⟨⟩, readable, _⟩
          exact absurd unreadable readable
      · rw [if_neg unreadable]
        exact ⟨fun _ => ⟨response, rfl, unreadable, rfl⟩, fun _ => rfl⟩

/-- The response of the extension is the one of the browser. -/
theorem reply_of_parse {case : Lowercase} {Id : Type} {config : ClientConfig Id}
    (wide : config.bits = 64) {result : Except Text Bytes} (fetched : Fetched config.gzip result)
    {response : Response} (parsed : config.parse result = .ok response) :
    reply case config result = .response (case.jsResponse response) response.body ∧
      ∀ header ∈ response.headers, Plain header := by
  cases result with
  | error message => cases parsed
  | ok bytes =>
      rw [ClientConfig.parse, wide] at parsed
      cases read : parseResponse 64 bytes config.expectBody with
      | error reason =>
          rw [read] at parsed
          cases parsed
      | ok accepted =>
          rw [read] at parsed
          obtain rfl : accepted = response := Except.ok.inj parsed
          have narrow := ((parseResponse_wide_iff (by decide) fetched.length_lt).mp read).1
          constructor
          · rw [reply, narrow, Lowercase.reply]
          · exact plain_of_parseResponse narrow

theorem fetched_sampleBytes : Fetched Dial.samplePost.gzip (.ok sampleBytes) := by
  have decoded : (decode Dial.samplePost.gzip sampleBytes).mapError DecodeError.message =
      .ok sampleBytes := by
    rw [decode, Compress.decodeWithin_of_plain (by decide +kernel)]
    rfl
  rw [← decoded]
  exact Fetched.read (if_pos (by decide +kernel))

end Quackhole.Web.Answers
