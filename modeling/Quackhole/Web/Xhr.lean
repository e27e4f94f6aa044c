import Quackhole.Http.Response
import Quackhole.Web.Protocol
import Quackhole.Web.Registration
import Quackhole.Word.Lowercase
import Quackhole.Word.Record

/-!
# The request object of the DuckDB worker

`QuackholeXHR` stands in for the native `XMLHttpRequest`: a request for a host that is ours
blocks in `roundTrip`, and any other goes to the native object untouched.  What it shows
afterwards is what the peer sent, through the parser, the bridge and the shared buffer, or a
502 with the reason as its body.
-/

namespace Quackhole.Web.Xhr

open Quackhole.Word
open Quackhole.Compress (crlf crlf_ne_nil)
open Quackhole.Http (Response ParseError parseResponse parseHeader parseHead parseResponse_eq_ok_iff)
open Registration (Url Request Settings shouldIntercept)

/-! ## The object -/

/-- What `roundTrip` returns. -/
structure Answer where
  status : Option Json
  headers : Option Json
  body : Bytes

/-- An argument of `open` after the URL. -/
inductive Argument where
  | undefined
  | flag (value : Bool)
  | text (value : Text)
deriving DecidableEq

/-- A call of the object. -/
inductive Call where
  /-- `open`, with the arguments after the URL. -/
  | start (method url : Text) (more : List Argument)
  | setRequestHeader (name value : Text)
  | send (body : Option Bytes)

/-- The call that the native object gets: `open` hands on three arguments, whatever it was
given. -/
def Call.passed : Call → Call
  | .start method url more => .start method url [more.headD .undefined]
  | call => call

/-- `__qh`. -/
structure Intercepted where
  method : Text
  url : Text
  /-- The headers that are set, until `send` assigns those of the answer. -/
  headers : Option Json
  /-- The status and the body it was assigned when it was `done`. -/
  done : Option (Option Json × Bytes)

structure Object where
  qh : Option Intercepted := none
  /-- The calls that were passed on. -/
  native : List Call := []
  /-- The requests `roundTrip` was called with. -/
  requests : List Request := []

/-- A property of the object, or of the native one. -/
inductive Reading (α : Type) where
  | own (value : α)
  | native

/-- `String(err && err.message ? err.message : err)` of an error with this message. -/
def describe (message : Text) : Text :=
  if message.isEmpty then "Error".toList else message

/-- What `send` assigns when `roundTrip` throws. -/
def refused (message : Text) : Answer where
  status := some (.number "502".toList)
  headers := some (.object [])
  body := utf8 (describe message)

/-- What `send` assigns. -/
def settled : Except Text Answer → Answer
  | .ok answer => answer
  | .error message => refused message

/-- A value in a template literal, where it is no array and no object. -/
def template : Json → Text
  | .string text => text
  | value => value.stringify

/-- `headers[name] = value`.  The headers that the bridge answers with are an object, too. -/
def assigned : Option Json → Text × Text → Option Json
  | some (.object members), header =>
      some (.object (Record.set members (header.1, .string header.2)))
  | other, _ => other

/-- `Object.entries` of the headers, whose values are texts. -/
def posted : Option Json → List (Text × Text)
  | some (.object members) => (Record.entries members).map fun member => (member.1, template member.2)
  | _ => []

namespace Intercepted

/-- What `open` makes of a URL that is ours. -/
def opened (method url : Text) : Intercepted where
  method := method
  url := url
  headers := some (.object [])
  done := none

/-- The request as it is handed to `roundTrip`. -/
def request (qh : Intercepted) (body : Option Bytes) : Request where
  method := qh.method
  url := qh.url
  headers := posted qh.headers
  body := body

/-- `Object.assign`: the headers of the answer take the place of those that were set. -/
def settle (qh : Intercepted) (answer : Answer) : Intercepted :=
  { qh with headers := answer.headers, done := some (answer.status, answer.body) }

/-- What is shown once it is `done`. -/
def answer (qh : Intercepted) : Option Answer :=
  qh.done.map fun done => ⟨done.1, qh.headers, done.2⟩

end Intercepted

section Calls

-- What `roundTrip` comes to, after all the requests it was called with.
variable (resolve : Text → Option Url) (settings : Settings)
  (roundTrip : List Request → Except Text Answer)

namespace Object

/-- One call. -/
def call (xhr : Object) : Call → Object
  | .start method url more =>
      if shouldIntercept resolve settings url then { xhr with qh := some (.opened method url) }
      else { xhr with qh := none, native := xhr.native ++ [Call.passed (.start method url more)] }
  | .setRequestHeader name value =>
      match xhr.qh with
      | none => { xhr with native := xhr.native ++ [.setRequestHeader name value] }
      | some qh => { xhr with qh := some { qh with headers := assigned qh.headers (name, value) } }
  | .send body =>
      match xhr.qh with
      | none => { xhr with native := xhr.native ++ [.send body] }
      | some qh =>
          let requests := xhr.requests ++ [qh.request body]
          { xhr with
            qh := some (qh.settle (settled (roundTrip requests)))
            requests := requests }

/-- One call after the other. -/
def run (xhr : Object) (calls : List Call) : Object :=
  calls.foldl (call resolve settings roundTrip) xhr

/-- What was answered, if `send` has returned. -/
def answer (xhr : Object) : Option Answer :=
  xhr.qh.bind Intercepted.answer

/-- The getter of a property of an answer. -/
def reading {α : Type} (xhr : Object) (property : Answer → α) : Reading α :=
  match xhr.answer with
  | some answer => .own (property answer)
  | none => .native

/-- `get status`. -/
def status (xhr : Object) : Reading (Option Json) :=
  xhr.reading Answer.status

/-- `get response`: a copy of the body. -/
def response (xhr : Object) : Reading Bytes :=
  xhr.reading Answer.body

end Object

end Calls

/-- Rust and JavaScript put a text in lower case by the same tables. -/
abbrev Lowercase := CaseMapping

namespace Lowercase

variable (case : Lowercase)

/-! A colon, a NUL and the end of a line are in the lower case of a text where they are in the
text. -/

theorem colon (text : Text) (member : ':' ∈ case.lower text) : ':' ∈ text :=
  case.mem_of_mem_lower (by decide) (by decide) member

theorem nul (text : Text) : '\x00' ∈ case.lower text ↔ '\x00' ∈ text :=
  ⟨case.mem_of_mem_lower (by decide) (by decide),
    case.mem_lowerFrom (case.isLower_of_toLower (by decide) rfl)⟩

theorem line (text : Text) (broken : crlf <:+: case.lower text) : crlf <:+: text :=
  case.infix_of_infix_lowerFrom (by decide) (by decide) (by decide) (by decide) broken

/-- The lines of `getAllResponseHeaders`. -/
def headerText (members : List (Text × Json)) : Text :=
  members.flatMap fun member => case.lower member.1 ++ ": ".toList ++ template member.2 ++ crlf

/-- `getAllResponseHeaders`.  `Object.entries` raises on what is absent. -/
def getAllResponseHeaders (xhr : Object) : Reading (Option Text) :=
  xhr.reading fun answer =>
    match answer.headers with
    | some (.object members) => some (case.headerText (Record.entries members))
    | _ => none

/-- `js_response`: the headers become the properties of an object. -/
def jsResponse (response : Response) : Head where
  status := response.status
  headers := Record.entries (Record.setAll []
    (response.headers.map fun header => (case.lower header.1, header.2)))
  distinct := Record.nodup_entries (Record.nodup_setAll_nil _)

/-- What the bridge answers with, once the peer's bytes are there. -/
def reply (hidden : Char → Bool) : Except ParseError Response → Reply
  | .ok response => .response (case.jsResponse response) response.body
  | .error reason => .failure (reason.message hidden)

end Lowercase

/-- What `roundTrip` throws, where the text of an error of `JSON.parse` is the platform's. -/
def exchange (unparsable : Text) (timeoutMs : Nat) : Outcome → Except Text Answer
  | .returned status headers body => .ok ⟨status, headers, body⟩
  | .bridgeError message => .error message
  | .unparsable => .error unparsable
  | .noMetadata => .error "bridge sent a response with no metadata chunk".toList
  | .deadline =>
      .error ("quackhole bridge did not respond within ".toList ++ decimal (timeoutMs + 5000) ++
        "ms".toList)

/-! ## What a reader finds in the text of the headers -/

/-- A reader of the text: one line a header, which is cut behind the colon. -/
def readHeaders (text : Text) : List (Text × Text) :=
  (splitWord crlf text).filterMap fun line =>
    (splitOnce ':' line).map fun header => (header.1, header.2.drop 1)

/-- A header that stands in one line. -/
structure Plain (header : Text × Text) : Prop where
  name : ':' ∉ header.1
  nameLine : ¬ crlf <:+: header.1
  valueLine : ¬ crlf <:+: header.2

/-- The line of a header. -/
def headerLine (header : Text × Text) : Text :=
  header.1 ++ ':' :: ' ' :: header.2

theorem Plain.unbroken {header : Text × Text} (plain : Plain header) :
    ¬ crlf <:+: headerLine header := by
  intro inside
  rcases infix_pair_append_cons (by decide) (by decide) inside with name | rest
  · exact plain.nameLine name
  · have blank : crlf <:+: [] ++ ' ' :: header.2 := rest
    rcases infix_pair_append_cons (by decide) (by decide) blank with empty | value
    · exact crlf_ne_nil (List.infix_nil.mp empty)
    · exact plain.valueLine value

/-- Lines that were written are read. -/
theorem readHeaders_lines {headers : List (Text × Text)} (plain : ∀ header ∈ headers, Plain header) :
    readHeaders (headers.flatMap fun header => headerLine header ++ crlf) = headers := by
  have lines : (headers.flatMap fun header => headerLine header ++ crlf) =
      (headers.map headerLine).flatMap (· ++ crlf) ++ [] := by
    rw [List.append_nil, List.flatMap_map]
  have absent : ∀ line ∈ headers.map headerLine, ¬ crlf <:+: line := by
    intro line member
    obtain ⟨header, inside, rfl⟩ := List.mem_map.mp member
    exact (plain header inside).unbroken
  have split : splitWord crlf ((headers.map headerLine).flatMap (· ++ crlf) ++ []) =
      headers.map headerLine ++ [[]] := splitWord_pair_lines (by decide) [] absent
  have read : ∀ header ∈ headers, ((fun line => (splitOnce ':' line).map fun header =>
      (header.1, header.2.drop 1)) ∘ headerLine) header = some header := by
    intro header member
    rw [Function.comp_apply, headerLine, splitOnce_append (plain header member).name]
    rfl
  rw [readHeaders, lines, split, List.filterMap_append, List.filterMap_map,
    List.filterMap_congr read, List.filterMap_some]
  exact List.append_nil headers

/-! ## What the parser leaves in a header -/

theorem trim_isInfix (text : Text) : trim text <:+: text :=
  (List.rdropWhile_prefix isWhitespace _).isInfix.trans
    (List.dropWhile_suffix isWhitespace).isInfix

/-- A header that was parsed from a line stands in one line. -/
theorem plain_of_parseHeader {line : Text} (whole : ¬ crlf <:+: line) {header : Text × Text}
    (parsed : parseHeader line = some header) : Plain header := by
  rw [parseHeader, splitOnce] at parsed
  split at parsed
  · obtain rfl := Option.some.inj parsed
    constructor
    · intro member
      have kept := List.mem_takeWhile_imp (mem_of_mem_trim member)
      simp at kept
    · intro inside
      apply whole
      exact (inside.trans (trim_isInfix _)).trans (List.takeWhile_prefix _).isInfix
    · intro inside
      apply whole
      exact ((inside.trans (trim_isInfix _)).trans (List.tail_suffix _).isInfix).trans
        (List.dropWhile_suffix _).isInfix
  · cases parsed

/-- So do the headers of a response. -/
theorem plain_of_parseResponse {bits : Nat} {bytes : Bytes} {expectBody : Bool}
    {response : Response} (parsed : parseResponse bits bytes expectBody = .ok response) :
    ∀ header ∈ response.headers, Plain header := by
  obtain ⟨split, body, -, -, rfl⟩ := parseResponse_eq_ok_iff.mp parsed
  intro header member
  obtain ⟨line, inside, read⟩ := List.mem_filterMap.mp member
  exact plain_of_parseHeader
    (not_infix_of_mem_splitWord crlf_ne_nil (List.mem_of_mem_tail inside)) read

/-! ## What the object shows -/

namespace Lowercase

variable (case : Lowercase)

/-- The headers of a response, by their names in lower case. -/
def lowered (response : Response) : List (Text × Text) :=
  response.headers.map fun header => (case.lower header.1, header.2)

/-- A header of the object is one of the response. -/
theorem mem_lowered_of_jsResponse {response : Response} {header : Text × Text}
    (member : header ∈ (case.jsResponse response).headers) : header ∈ case.lowered response := by
  have listed := (Record.entries_perm _).mem_iff.mp member
  rcases Record.mem_setAll listed with old | given
  · exact absurd old List.not_mem_nil
  · exact given

/-- The names of the object are in lower case. -/
theorem lower_of_jsResponse {response : Response} {header : Text × Text}
    (member : header ∈ (case.jsResponse response).headers) :
    case.lower header.1 = header.1 := by
  obtain ⟨written, -, rfl⟩ := List.mem_map.mp (case.mem_lowered_of_jsResponse member)
  exact case.idempotent written.1

theorem plain_of_jsResponse {response : Response} (plain : ∀ header ∈ response.headers, Plain header)
    {header : Text × Text} (member : header ∈ (case.jsResponse response).headers) :
    Plain header := by
  obtain ⟨written, inside, rfl⟩ := List.mem_map.mp (case.mem_lowered_of_jsResponse member)
  have whole := plain written inside
  exact ⟨fun colon => whole.name (case.colon _ colon),
    fun line => whole.nameLine (case.line _ line), whole.valueLine⟩

/-- The header with this name in the response, which counts if it is the last. -/
theorem lookup_jsResponse (response : Response) (name : Text) :
    (case.jsResponse response).headers.lookup name =
      if name = Record.proto then none else (case.lowered response).reverse.lookup name := by
  have listed : (case.jsResponse response).headers.lookup name =
      (Record.setAll [] (case.lowered response)).lookup name :=
    Record.lookup_entries (Record.nodup_setAll_nil _) name
  rw [listed]
  split
  · rename_i ignored
    rw [ignored]
    exact Record.lookup_setAll_proto rfl _
  · rename_i own
    rw [Record.lookup_setAll _ _ own]
    exact Option.or_none

/-- Reading the text of the headers gives them back. -/
theorem readHeaders_headerText {response : Response}
    (plain : ∀ header ∈ response.headers, Plain header) :
    readHeaders (case.headerText (Record.entries ((case.jsResponse response).headers.map
        fun header => (header.1, Json.string header.2)))) =
      Record.entries (case.jsResponse response).headers := by
  have same : ∀ header ∈ Record.entries (case.jsResponse response).headers,
      header ∈ (case.jsResponse response).headers := fun _ member =>
    (Record.entries_perm _).mem_iff.mp member
  have written : case.headerText (Record.entries ((case.jsResponse response).headers.map
        fun header => (header.1, Json.string header.2))) =
      (Record.entries (case.jsResponse response).headers).flatMap
        fun header => headerLine header ++ crlf := by
    rw [Record.entries_map, headerText, List.flatMap_map]
    apply List.flatMap_congr
    intro header member
    rw [case.lower_of_jsResponse (same header member), headerLine]
    simp [template]
  rw [written, readHeaders_lines fun header member =>
    case.plain_of_jsResponse plain (same header member)]

/-- The object shows what the peer sent: the status and the body as they are, and each header
with the last value it was sent with, by its name in lower case.  If what the peer sent is no
response, it shows a 502 with the reason. -/
def Shows (hidden : Char → Bool) (xhr : Object) : Except ParseError Response → Prop
  | .ok response =>
      xhr.status = .own (some (.number (decimal response.status))) ∧
        xhr.response = .own response.body ∧
        ∃ text, case.getAllResponseHeaders xhr = .own (some text) ∧
          ((readHeaders text).map Prod.fst).Nodup ∧
          ∀ name, (readHeaders text).lookup name =
            if name = Record.proto then none else (case.lowered response).reverse.lookup name
  | .error reason =>
      xhr.status = .own (some (.number "502".toList)) ∧
        xhr.response = .own (utf8 (reason.message hidden)) ∧
        case.getAllResponseHeaders xhr = .own (some [])

end Lowercase

/-! ## Calls between one `open` and the next -/

/-- Not `open`. -/
def Call.onward : Call → Bool
  | .start _ _ _ => false
  | _ => true

/-- An `open` and the calls up to the next one. -/
structure Segment where
  method : Text
  url : Text
  more : List Argument
  rest : List Call
  onward : ∀ call ∈ rest, call.onward = true

def Segment.calls (segment : Segment) : List Call :=
  .start segment.method segment.url segment.more :: segment.rest

theorem Call.passed_of_onward {call : Call} (onward : call.onward = true) : call.passed = call := by
  cases call with
  | start method url more => cases onward
  | setRequestHeader name value | send body => rfl

section Runs

variable {resolve : Text → Option Url} {settings : Settings}
  {roundTrip : List Request → Except Text Answer}

section Sent

variable (roundTrip)

/-- The requests that are sent after earlier ones.  The answer to one is what the headers
are, until more are set. -/
def Intercepted.requests (earlier : List Request) (qh : Intercepted) : List Call → List Request
  | [] => []
  | .start _ _ _ :: calls => requests earlier qh calls
  | .setRequestHeader name value :: calls =>
      requests earlier { qh with headers := assigned qh.headers (name, value) } calls
  | .send body :: calls =>
      qh.request body ::
        requests (earlier ++ [qh.request body])
          (qh.settle (settled (roundTrip (earlier ++ [qh.request body])))) calls

/-- The requests of a segment, if it is intercepted. -/
def Segment.requests (earlier : List Request) (segment : Segment) : List Request :=
  (Intercepted.opened segment.method segment.url).requests roundTrip earlier segment.rest

/-- The requests of some segments that are intercepted. -/
def requestsOf (earlier : List Request) (segments : List Segment) : List Request :=
  segments.foldl (fun requests segment => requests ++ segment.requests roundTrip requests) earlier

end Sent

namespace Object

theorem run_append (xhr : Object) (first second : List Call) :
    xhr.run resolve settings roundTrip (first ++ second) =
      (xhr.run resolve settings roundTrip first).run resolve settings roundTrip second :=
  List.foldl_append

/-- Until the next `open`, nothing of an intercepted request reaches the native object, and
each request is sent with the headers there are. -/
theorem run_intercepted {xhr : Object} {qh : Intercepted} (ours : xhr.qh = some qh)
    {calls : List Call} (onward : ∀ call ∈ calls, call.onward = true) :
    ∃ later, xhr.run resolve settings roundTrip calls =
      { qh := some later
        native := xhr.native
        requests := xhr.requests ++ qh.requests roundTrip xhr.requests calls } := by
  induction calls generalizing xhr qh with
  | nil =>
      refine ⟨qh, ?_⟩
      obtain ⟨_, native, requests⟩ := xhr
      obtain rfl := ours
      rw [Intercepted.requests, List.append_nil]
      rfl
  | cons call calls ih =>
      have rest : ∀ call ∈ calls, call.onward = true := fun call member =>
        onward call (List.mem_cons_of_mem _ member)
      have unfolded : xhr.run resolve settings roundTrip (call :: calls) =
          (xhr.call resolve settings roundTrip call).run resolve settings roundTrip calls := rfl
      cases call with
      | start method url more => exact absurd (onward _ List.mem_cons_self) Bool.false_ne_true
      | setRequestHeader name value =>
          have step : xhr.call resolve settings roundTrip (.setRequestHeader name value) =
              { xhr with
                qh := some { qh with headers := assigned qh.headers (name, value) } } := by
            simp only [Object.call, ours]
          obtain ⟨later, reached⟩ := @ih { xhr with
            qh := some { qh with headers := assigned qh.headers (name, value) } } _ rfl rest
          exact ⟨later, by rw [unfolded, step, reached]; rfl⟩
      | send body =>
          let requests := xhr.requests ++ [qh.request body]
          have step : xhr.call resolve settings roundTrip (.send body) =
              { xhr with
                qh := some (qh.settle (settled (roundTrip requests)))
                requests := requests } := by
            simp only [Object.call, ours, requests]
          obtain ⟨later, reached⟩ := @ih { xhr with
            qh := some (qh.settle (settled (roundTrip requests)))
            requests := requests } _ rfl rest
          refine ⟨later, ?_⟩
          rw [unfolded, step, reached, List.append_assoc]
          rfl

/-- Until the next `open`, everything else reaches the native object, and `roundTrip` is not
called. -/
theorem run_native {xhr : Object} (theirs : xhr.qh = none) {calls : List Call}
    (onward : ∀ call ∈ calls, call.onward = true) :
    xhr.run resolve settings roundTrip calls = { xhr with native := xhr.native ++ calls } := by
  induction calls generalizing xhr with
  | nil => simp [run]
  | cons call calls ih =>
      have later : ∀ call ∈ calls, call.onward = true := fun call member =>
        onward call (List.mem_cons_of_mem _ member)
      have step : xhr.call resolve settings roundTrip call =
          { xhr with native := xhr.native ++ [call] } := by
        cases call with
        | start method url more =>
            exact absurd (onward _ List.mem_cons_self) Bool.false_ne_true
        | setRequestHeader name value => simp only [Object.call, theirs]
        | send body => simp only [Object.call, theirs]
      have reached := @ih { xhr with native := xhr.native ++ [call] } theirs later
      calc
        xhr.run resolve settings roundTrip (call :: calls) =
            (xhr.call resolve settings roundTrip call).run resolve settings roundTrip calls := rfl
        _ = { xhr with native := xhr.native ++ [call] ++ calls } := by rw [step, reached]
        _ = { xhr with native := xhr.native ++ call :: calls } := by simp

/-- A segment goes one way or the other, as a whole. -/
theorem run_segment (xhr : Object) (segment : Segment) :
    ((xhr.run resolve settings roundTrip segment.calls).native = xhr.native ++
        if shouldIntercept resolve settings segment.url then []
        else segment.calls.map Call.passed) ∧
      (xhr.run resolve settings roundTrip segment.calls).requests = xhr.requests ++
        if shouldIntercept resolve settings segment.url then
          segment.requests roundTrip xhr.requests
        else [] := by
  have unfolded : xhr.run resolve settings roundTrip segment.calls =
      (xhr.call resolve settings roundTrip
        (.start segment.method segment.url segment.more)).run resolve settings roundTrip
          segment.rest := rfl
  rw [unfolded, Object.call]
  split
  · obtain ⟨later, reached⟩ := @run_intercepted resolve settings roundTrip
      { xhr with qh := some (.opened segment.method segment.url) } _ rfl _ segment.onward
    rw [reached]
    exact ⟨(List.append_nil _).symm, rfl⟩
  · have reached := @run_native resolve settings roundTrip { xhr with
      qh := none
      native := xhr.native ++ [Call.passed (.start segment.method segment.url segment.more)] } rfl _
        segment.onward
    have rest : segment.rest.map Call.passed = segment.rest :=
      (List.map_congr_left fun call member => Call.passed_of_onward (segment.onward call member)).trans
        (List.map_id _)
    rw [reached, Segment.calls, List.map_cons, rest]
    exact ⟨List.append_assoc _ _ _, (List.append_nil _).symm⟩

theorem run_segments (xhr : Object) (segments : List Segment) :
    (xhr.run resolve settings roundTrip (segments.flatMap Segment.calls)).native =
        xhr.native ++ ((segments.filter fun segment =>
          !shouldIntercept resolve settings segment.url).flatMap Segment.calls).map Call.passed ∧
      (xhr.run resolve settings roundTrip (segments.flatMap Segment.calls)).requests =
        requestsOf roundTrip xhr.requests (segments.filter fun segment =>
          shouldIntercept resolve settings segment.url) := by
  induction segments generalizing xhr with
  | nil => exact ⟨(List.append_nil _).symm, rfl⟩
  | cons segment segments ih =>
      obtain ⟨native, requests⟩ := @run_segment resolve settings roundTrip xhr segment
      obtain ⟨laterNative, laterRequests⟩ := ih (xhr.run resolve settings roundTrip segment.calls)
      rw [List.flatMap_cons, run_append, laterNative, laterRequests, native, requests]
      by_cases ours : shouldIntercept resolve settings segment.url
      · simp [ours, requestsOf]
      · simp [ours]

end Object

/-! ## The headers of a request -/

theorem assigned_map (object : List (Text × Text)) (header : Text × Text) :
    assigned (some (headersJson object)) header = some (headersJson (Record.set object header)) := by
  have same : ∀ object : List (Text × Text),
      Record.put header.1 (Json.string header.2) (object.map fun entry => (entry.1, .string entry.2)) =
        (Record.put header.1 header.2 object).map fun entry => (entry.1, .string entry.2) := by
    intro object
    induction object with
    | nil => rfl
    | cons entry object ih =>
        rw [List.map_cons, Record.put, Record.put]
        split_ifs
        · rfl
        · rw [ih]
          rfl
  rw [headersJson, headersJson, assigned, Record.set, Record.set]
  split_ifs
  · rfl
  · rw [same]

/-- The texts of an object, as they are posted. -/
theorem posted_headersJson (object : List (Text × Text)) :
    posted (some (headersJson object)) = Record.entries object := by
  rw [headersJson, posted, Record.entries_map, List.map_map]
  exact (List.map_congr_left fun _ _ => rfl).trans (List.map_id _)

/-- Setting headers one after the other, and sending. -/
theorem Intercepted.requests_set {qh : Intercepted} {object : List (Text × Text)}
    (own : qh.headers = some (headersJson object)) (earlier : List Request)
    (headers : List (Text × Text)) (body : Option Bytes) (calls : List Call) :
    ∃ rest, qh.requests roundTrip earlier
        ((headers.map fun header => Call.setRequestHeader header.1 header.2) ++ .send body :: calls) =
      { method := qh.method
        url := qh.url
        headers := Record.entries (Record.setAll object headers)
        body := body } :: rest ∧ (calls = [] → rest = []) := by
  induction headers generalizing qh object with
  | nil =>
      have sent : qh.request body =
          { method := qh.method, url := qh.url, headers := Record.entries object, body } := by
        rw [Intercepted.request, own, posted_headersJson]
      refine ⟨Intercepted.requests roundTrip (earlier ++ [qh.request body])
        (qh.settle (settled (roundTrip (earlier ++ [qh.request body])))) calls,
        congrArg (· :: _) sent, ?_⟩
      rintro rfl
      rfl
  | cons header headers ih =>
      have next : ({ qh with headers := assigned qh.headers header } : Intercepted).headers =
          some (headersJson (Record.set object header)) := by
        rw [← assigned_map, ← own]
      exact ih next

/-- Over the whole life of an object, the native one is given exactly the calls of the segments
that are not ours, in order, with whatever came before the first `open`, each unchanged but for
the arguments of `open` after the third; and `roundTrip` exactly the requests of the others, the
first after an `open` with the headers that were set since. -/
theorem split_of_run (first : List Call) (onward : ∀ call ∈ first, call.onward = true)
    (segments : List Segment) :
    let xhr := Object.run resolve settings roundTrip {} (first ++ segments.flatMap Segment.calls)
    xhr.native = first ++ ((segments.filter fun segment =>
        !shouldIntercept resolve settings segment.url).flatMap Segment.calls).map Call.passed ∧
      xhr.requests = requestsOf roundTrip [] (segments.filter fun segment =>
        shouldIntercept resolve settings segment.url) ∧
      ∀ (segment : Segment) (headers : List (Text × Text)) (body : Option Bytes) (calls : List Call)
        (earlier : List Request), segment.rest =
          (headers.map fun header => Call.setRequestHeader header.1 header.2) ++
            .send body :: calls →
        ∃ rest, segment.requests roundTrip earlier =
          { method := segment.method
            url := segment.url
            headers := Record.entries (Record.setAll [] headers)
            body := body } :: rest ∧ (calls = [] → rest = []) := by
  have begun : Object.run resolve settings roundTrip {} first = { native := first } :=
    Object.run_native rfl onward
  intro xhr
  have split : xhr = Object.run resolve settings roundTrip { native := first }
      (segments.flatMap Segment.calls) := by
    rw [← begun]
    exact Object.run_append _ _ _
  obtain ⟨native, requests⟩ := @Object.run_segments resolve settings roundTrip
    { native := first } segments
  refine ⟨split ▸ native, split ▸ requests, ?_⟩
  intro segment headers body calls earlier sets
  rw [Segment.requests, sets]
  exact Intercepted.requests_set rfl earlier headers body calls

/-- A request of DuckDB. -/
def sampleSegment : Segment where
  method := "POST".toList
  url := "https://peer.iroh:9494/quack".toList
  more := [.flag false]
  rest := [.setRequestHeader "Content-Type".toList "application/octet-stream".toList]
  onward := by decide

/-- The platform's URL parser, on the URL of the request. -/
def sampleResolve (url : Text) : Option Url :=
  if url = sampleSegment.url then
    some ⟨"peer.iroh".toList, "9494".toList, "/quack".toList, []⟩
  else none

/-- The object is reused for a request of another host. -/
theorem split_of_run_sample :
    let other : Segment :=
      ⟨"GET".toList, "https://extensions.duckdb.org/".toList, [.flag false], [.send none], by decide⟩
    let xhr := Object.run sampleResolve {} (fun _ => .error []) {}
      ([] ++ [sampleSegment, other].flatMap Segment.calls)
    xhr.native = [] ++ (([sampleSegment, other].filter fun segment =>
        !shouldIntercept sampleResolve {} segment.url).flatMap Segment.calls).map Call.passed ∧
      xhr.requests = requestsOf (fun _ => .error []) [] ([sampleSegment, other].filter fun segment =>
        shouldIntercept sampleResolve {} segment.url) :=
  have split := split_of_run [] (fun _ member => absurd member List.not_mem_nil) _
  ⟨split.1, split.2.1⟩

/-- Once `send` has returned, the object has the answer. -/
theorem answer_of_send {segment : Segment}
    (ours : shouldIntercept resolve settings segment.url = true) (xhr : Object)
    (body : Option Bytes) :
    let sent := xhr.run resolve settings roundTrip (segment.calls ++ [.send body])
    sent.answer = some (settled (roundTrip sent.requests)) := by
  intro sent
  have started : sent = (({ xhr with
      qh := some (.opened segment.method segment.url) } : Object).run resolve settings roundTrip
        segment.rest).call resolve settings roundTrip (.send body) := by
    have begun : xhr.call resolve settings roundTrip
        (.start segment.method segment.url segment.more) =
          { xhr with qh := some (.opened segment.method segment.url) } := if_pos ours
    rw [← begun]
    exact Object.run_append xhr segment.calls [.send body]
  obtain ⟨later, reached⟩ := @Object.run_intercepted resolve settings roundTrip
    { xhr with qh := some (.opened segment.method segment.url) } _ rfl _ segment.onward
  rw [started, reached]
  rfl

/-! ## From the peer to the object -/

/-- Two calls that hear the same come to the same. -/
theorem comesTo_unique {heard : Heard} {chunks : List Chunk} {first second : Option Outcome}
    (one : heard.ComesTo chunks first) (other : heard.ComesTo chunks second) : first = second := by
  induction chunks generalizing heard with
  | nil => exact Eq.trans one (Eq.symm other)
  | cons chunk chunks ih =>
      rw [Heard.ComesTo] at one other
      cases reaction : heard.react chunk with
      | inl next =>
          rw [reaction] at one other
          exact ih one other
      | inr outcome =>
          rw [reaction] at one other
          exact one.1.trans other.1.symm

/-- What does not fit in the data region comes to an error, if to anything. -/
theorem failure_of_not_fits {limit : Nat} {rangeError : Text} {reply : Reply} {outcome : Outcome}
    (long : ¬ reply.Fits limit)
    (said : (reply.produced limit rangeError).map Reply.outcome = some outcome) :
    ∃ message, outcome = .bridgeError message := by
  cases reply with
  | failure message =>
      have exceeds : ¬ (failChunk message).bytes.length ≤ limit := long
      rw [Reply.produced, if_neg exceeds] at said
      cases said
  | response head body =>
      have exceeds : ¬ (metaChunk head).bytes.length ≤ limit := long
      rw [Reply.produced, if_neg exceeds] at said
      split at said
      · exact ⟨_, (Option.some.inj said).symm⟩
      · cases said

/-- The reason of a failure reads the same after the bridge. -/
theorem outcome_of_error (case : Lowercase) (hidden : Char → Bool) (reason : ParseError) :
    (case.reply hidden (.error reason)).outcome = .bridgeError (reason.message hidden) ∧
      describe (reason.message hidden) = reason.message hidden := by
  cases reason <;> exact ⟨rfl, rfl⟩

variable {case : Lowercase} {hidden : Char → Bool} {unparsable : Text} {timeoutMs : Nat}

theorem shows_of_error {xhr : Object} {reason : ParseError}
    (answered : xhr.answer = some (refused (reason.message hidden))) :
    case.Shows hidden xhr (.error reason) := by
  have described := (outcome_of_error case hidden reason).2
  refine ⟨?_, ?_, ?_⟩
  · rw [Object.status, Object.reading, answered]
    rfl
  · rw [Object.response, Object.reading, answered]
    exact congrArg (fun text => Reading.own (utf8 text)) described
  · rw [Lowercase.getAllResponseHeaders, Object.reading, answered]
    rfl

theorem shows_of_ok {xhr : Object} {response : Response}
    (plain : ∀ header ∈ response.headers, Plain header)
    (answered : xhr.answer = some
      { status := some (.number (decimal response.status))
        headers := some (headersJson (case.jsResponse response).headers)
        body := response.body }) :
    case.Shows hidden xhr (.ok response) := by
  have read := case.readHeaders_headerText plain
  have distinct := (case.jsResponse response).distinct
  refine ⟨?_, ?_, case.headerText (Record.entries ((case.jsResponse response).headers.map
    fun header => (header.1, Json.string header.2))), ?_, ?_, ?_⟩
  · rw [Object.status, Object.reading, answered]
  · rw [Object.response, Object.reading, answered]
  · rw [Lowercase.getAllResponseHeaders, Object.reading, answered]
    rfl
  · rw [read]
    exact Record.nodup_entries distinct
  · intro name
    rw [read, Record.lookup_entries distinct, case.lookup_jsResponse]

/-- A request whose `roundTrip` hears a reply that fits in the data region is answered with
it. -/
theorem answer_of_fits {limit : Nat} (positive : 0 < limit) {rangeError : Text} {segment : Segment}
    (ours : shouldIntercept resolve settings segment.url = true) (before : Object)
    (body : Option Bytes) {reply : Reply} (fits : reply.Fits limit) {outcome : Outcome}
    (heard : Heard.nothing.ComesTo (sendable limit rangeError (reply.chunks limit)) (some outcome))
    (came : roundTrip (before.run resolve settings roundTrip
      (segment.calls ++ [.send body])).requests = exchange unparsable timeoutMs outcome) :
    (before.run resolve settings roundTrip (segment.calls ++ [.send body])).answer =
      some (settled (exchange unparsable timeoutMs reply.outcome)) := by
  have said := comesTo_unique heard (comesTo_sendable positive rangeError _)
  rw [fits.produced rangeError, Option.map_some, Option.some.injEq] at said
  rw [answer_of_send ours before body, came, said]

/-- Whatever the peer sends and whatever the object was used for before, an intercepted request
whose `roundTrip` hears what the bridge writes shows what the peer sent: status and body as they
are and the last value of each header, or a 502 with the reason why it is no response.  If the
headers do not fit in the data region, it shows a 502. -/
theorem shows_of_bytes {bits : Nat} {bytes : Bytes} {expectBody : Bool} {limit : Nat}
    (positive : 0 < limit) {rangeError : Text} {segment : Segment}
    (ours : shouldIntercept resolve settings segment.url = true) (before : Object)
    (body : Option Bytes) {outcome : Outcome}
    (heard : Heard.nothing.ComesTo (sendable limit rangeError
      ((case.reply hidden (parseResponse bits bytes expectBody)).chunks limit)) (some outcome))
    (came : roundTrip (before.run resolve settings roundTrip
      (segment.calls ++ [.send body])).requests = exchange unparsable timeoutMs outcome) :
    let xhr := before.run resolve settings roundTrip (segment.calls ++ [.send body])
    ((case.reply hidden (parseResponse bits bytes expectBody)).Fits limit →
        case.Shows hidden xhr (parseResponse bits bytes expectBody)) ∧
      (¬ (case.reply hidden (parseResponse bits bytes expectBody)).Fits limit →
        xhr.status = .own (some (.number "502".toList)) ∧
          case.getAllResponseHeaders xhr = .own (some [])) := by
  intro xhr
  constructor
  · intro fits
    have answered : xhr.answer = _ := answer_of_fits positive ours before body fits heard came
    cases parsed : parseResponse bits bytes expectBody with
    | error reason =>
        rw [parsed, (outcome_of_error case hidden reason).1] at answered
        exact shows_of_error answered
    | ok response =>
        rw [parsed] at answered
        exact shows_of_ok (plain_of_parseResponse parsed) answered
  · intro long
    have said := comesTo_unique heard (comesTo_sendable positive rangeError _)
    obtain ⟨message, failed⟩ := failure_of_not_fits long said.symm
    have answered : xhr.answer = some (settled (exchange unparsable timeoutMs outcome)) := by
      rw [← came]
      exact answer_of_send ours before body
    rw [failed] at answered
    constructor
    · rw [Object.status, Object.reading, answered]
      rfl
    · rw [Lowercase.getAllResponseHeaders, Object.reading, answered]
      rfl

end Runs

/-! ## A request to a peer -/

/-- Tables that know of no other letters than ASCII's. -/
def Lowercase.ascii : Lowercase :=
  CaseMapping.ascii

/-- Two headers of one name, and a body. -/
def sampleBytes : Bytes :=
  utf8 ("HTTP/1.1 200 OK\r\nX-Quack: one\r\nx-quack: two\r\n\r\nhi".toList)

/-- What the bridge answers with. -/
def sampleReply : Reply :=
  Lowercase.ascii.reply (fun _ => false) (parseResponse 32 sampleBytes true)

theorem fits_sampleReply : sampleReply.Fits 8388608 := by
  have parsed : parseResponse 32 sampleBytes true = .ok
      { status := 200
        reason := "OK".toList
        headers := [("X-Quack".toList, "one".toList), ("x-quack".toList, "two".toList)]
        body := utf8 "hi".toList } := by
    decide +kernel
  have small : (metaChunk (Lowercase.ascii.jsResponse
      { status := 200
        reason := "OK".toList
        headers := [("X-Quack".toList, "one".toList), ("x-quack".toList, "two".toList)]
        body := utf8 "hi".toList })).bytes.length ≤ 8388608 := by
    decide +kernel
  rw [sampleReply, parsed]
  exact small

theorem heard_sampleReply : Heard.nothing.ComesTo
    (sendable 8388608 "offset is out of bounds".toList (sampleReply.chunks 8388608))
    (some sampleReply.outcome) := by
  have written := @comesTo_sendable 8388608 (by decide) "offset is out of bounds".toList sampleReply
  rwa [fits_sampleReply.produced] at written

theorem shows_of_bytes_sample :
    Lowercase.ascii.Shows (fun _ => false)
      (Object.run sampleResolve {} (fun _ => exchange [] 30000 sampleReply.outcome) {}
        (sampleSegment.calls ++ [.send (some [1])]))
      (parseResponse 32 sampleBytes true) :=
  (@shows_of_bytes sampleResolve {} (fun _ => exchange [] 30000 sampleReply.outcome)
    Lowercase.ascii (fun _ => false) [] 30000 32 sampleBytes true 8388608 (by decide)
    "offset is out of bounds".toList sampleSegment (by decide +kernel) {} (some [1])
    sampleReply.outcome heard_sampleReply rfl).1 fits_sampleReply

end Quackhole.Web.Xhr
