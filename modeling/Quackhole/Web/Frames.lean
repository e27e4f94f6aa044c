import Quackhole.Extension.Client
import Quackhole.Web.Xhr

/-!
# The frames of the two clients

A request of DuckDB reaches the core through the extension or through the shim and the bridge
worker.  On the second way its headers are the properties of objects, its `Host` is not among
them, and its address is read by the platform's URL parser.  What the peer is sent is the same
to the byte, unless the address names the port its scheme has anyway.
-/

namespace Quackhole.Web.Frames

open Quackhole.Word
open Quackhole.Ticket (Peer quackPort irohSuffix parseAddress_host)
open Quackhole.Compress (crlf acceptHeader acceptValue)
open Quackhole.Http
open Extension.Client (Target make)
open Registration (Url Bridge ClientRequest)

/-! ## The way through the browser -/

/-- An `open`, the headers that are set, and a `send`. -/
def sending (method url : Text) (more : List Xhr.Argument) (sets : List (Text × Text))
    (body : Option Bytes) : Xhr.Segment where
  method := method
  url := url
  more := more
  rest := (sets.map fun header => .setRequestHeader header.1 header.2) ++ [.send body]
  onward := by
    intro call member
    rcases List.mem_append.mp member with set | sent
    · obtain ⟨header, -, rfl⟩ := List.mem_map.mp set
      rfl
    · obtain rfl := List.mem_singleton.mp sent
      rfl

/-- The request that the transport's `request` builds from its arguments. -/
def coreRequest (arguments : ClientRequest) : Request where
  method := arguments.method
  path := arguments.path
  host := arguments.host
  port := arguments.port
  headers := arguments.headers
  body := arguments.body
  contentType := arguments.contentType

/-- The headers that are set on the object are those that the extension is given, but for
`Host`, which a browser does not let be set: it may stand there under the name that the bridge
drops. -/
structure Carried (sets headers : List (Text × Text)) : Prop where
  same : (sets.filter fun header => !eqIgnoreAsciiCase header.1 "x-host-override".toList) =
    headers.filter fun header => !eqIgnoreAsciiCase header.1 "host".toList
  /-- An object lists them in their order. -/
  distinct : (sets.map Prod.fst).Nodup
  named : ∀ header ∈ sets, Record.arrayIndex header.1 = none
  own : Record.proto ∉ sets.map Prod.fst
  /-- Nothing is cut off at the C ABI. -/
  noNul : ∀ header ∈ headers, '\x00' ∉ header.1 ∧ '\x00' ∉ header.2

/-- The object has the headers as they were set. -/
theorem Carried.object_eq {sets headers : List (Text × Text)} (carried : Carried sets headers) :
    Record.entries (Record.setAll [] sets) = sets := by
  have kept : Record.setAll [] sets = sets := Record.setAll_of_nodup carried.distinct carried.own
  rw [kept, Record.entries_of_named carried.named]

/-- The one request of the object. -/
theorem requests_sending {sets headers : List (Text × Text)} (carried : Carried sets headers)
    (roundTrip : List Registration.Request → Except Text Xhr.Answer)
    (earlier : List Registration.Request) (method url : Text) (more : List Xhr.Argument)
    (body : Option Bytes) :
    (sending method url more sets body).requests roundTrip earlier =
      [{ method, url, headers := sets, body }] := by
  have opened : (Xhr.Intercepted.opened method url).headers = some (headersJson []) := rfl
  obtain ⟨rest, sent, last⟩ :=
    @Xhr.Intercepted.requests_set roundTrip _ _ opened earlier sets body []
  rw [last rfl, carried.object_eq] at sent
  exact sent

/-! ## The head -/

section Heads

/-- A name of the body's type is no framing header. -/
theorem isFramingHeader_contentType {name : Text}
    (named : eqIgnoreAsciiCase name "content-type".toList = true) : isFramingHeader name = false := by
  have lower : asciiLower name = asciiLower "content-type".toList := eqIgnoreAsciiCase_iff.mp named
  rw [isFramingHeader, lower]
  decide

/-- `Host` is one. -/
theorem isFramingHeader_host {name : Text}
    (named : eqIgnoreAsciiCase name "host".toList = true) : isFramingHeader name = true := by
  have lower : asciiLower name = asciiLower "host".toList := eqIgnoreAsciiCase_iff.mp named
  rw [isFramingHeader, lower]
  decide

theorem namesContentType_kept {headers : List (Text × Text)}
    (named : namesContentType headers = true) :
    namesContentType (headers.filter fun header => !isFramingHeader header.1) = true := by
  obtain ⟨header, member, typed⟩ := List.any_eq_true.mp named
  refine List.any_eq_true.mpr ⟨header, List.mem_filter.mpr ⟨member, ?_⟩, typed⟩
  rw [isFramingHeader_contentType typed]
  rfl

/-- The two requests for the same, but for the port. -/
structure Alike (direct browser : Request) : Prop where
  method : browser.method = direct.method
  path : browser.path = direct.path
  host : browser.host = direct.host
  headers : browser.headers = direct.headers.filter fun header =>
    !eqIgnoreAsciiCase header.1 "host".toList
  body : browser.body = direct.body
  typed : browser.contentType = direct.contentType ∨ direct.body = none ∨
    namesContentType direct.headers = true

variable {direct browser : Request}

theorem Alike.keptHeaders_eq (alike : Alike direct browser) :
    keptHeaders browser = keptHeaders direct := by
  rw [keptHeaders, keptHeaders, alike.headers, List.filter_filter]
  apply List.filter_congr
  intro header _
  cases framing : isFramingHeader header.1 with
  | true => rfl
  | false =>
      have other : eqIgnoreAsciiCase header.1 "host".toList = false := by
        rw [Bool.eq_false_iff]
        intro named
        rw [isFramingHeader_host named] at framing
        cases framing
      rw [other]
      rfl

/-- The type matters only where both have the same. -/
theorem Alike.effectiveContentType_eq (alike : Alike direct browser) (hasBody : direct.body.isSome)
    (unnamed : namesContentType (keptHeaders direct) = false) :
    effectiveContentType browser = effectiveContentType direct := by
  rcases alike.typed with same | bare | named
  · rw [effectiveContentType, effectiveContentType, same]
  · rw [bare] at hasBody
    cases hasBody
  · rw [keptHeaders, namesContentType_kept named] at unnamed
    cases unnamed

theorem Alike.bodyFields_eq (alike : Alike direct browser) :
    bodyFields browser = bodyFields direct := by
  rw [bodyFields, bodyFields, alike.body, alike.keptHeaders_eq]
  split
  · rename_i hasBody
    split
    · rfl
    · rename_i unnamed
      rw [alike.effectiveContentType_eq hasBody (Bool.eq_false_iff.mpr unnamed)]
  · rfl

/-- What the one head is accepted with, the other is. -/
theorem Alike.accepted (alike : Alike direct browser) (port : OneLine browser.port)
    (accepted : Accepted direct) : Accepted browser where
  path := alike.path ▸ accepted.path
  host := alike.host ▸ accepted.host
  port := port
  names := by
    rw [alike.headers]
    exact fun header member => accepted.names header (List.mem_of_mem_filter member)
  values := by
    rw [alike.headers]
    exact fun header member => accepted.values header (List.mem_of_mem_filter member)
  contentType := by
    rw [alike.body, alike.keptHeaders_eq]
    intro hasBody unnamed
    rw [alike.effectiveContentType_eq hasBody unnamed]
    exact accepted.contentType hasBody unnamed

/-- What follows the port in the head. -/
def afterPort (req : Request) : Text :=
  crlf ++ (keptHeaders req ++ bodyFields req ++
    [(acceptHeader, acceptValue), ("Connection".toList, "close".toList)]).flatMap
      (fun field => renderField field ++ crlf) ++ crlf

theorem headText_eq_port (req : Request) :
    headText req = requestLine req ++ crlf ++ "Host: ".toList ++ req.host ++ ":".toList ++
      (req.port ++ afterPort req) := by
  simp [headText, headLines, writtenFields, afterPort, hostPort, renderField, List.flatMap_map]

theorem Alike.afterPort_eq (alike : Alike direct browser) :
    afterPort browser = afterPort direct := by
  rw [afterPort, afterPort, alike.keptHeaders_eq, alike.bodyFields_eq]

/-- The frames are the same if nothing tells the ports apart. -/
theorem Alike.frame_eq_iff (alike : Alike direct browser) (oneLine : OneLine browser.port)
    {frame : Bytes} (built : buildRequest direct = .ok frame) :
    buildRequest browser = .ok frame ↔
      utf8 (browser.port ++ afterPort direct) ++ direct.body.getD [] =
        utf8 (direct.port ++ afterPort direct) ++ direct.body.getD [] := by
  obtain ⟨accepted, rfl⟩ := buildRequest_eq_ok_iff.mp built
  have line : requestLine browser = requestLine direct := by
    rw [requestLine, requestLine, alike.method, alike.path]
  have cut : ∀ first second : Text, utf8 (first ++ second) ++ direct.body.getD [] =
      utf8 first ++ (utf8 second ++ direct.body.getD []) := by
    intro first second
    rw [utf8_append, List.append_assoc]
  rw [buildRequest_eq_ok_iff, and_iff_right (alike.accepted oneLine accepted),
    headText_eq_port direct, headText_eq_port browser, line, alike.host, alike.body,
    alike.afterPort_eq, cut _ (direct.port ++ afterPort direct),
    cut _ (browser.port ++ afterPort direct), List.append_cancel_left_eq, eq_comm]

end Heads

/-! ## Both ways -/

section Ways

variable (target : Target)

/-- The port of a scheme. -/
def defaultPort : Nat :=
  if target.secure then 443 else 80

/-- What the platform's parser finds in a URL of the target: the port of the scheme is left
out. -/
def url (pathname search : Text) : Url where
  hostname := target.host
  port := if target.port = some (defaultPort target) then [] else (target.port.map decimal).getD []
  pathname := pathname
  search := search

/-- The port in the frames of the browser. -/
def browserPort : Text :=
  if (url target [] []).port.isEmpty then quackPort else (url target [] []).port

/-- The two ports are the same, or differ at once. -/
theorem browserPort_eq_or :
    (target.port ≠ some (defaultPort target) ∧ browserPort target = target.quack) ∨
      (target.port = some (defaultPort target) ∧ browserPort target = quackPort ∧
        (target.quack = "443".toList ∨ target.quack = "80".toList)) := by
  by_cases same : target.port = some (defaultPort target)
  · refine Or.inr ⟨same, ?_, ?_⟩
    · rw [browserPort, url, if_pos same]
      rfl
    · rw [Target.quack, same, defaultPort]
      split
      · exact Or.inl (by decide)
      · exact Or.inr (by decide)
  · refine Or.inl ⟨same, ?_⟩
    rw [browserPort, url, if_neg same, Target.quack]
    cases target.port with
    | none => rfl
    | some port =>
        have filled : (decimal port).isEmpty = false := by
          rw [List.isEmpty_eq_false_iff]
          exact decimal_ne_nil port
        rw [Option.map_some, Option.getD_some, Option.getD_some, filled, if_neg Bool.false_ne_true]

/-- The port is never what breaks the head. -/
theorem oneLine_browserPort : OneLine (browserPort target) := by
  have digits : (browserPort target).all Char.isDigit = true := by
    rcases browserPort_eq_or target with ⟨-, same⟩ | ⟨-, other, -⟩
    · rw [same, Target.quack]
      cases target.port with
      | none => decide
      | some port => exact Target.all_isDigit_decimal port
    · rw [other]
      decide
  exact ⟨Ticket.notMem_of_digits digits (by decide), Ticket.notMem_of_digits digits (by decide)⟩

/-- Only the port of the scheme makes a difference. -/
theorem port_eq_iff (rest : Text) (body : Bytes) :
    utf8 (browserPort target ++ rest) ++ body = utf8 (target.quack ++ rest) ++ body ↔
      target.port ≠ some (defaultPort target) := by
  rcases browserPort_eq_or target with ⟨other, same⟩ | ⟨same, browser, direct⟩
  · rw [same]
    exact iff_of_true rfl other
  · refine iff_of_false (fun equal => ?_) (not_not.mpr same)
    rw [browser] at equal
    rcases direct with written | written
    · rw [written] at equal
      have first : (0x39 : UInt8) = 0x34 := (List.cons_eq_cons.mp equal).1
      exact absurd first (by decide)
    · rw [written] at equal
      have first : (0x39 : UInt8) = 0x38 := (List.cons_eq_cons.mp equal).1
      exact absurd first (by decide)

end Ways

/-- The bridge finds the peer in the host that the platform's parser gives it. -/
theorem parseAddress_target (target : Target) :
    Peer.parseAddress target.host = some target.label :=
  parseAddress_host target.filled target.solid target.noColon target.noSlash

/-- A URL of the target is the shim's business. -/
theorem shouldIntercept_target {resolve : Text → Option Url} {target : Target}
    {pathname search text : Text} (resolved : resolve text = some (url target pathname search))
    (settings : Registration.Settings) :
    Registration.shouldIntercept resolve settings text = true := by
  have suffix : irohSuffix.isSuffixOf target.host = true :=
    List.isSuffixOf_iff_suffix.mpr (List.suffix_append _ _)
  rw [Registration.shouldIntercept, resolved]
  dsimp only
  rw [url, suffix, Bool.true_or]

/-- What the bridge dials with. -/
def dialed (bridge : Bridge) (target : Target) (method path : Text) (headers : List (Text × Text))
    (body : Option Bytes) : ClientRequest where
  peer := target.label
  relay := (bridge.peerRelays target.label).join.or bridge.defaultRelay
  method := method
  path := path
  host := target.host
  port := browserPort target
  headers := headers.filter fun header => !eqIgnoreAsciiCase header.1 "host".toList
  body := body
  contentType := []

/-- The bridge makes that of the request of the object. -/
theorem performIroh_target {newUrl : Text → Option Url} {bridge : Bridge} {target : Target}
    {method pathname search text : Text} {sets headers : List (Text × Text)}
    (wasm : bridge.wasm = true) (client : bridge.client = true) (carried : Carried sets headers)
    (parsed : newUrl text = some (url target pathname search)) (body : Option Bytes) :
    bridge.performIroh newUrl { method, url := text, headers := sets, body } =
      some (dialed bridge target method (pathname ++ search) headers body) := by
  rw [Bridge.performIroh]
  dsimp only
  rw [parsed]
  dsimp only
  rw [if_pos wasm, url]
  dsimp only
  rw [parseAddress_target]
  dsimp only
  rw [if_pos client, carried.same]
  rfl

/-- A peer at the port of a Quack server. -/
def sampleTarget : Target where
  secure := true
  label := "peer".toList
  port := some 9494
  filled := by decide
  solid := by decide
  noColon := by decide
  noSlash := by decide
  noNul := by decide
  fits := by decide

def sampleHeaders : List (Text × Text) :=
  [("Host".toList, "peer.iroh:9494".toList), ("Content-Type".toList, "application/x-quack".toList)]

/-- What is set on the object for it. -/
def sampleSets : List (Text × Text) :=
  [("X-Host-Override".toList, "peer.iroh:9494".toList),
    ("Content-Type".toList, "application/x-quack".toList)]

def samplePath : Text :=
  "/quack".toList

/-- The platform's URL parser, on the URL of the request. -/
def sampleUrl (text : Text) : Option Url :=
  if text = sampleTarget.protoHostPort ++ (samplePath ++ []) then some (url sampleTarget samplePath [])
  else none

/-- The request as it reaches the core of the extension. -/
def sampleRequest : Request where
  method := "POST".toList
  path := samplePath ++ []
  host := sampleTarget.host
  port := sampleTarget.quack
  headers := sampleHeaders
  body := some [1, 2]
  contentType := []

theorem accepted_sampleRequest : Accepted sampleRequest where
  path := by decide
  host := by decide
  port := by decide
  names := by decide
  values := by decide
  contentType := fun _ unnamed => absurd unnamed (by decide)

end Quackhole.Web.Frames
