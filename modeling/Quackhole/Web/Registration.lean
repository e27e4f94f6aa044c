import Quackhole.Ticket.Address
import Quackhole.Transition.Labelled
import Quackhole.Transition.Port

/-!
# Registering a relay before the dial

The page, the DuckDB worker and the bridge worker, joined by two ports.  The
page posts control frames and DuckDB's own messages on the first; the shim's
listener, which was added before DuckDB's, takes the control frames off it and
forwards them on the second, which also carries every request.

DuckDB's handler is free to make any requests, but makes them synchronously,
while it is handling a message: its thread is blocked until the request is over.
A request is over when it is answered or its deadline passes, so an earlier one
may still be waiting in the bridge's port.  Every request and dial carries the
number of the page's message it was made for, which no part of the program reads.
-/

namespace Quackhole.Web.Registration

open Quackhole.Word Quackhole.Ticket Quackhole.Transition

/-- `value || null`: a string that is missing or empty is null. -/
def orNull : Option Text → Option Text
  | some (c :: text) => some (c :: text)
  | _ => none

/-- What the page posts to the DuckDB worker. -/
inductive PageMessage (Message : Type) where
  /-- A control frame tagged `peer`. -/
  | peer (endpointId relay : Option Text)
  | other (message : Message)
deriving DecidableEq

/-- The settings of the DuckDB worker that matter to a dial. -/
structure Settings where
  mode : Option Text := none
  relay : Option Text := none
  relays : Option Text := none
  fault : Option Text := none
  intercept : Option Text := none
deriving DecidableEq

/-- A parsed URL. -/
structure Url where
  hostname : Text
  port : Text
  pathname : Text
  search : Text
deriving DecidableEq

/-- `host`: the host name, and the port if there is one. -/
def Url.host (url : Url) : Text :=
  if url.port.isEmpty then url.hostname else url.hostname ++ ':' :: url.port

/-- What a request of DuckDB is made of. -/
structure Request where
  method : Text
  url : Text
  headers : List (Text × Text)
  body : Option Bytes
deriving DecidableEq

/-- What the bridge worker is sent. -/
inductive BridgeMessage where
  | init (mode : Text) (relay relays fault : Option Text)
  | peer (endpointId relay : Option Text)
  /-- A request that the message numbered `cause` made. -/
  | request (cause : Nat) (request : Request)
deriving DecidableEq

/-- The arguments of the transport's `request`. -/
structure ClientRequest where
  peer : Text
  relay : Option Text
  method : Text
  path : Text
  host : Text
  port : Text
  headers : List (Text × Text)
  body : Option Bytes
  contentType : Text
deriving DecidableEq

/-- A dial of the bridge, and the request it is made for. -/
structure Dial where
  cause : Nat
  request : Request
  arguments : ClientRequest
deriving DecidableEq

/-- What the bridge worker is waiting for before it is ready. -/
inductive Startup where
  | transport (relays : Option Text)
  | connect
deriving DecidableEq

/-- The bridge worker. -/
structure Bridge where
  mode : Text := "fetch".toList
  defaultRelay : Option Text := none
  fault : Option Text := none
  /-- The transport module is loaded. -/
  wasm : Bool := false
  /-- The endpoint is bound. -/
  client : Bool := false
  startup : Option Startup := none
  /-- A `Map`, by what it returns for a key. -/
  peerRelays : Text → Option (Option Text) := fun _ => none

/-- The flag the shim waits for. -/
inductive Ready where
  | notReady
  | ok
  | failed
deriving DecidableEq

/-- Who listens to the page's messages in the DuckDB worker. -/
inductive Listener where
  | shim
  | duckdb
deriving DecidableEq

/-- In the order they were added. -/
def listeners : List Listener :=
  [.shim, .duckdb]

/-- A message of the page that is being dispatched: the number it has on the
port, and the listeners that have not been called yet. -/
structure Event (Message : Type) where
  cause : Nat
  message : PageMessage Message
  rest : List Listener
deriving DecidableEq

/-- What the thread of the DuckDB worker is doing. -/
inductive Worker (Message : Type) where
  | idle
  /-- Between two listeners. -/
  | dispatching (event : Event Message)
  /-- In DuckDB's handler. -/
  | handling (event : Event Message)
  /-- In `waitForBridge`, with a request. -/
  | waiting (event : Event Message) (request : Request)
  /-- In `roundTrip`, with its request posted. -/
  | blocked (event : Event Message)
deriving DecidableEq

structure World (Message : Type) where
  page : Port (PageMessage Message) := {}
  worker : Worker Message := .idle
  /-- The messages DuckDB's handler was called with. -/
  handled : List (PageMessage Message) := []
  channel : Port BridgeMessage := {}
  bridge : Bridge := {}
  ready : Ready := .notReady
  /-- The bridge's `error` event was seen. -/
  bridgeError : Bool := false
  dials : List Dial := []

inductive Label (Message : Type) where
  /-- The page posts a message. -/
  | post (message : PageMessage Message)
  /-- The DuckDB worker takes its next message. -/
  | dispatch
  /-- The next listener is called. -/
  | listen
  /-- DuckDB's handler sends a request. -/
  | send (request : Request)
  | handlerReturns
  /-- `waitForBridge` looks at the flag. -/
  | look
  /-- `waitForBridge` gives up. -/
  | neverReady
  /-- `roundTrip` returns, or gives up. -/
  | roundTripEnds
  /-- The bridge's `error` event arrives. -/
  | bridgeErrors
  /-- The bridge takes its next message. -/
  | receive
  /-- The transport module is loaded, or cannot be. -/
  | transportLoads (ok : Bool)
  /-- The endpoint is bound, or cannot be. -/
  | connects (ok : Bool)
deriving DecidableEq

/-- What the bridge is sent first. -/
def initMessage (settings : Settings) : BridgeMessage :=
  .init ((orNull settings.mode).getD "fetch".toList) (orNull settings.relay)
    (orNull settings.relays) (orNull settings.fault)

def initial (Message : Type) (settings : Settings) : World Message where
  channel := { posted := [initMessage settings] }

section Program

-- The URL parser of the platform: of an absolute URL, and of one that may be
-- relative to where the client's files are.
variable (newUrl resolve : Text → Option Url) (settings : Settings) {Message : Type}

/-- Is a request the shim's business? -/
def shouldIntercept (url : Text) : Bool :=
  match resolve url with
  | some parsed =>
      irohSuffix.isSuffixOf parsed.hostname ||
        ((orNull settings.intercept).isSome && orNull settings.intercept == some parsed.host)
  | none => false

/-- `performIroh`, up to the call of the transport, unless it throws before. -/
def Bridge.performIroh (bridge : Bridge) (request : Request) : Option ClientRequest :=
  match newUrl request.url with
  | none => none
  | some url =>
      if bridge.wasm then
        match Peer.parseAddress url.hostname with
        | none => none
        | some peer =>
            if bridge.client then
              some
                { peer := peer
                  relay := (bridge.peerRelays peer).join.or bridge.defaultRelay
                  method := request.method
                  path := url.pathname ++ url.search
                  host := url.hostname
                  port := if url.port.isEmpty then quackPort else url.port
                  headers := request.headers.filter fun header =>
                    ! eqIgnoreAsciiCase header.1 "x-host-override".toList
                  body := request.body
                  contentType := [] }
            else none
      else none

/-- `peerRelays.set`. -/
def Bridge.setRelay (bridge : Bridge) (endpointId : Text) (relay : Option Text) : Bridge :=
  { bridge with
    peerRelays := fun peer => if peer = endpointId then some relay else bridge.peerRelays peer }

/-- What the bridge does with a control frame. -/
def Bridge.onPeer (bridge : Bridge) (endpointId relay : Option Text) : Bridge :=
  match orNull endpointId with
  | some endpointId => bridge.setRelay endpointId (orNull relay)
  | none => bridge

/-- The bridge's `onmessage`, as far as it goes at once. -/
def onmessage (world : World Message) : BridgeMessage → World Message
  | .peer endpointId relay => { world with bridge := world.bridge.onPeer endpointId relay }
  | .init mode relay relays fault =>
      let bridge := { world.bridge with
        mode := (orNull (some mode)).getD "fetch".toList
        defaultRelay := orNull relay
        fault := orNull fault }
      if bridge.mode = "iroh".toList then
        { world with bridge := { bridge with startup := some (.transport relays) } }
      else { world with bridge := bridge, ready := .ok }
  | .request cause request =>
      if world.bridge.fault = some "blackhole".toList then world
      else if world.bridge.mode = "iroh".toList then
        match world.bridge.performIroh newUrl request with
        | some arguments => { world with dials := world.dials ++ [⟨cause, request, arguments⟩] }
        | none => world
      else world

/-- The listener of the shim or of DuckDB is called with the page's message. -/
def listen (world : World Message) (event : Event Message) : World Message :=
  match event.rest with
  | [] => { world with worker := .idle }
  | .shim :: rest =>
      match event.message with
      | .peer endpointId relay =>
          -- `stopImmediatePropagation`: the listeners that are left are not called.
          { world with
            worker := .idle
            channel := world.channel.post (.peer endpointId relay) }
      | .other _ => { world with worker := .dispatching { event with rest := rest } }
  | .duckdb :: rest =>
      { world with
        worker := .handling { event with rest := rest }
        handled := world.handled ++ [event.message] }

/-- One step of one party. -/
def next : LStep (Label Message) (World Message)
  | .post message, world => some { world with page := world.page.post message }
  | .dispatch, world =>
      match world.worker, world.page.next? with
      | .idle, some message =>
          some { world with
            page := world.page.receive
            worker := .dispatching ⟨world.page.received, message, listeners⟩ }
      | _, _ => none
  | .listen, world =>
      match world.worker with
      | .dispatching event => some (listen world event)
      | _ => none
  | .send request, world =>
      match world.worker with
      | .handling event =>
          -- Any other request goes out over the native transport.
          if shouldIntercept resolve settings request.url then
            some { world with worker := .waiting event request }
          else some world
      | _ => none
  | .handlerReturns, world =>
      match world.worker with
      | .handling event => some { world with worker := .dispatching event }
      | _ => none
  | .look, world =>
      match world.worker with
      | .waiting event request =>
          if world.bridgeError then some { world with worker := .handling event }
          else
            match world.ready with
            | .notReady => none
            | .failed => some { world with worker := .handling event }
            | .ok =>
                some { world with
                  worker := .blocked event
                  channel := world.channel.post (.request event.cause request) }
      | _ => none
  | .neverReady, world =>
      match world.worker with
      | .waiting event _ =>
          if world.ready = .notReady then some { world with worker := .handling event } else none
      | _ => none
  | .roundTripEnds, world =>
      match world.worker with
      | .blocked event => some { world with worker := .handling event }
      | _ => none
  | .bridgeErrors, world =>
      match world.worker with
      | .idle => some { world with bridgeError := true, ready := .failed }
      | _ => none
  | .receive, world =>
      (world.channel.next?).map fun message =>
        onmessage newUrl { world with channel := world.channel.receive } message
  | .transportLoads ok, world =>
      match world.bridge.startup with
      | some (.transport _) =>
          if ok then
            some { world with bridge := { world.bridge with wasm := true, startup := some .connect } }
          else
            some { world with bridge := { world.bridge with startup := none }, ready := .failed }
      | _ => none
  | .connects ok, world =>
      match world.bridge.startup with
      | some .connect =>
          if ok then
            some { world with
              bridge := { world.bridge with client := true, startup := none }
              ready := .ok }
          else
            some { world with bridge := { world.bridge with startup := none }, ready := .failed }
      | _ => none

end Program

end Quackhole.Web.Registration
