import Quackhole.Web.Registration

/-!
# A registered relay is not overtaken

What the bridge dials with, told by what the page posted: the invariant that the
frames in the channel are those the shim has seen, and that every request stands
right behind the frames posted before the message that made it.
-/

namespace Quackhole.Web.Registration

open Quackhole.Word Quackhole.Ticket Quackhole.Transition

/-! ## The relay that was registered last -/

/-- The control frame among a page's messages, as an endpoint id and a relay. -/
def PageMessage.frame? {Message : Type} : PageMessage Message → Option (Option Text × Option Text)
  | .peer endpointId relay => some (endpointId, relay)
  | .other _ => none

def BridgeMessage.frame? : BridgeMessage → Option (Option Text × Option Text)
  | .peer endpointId relay => some (endpointId, relay)
  | _ => none

/-- What the frames for one peer say, in order. -/
def registrations (peer : Text) (frames : List (Option Text × Option Text)) :
    List (Option Text) :=
  frames.filterMap fun frame => if frame.1 = some peer then some (orNull frame.2) else none

/-- The relay of the last frame for a peer among the messages, or the default if
there is none or it was empty. -/
def relayOf {Message : Type} (settings : Settings) (peer : Text)
    (messages : List (PageMessage Message)) : Option Text :=
  (registrations peer (messages.filterMap PageMessage.frame?)).getLast?.join.or
    (orNull settings.relay)

theorem orNull_orNull (text : Option Text) : orNull (orNull text) = orNull text := by
  rcases text with _ | ⟨_ | ⟨c, text⟩⟩ <;> rfl

theorem orNull_eq_some {text : Option Text} {value : Text} (nonempty : value ≠ []) :
    orNull text = some value ↔ text = some value := by
  rcases text with _ | ⟨_ | ⟨c, text⟩⟩
  · simp [orNull]
  · constructor
    · intro absurdity
      cases absurdity
    · intro empty
      cases empty
      exact absurd rfl nonempty
  · rfl

/-- A frame sets the relay of the peer it names. -/
theorem Bridge.peerRelays_onPeer (bridge : Bridge) (endpointId relay : Option Text) (peer : Text)
    (nonempty : peer ≠ []) :
    (bridge.onPeer endpointId relay).peerRelays peer =
      if endpointId = some peer then some (orNull relay) else bridge.peerRelays peer := by
  rw [Bridge.onPeer]
  split
  · rename_i id named
    have same : endpointId = some peer ↔ peer = id := by
      rw [← orNull_eq_some nonempty, named, Option.some.injEq, eq_comm]
    simp only [Bridge.setRelay, same]
  · rename_i unnamed
    have other : endpointId ≠ some peer := by
      rw [ne_eq, ← orNull_eq_some nonempty, unnamed]
      exact nofun
    rw [if_neg other]

theorem Bridge.defaultRelay_onPeer (bridge : Bridge) (endpointId relay : Option Text) :
    (bridge.onPeer endpointId relay).defaultRelay = bridge.defaultRelay := by
  rw [Bridge.onPeer]
  split <;> rfl

/-- One more frame is the last for its own peer, and says nothing of the others. -/
theorem getLast?_registrations_snoc (peer : Text) (frames : List (Option Text × Option Text))
    (frame : Option Text × Option Text) :
    (registrations peer (frames ++ [frame])).getLast? =
      if frame.1 = some peer then some (orNull frame.2)
      else (registrations peer frames).getLast? := by
  rw [registrations, List.filterMap_append]
  by_cases same : frame.1 = some peer
  · simp [same]
  · simp [same, registrations]

section Invariant

variable {Message : Type} {newUrl resolve : Text → Option Url} {settings : Settings}
  {world : World Message}

/-- The message that the thread is busy with. -/
def Worker.event : Worker Message → Option (Event Message)
  | .idle => none
  | .dispatching event => some event
  | .handling event => some event
  | .waiting event _ => some event
  | .blocked event => some event

/-- The messages of the page that the shim has let by or forwarded. -/
def World.seen (world : World Message) : List (PageMessage Message) :=
  match world.worker.event with
  | some event =>
      if event.rest = listeners then world.page.posted.take event.cause else world.page.delivered
  | none => world.page.delivered

/-- What a message of the channel may be: the first one, a frame, or a request.
A request stands behind the frames that were posted before the message it was made
for, and behind no other. -/
def Placed (settings : Settings) (page : List (PageMessage Message))
    (before : List BridgeMessage) : BridgeMessage → Prop
  | .peer _ _ => True
  | .init mode relay relays fault => .init mode relay relays fault = initMessage settings
  | .request cause _ =>
      (∃ message, page[cause]? = some (.other message)) ∧
        before.filterMap BridgeMessage.frame? =
          (page.take cause).filterMap PageMessage.frame?

/-- A dial is to the peer of its request's host, through the relay that was
registered for it before the message that made the request. -/
def Dial.Right (newUrl : Text → Option Url) (settings : Settings)
    (page : List (PageMessage Message)) (dial : Dial) : Prop :=
  (∃ message, page[dial.cause]? = some (.other message)) ∧
    (∃ url, newUrl dial.request.url = some url ∧
      Peer.parseAddress url.hostname = some dial.arguments.peer) ∧
    dial.arguments.relay = relayOf settings dial.arguments.peer (page.take dial.cause)

/-- The event that DuckDB's handler is busy with. -/
def Worker.inHandler : Worker Message → Option (Event Message)
  | .handling event => some event
  | .waiting event _ => some event
  | .blocked event => some event
  | _ => none

/-- The event is the last message taken off the port, and only the shim can find
a control frame in it. -/
def Event.Current (page : Port (PageMessage Message)) (event : Event Message) : Prop :=
  event.cause + 1 = page.received ∧ page.posted[event.cause]? = some event.message ∧
    (event.rest = listeners ∨ .shim ∉ event.rest ∧ ∃ message, event.message = .other message)

/-- The frames in the channel are those the shim has seen, every request stands in
its place, and the bridge knows what it was told. -/
structure World.Ordered (newUrl : Text → Option Url) (settings : Settings)
    (world : World Message) : Prop where
  received : world.page.received ≤ world.page.posted.length
  current : ∀ event ∈ world.worker.event, event.Current world.page
  handler : ∀ event ∈ world.worker.inHandler, .shim ∉ event.rest
  forwarded : world.channel.posted.filterMap BridgeMessage.frame? =
    world.seen.filterMap PageMessage.frame?
  placed : ∀ (n : Nat) (message : BridgeMessage), world.channel.posted[n]? = some message →
    Placed settings world.page.posted (world.channel.posted.take n) message
  inChannel : world.channel.received ≤ world.channel.posted.length
  first : world.channel.posted[0]? = some (initMessage settings)
  fallback : world.channel.received ≠ 0 → world.bridge.defaultRelay = orNull settings.relay
  registered : ∀ peer, peer ≠ [] → world.bridge.peerRelays peer =
    (registrations peer (world.channel.delivered.filterMap BridgeMessage.frame?)).getLast?
  handled : ∀ message ∈ world.handled, ∃ own, message = .other own
  dials : ∀ dial ∈ world.dials, dial.Right newUrl settings world.page.posted

/-- What a step can do. -/
inductive Moved (newUrl : Text → Option Url) (world : World Message) : World Message → Prop where
  | post (message : PageMessage Message) :
      Moved newUrl world { world with page := world.page.post message }
  | dispatch {message : PageMessage Message} (idle : world.worker = .idle)
      (waiting : world.page.next? = some message) :
      Moved newUrl world { world with
        page := world.page.receive
        worker := .dispatching ⟨world.page.received, message, listeners⟩ }
  | listen {event : Event Message} (dispatching : world.worker = .dispatching event) :
      Moved newUrl world (listen world event)
  /-- The thread goes on with the message it has. -/
  | goOn {event : Event Message} {worker : Worker Message}
      (busy : world.worker.inHandler = some event) (same : worker.event = some event) :
      Moved newUrl world { world with worker := worker }
  | request {event : Event Message} {request : Request}
      (waiting : world.worker = .waiting event request) :
      Moved newUrl world { world with
        worker := .blocked event
        channel := world.channel.post (.request event.cause request) }
  /-- The bridge gets ready, or fails to. -/
  | startup {bridge : Bridge} (ready : Ready) (bridgeError : Bool)
      (relays : bridge.peerRelays = world.bridge.peerRelays)
      (fallback : bridge.defaultRelay = world.bridge.defaultRelay) :
      Moved newUrl world { world with bridge := bridge, ready := ready, bridgeError := bridgeError }
  | receive {message : BridgeMessage} (waiting : world.channel.next? = some message) :
      Moved newUrl world
        (onmessage newUrl { world with channel := world.channel.receive } message)

/-- Every step is one of these. -/
theorem moved_of_next {label : Label Message} {after : World Message}
    (moved : next newUrl resolve settings label world = some after) : Moved newUrl world after := by
  cases label with
  | post message =>
      cases moved
      exact .post message
  | dispatch =>
      simp only [next] at moved
      split at moved
      · rename_i idle waiting
        cases moved
        exact .dispatch idle waiting
      · cases moved
  | listen =>
      simp only [next] at moved
      split at moved
      · rename_i dispatching
        cases moved
        exact .listen dispatching
      · cases moved
  | send request =>
      simp only [next] at moved
      split at moved
      · rename_i handling
        split at moved
        · cases moved
          exact .goOn (congrArg Worker.inHandler handling) rfl
        · cases moved
          exact .goOn (congrArg Worker.inHandler handling) (congrArg Worker.event handling)
      · cases moved
  | handlerReturns =>
      simp only [next] at moved
      split at moved
      · rename_i handling
        cases moved
        exact .goOn (congrArg Worker.inHandler handling) rfl
      · cases moved
  | look =>
      simp only [next] at moved
      split at moved
      · rename_i waiting
        split at moved
        · cases moved
          exact .goOn (congrArg Worker.inHandler waiting) rfl
        · split at moved
          · cases moved
          · cases moved
            exact .goOn (congrArg Worker.inHandler waiting) rfl
          · cases moved
            exact .request waiting
      · cases moved
  | neverReady =>
      simp only [next] at moved
      split at moved
      · rename_i waiting
        split at moved
        · cases moved
          exact .goOn (congrArg Worker.inHandler waiting) rfl
        · cases moved
      · cases moved
  | roundTripEnds =>
      simp only [next] at moved
      split at moved
      · rename_i blocked
        cases moved
        exact .goOn (congrArg Worker.inHandler blocked) rfl
      · cases moved
  | bridgeErrors =>
      simp only [next] at moved
      split at moved
      · cases moved
        exact .startup .failed true rfl rfl
      · cases moved
  | receive =>
      rcases Option.map_eq_some_iff.mp moved with ⟨message, waiting, rfl⟩
      exact .receive waiting
  | transportLoads ok =>
      simp only [next] at moved
      split at moved
      · split at moved
        · cases moved
          exact .startup world.ready world.bridgeError rfl rfl
        · cases moved
          exact .startup .failed world.bridgeError rfl rfl
      · cases moved
  | connects ok =>
      simp only [next] at moved
      split at moved
      · split at moved
        · cases moved
          exact .startup .ok world.bridgeError rfl rfl
        · cases moved
          exact .startup .failed world.bridgeError rfl rfl
      · cases moved

/-! ### What the page posts later changes nothing -/

theorem Placed.post {page : Port (PageMessage Message)} {before : List BridgeMessage}
    {message : BridgeMessage} (placed : Placed settings page.posted before message)
    (later : PageMessage Message) : Placed settings (page.post later).posted before message := by
  cases message with
  | request cause request =>
      rcases placed with ⟨⟨own, found⟩, frames⟩
      refine ⟨⟨own, Port.getElem?_post found⟩, ?_⟩
      rw [Port.take_post (Nat.le_of_lt (List.getElem?_eq_some_iff.mp found).1)]
      exact frames
  | _ => exact placed

theorem Dial.Right.post {page : Port (PageMessage Message)} {dial : Dial}
    (right : dial.Right newUrl settings page.posted) (later : PageMessage Message) :
    dial.Right newUrl settings (page.post later).posted := by
  rcases right with ⟨⟨own, found⟩, host, relay⟩
  refine ⟨⟨own, Port.getElem?_post found⟩, host, ?_⟩
  rw [Port.take_post (Nat.le_of_lt (List.getElem?_eq_some_iff.mp found).1)]
  exact relay

theorem Event.Current.post {page : Port (PageMessage Message)} {event : Event Message}
    (current : event.Current page) (later : PageMessage Message) :
    event.Current (page.post later) :=
  ⟨current.1, Port.getElem?_post current.2.1, current.2.2⟩

theorem seen_post (ordered : world.Ordered newUrl settings) (later : PageMessage Message) :
    ({ world with page := world.page.post later } : World Message).seen = world.seen := by
  have delivered : (world.page.post later).delivered = world.page.delivered :=
    Port.delivered_post ordered.received
  simp only [World.seen, delivered]
  cases busy : world.worker.event with
  | none => rfl
  | some event =>
      have inside := (List.getElem?_eq_some_iff.mp (ordered.current event busy).2.1).1
      simp only [Port.take_post (Nat.le_of_lt inside)]

/-! ### What the shim has seen -/

/-- What was delivered ends with the message at hand. -/
theorem Event.Current.delivered {page : Port (PageMessage Message)} {event : Event Message}
    (current : event.Current page) :
    page.delivered = page.posted.take event.cause ++ [event.message] := by
  rw [Port.delivered, ← current.1, List.take_add_one, current.2.1]
  rfl

theorem seen_of_event {event : Event Message} (busy : world.worker.event = some event)
    (rest : event.rest ≠ listeners) : world.seen = world.page.delivered := by
  simp only [World.seen, busy, if_neg rest]

theorem seen_of_listeners {event : Event Message} (busy : world.worker.event = some event)
    (rest : event.rest = listeners) : world.seen = world.page.posted.take event.cause := by
  simp only [World.seen, busy, if_pos rest]

/-- Past the shim, the frames seen are those in front of the message at hand. -/
theorem frames_seen {event : Event Message} (busy : world.worker.event = some event)
    (current : event.Current world.page) (past : .shim ∉ event.rest) :
    (∃ own, event.message = .other own) ∧
      world.seen.filterMap PageMessage.frame? =
        (world.page.posted.take event.cause).filterMap PageMessage.frame? := by
  have other : event.rest ≠ listeners := by
    intro all
    rw [all] at past
    exact past List.mem_cons_self
  rcases current.2.2 with all | ⟨-, own, message⟩
  · exact absurd all other
  · refine ⟨⟨own, message⟩, ?_⟩
    rw [seen_of_event busy other, current.delivered, List.filterMap_append, message]
    exact List.append_nil _

theorem event_of_inHandler {worker : Worker Message} {event : Event Message}
    (busy : worker.inHandler = some event) : worker.event = some event := by
  cases worker with
  | idle => cases busy
  | dispatching _ => cases busy
  | _ => exact busy

/-! ### Every step keeps the order -/

/-- A message is posted on the channel. -/
theorem placed_channel_post (ordered : world.Ordered newUrl settings) {message : BridgeMessage}
    (ok : Placed settings world.page.posted world.channel.posted message) :
    ∀ (n : Nat) (found : BridgeMessage), (world.channel.post message).posted[n]? = some found →
      Placed settings world.page.posted ((world.channel.post message).posted.take n) found := by
  intro n found there
  rcases Port.getElem?_post_cases there with old | ⟨rfl, rfl⟩
  · rw [Port.take_post (Nat.le_of_lt (List.getElem?_eq_some_iff.mp old).1)]
    exact ordered.placed n found old
  · rw [Port.take_post (Nat.le_refl _), List.take_length]
    exact ok

theorem World.Ordered.post (ordered : world.Ordered newUrl settings) (later : PageMessage Message) :
    ({ world with page := world.page.post later } : World Message).Ordered newUrl settings where
  received := by
    have inside := ordered.received
    simp only [Port.post, List.length_append]
    omega
  current event busy := (ordered.current event busy).post later
  handler := ordered.handler
  forwarded := by
    rw [seen_post ordered]
    exact ordered.forwarded
  placed n message found := (ordered.placed n message found).post later
  inChannel := ordered.inChannel
  first := ordered.first
  fallback := ordered.fallback
  registered := ordered.registered
  handled := ordered.handled
  dials dial member := (ordered.dials dial member).post later

theorem World.Ordered.dispatch (ordered : world.Ordered newUrl settings) {message : PageMessage Message}
    (idle : world.worker = .idle) (waiting : world.page.next? = some message) :
    ({ world with
        page := world.page.receive
        worker := .dispatching ⟨world.page.received, message, listeners⟩ } :
      World Message).Ordered newUrl settings where
  received := Port.received_le_of_next? waiting
  current := by
    rintro event ⟨⟩
    exact ⟨rfl, waiting, Or.inl rfl⟩
  handler := by
    rintro event ⟨⟩
  forwarded := by
    have before : world.seen = world.page.delivered := by
      rw [World.seen, idle]
      rfl
    rw [seen_of_listeners rfl rfl]
    exact ordered.forwarded.trans (congrArg (List.filterMap PageMessage.frame?) before)
  placed := ordered.placed
  inChannel := ordered.inChannel
  first := ordered.first
  fallback := ordered.fallback
  registered := ordered.registered
  handled := ordered.handled
  dials := ordered.dials

/-- The thread does something else, and the frames the shim has seen are the same. -/
theorem World.Ordered.withWorker (ordered : world.Ordered newUrl settings)
    {worker : Worker Message} (current : ∀ event ∈ worker.event, event.Current world.page)
    (handler : ∀ event ∈ worker.inHandler, .shim ∉ event.rest)
    (seen : ({ world with worker := worker } : World Message).seen.filterMap PageMessage.frame? =
      world.seen.filterMap PageMessage.frame?) :
    ({ world with worker := worker } : World Message).Ordered newUrl settings where
  received := ordered.received
  current := current
  handler := handler
  forwarded := ordered.forwarded.trans seen.symm
  placed := ordered.placed
  inChannel := ordered.inChannel
  first := ordered.first
  fallback := ordered.fallback
  registered := ordered.registered
  handled := ordered.handled
  dials := ordered.dials

/-- The thread goes on with the message it has, past the shim. -/
theorem World.Ordered.goOn (ordered : world.Ordered newUrl settings) {event : Event Message}
    {worker : Worker Message} (busy : world.worker.inHandler = some event)
    (same : worker.event = some event) :
    ({ world with worker := worker } : World Message).Ordered newUrl settings := by
  apply ordered.withWorker
  · intro other found
    cases same.symm.trans found
    exact ordered.current event (event_of_inHandler busy)
  · intro other found
    cases same.symm.trans (event_of_inHandler found)
    exact ordered.handler event busy
  · simp only [World.seen, same, event_of_inHandler busy]

/-- A request follows the frames in front of the message it is made for. -/
theorem World.Ordered.request (ordered : world.Ordered newUrl settings) {event : Event Message}
    {request : Request} (waiting : world.worker = .waiting event request) :
    ({ world with
        worker := .blocked event
        channel := world.channel.post (.request event.cause request) } :
      World Message).Ordered newUrl settings := by
  have handling : world.worker.inHandler = some event := congrArg Worker.inHandler waiting
  have busy := event_of_inHandler handling
  have current := ordered.current event busy
  rcases frames_seen busy current (ordered.handler event handling) with ⟨⟨own, message⟩, frames⟩
  have went : ({ world with worker := .blocked event } : World Message).Ordered newUrl settings :=
    ordered.goOn handling rfl
  constructor
  case received => exact went.received
  case current => exact went.current
  case handler => exact went.handler
  case forwarded =>
      have nothing : (world.channel.post (.request event.cause request)).posted.filterMap
          BridgeMessage.frame? = world.channel.posted.filterMap BridgeMessage.frame? := by
        rw [Port.post, List.filterMap_append]
        exact List.append_nil _
      exact nothing.trans went.forwarded
  case placed =>
      apply placed_channel_post ordered
      refine ⟨⟨own, ?_⟩, ordered.forwarded.trans frames⟩
      rw [← message]
      exact current.2.1
  case inChannel =>
      have inside := ordered.inChannel
      simp only [Port.post, List.length_append]
      omega
  case first => exact Port.getElem?_post ordered.first
  case fallback => exact ordered.fallback
  case registered =>
      intro peer nonempty
      rw [Port.delivered_post ordered.inChannel]
      exact ordered.registered peer nonempty
  case handled => exact ordered.handled
  case dials => exact ordered.dials

theorem World.Ordered.startup (ordered : world.Ordered newUrl settings) {bridge : Bridge}
    (ready : Ready) (bridgeError : Bool) (relays : bridge.peerRelays = world.bridge.peerRelays)
    (fallback : bridge.defaultRelay = world.bridge.defaultRelay) :
    ({ world with bridge := bridge, ready := ready, bridgeError := bridgeError } :
      World Message).Ordered newUrl settings where
  received := ordered.received
  current := ordered.current
  handler := ordered.handler
  forwarded := ordered.forwarded
  placed := ordered.placed
  inChannel := ordered.inChannel
  first := ordered.first
  fallback some := fallback.trans (ordered.fallback some)
  registered peer nonempty := (congrFun relays peer).trans (ordered.registered peer nonempty)
  handled := ordered.handled
  dials := ordered.dials

/-- The shim takes a frame off the port and forwards it. -/
theorem World.Ordered.forward (ordered : world.Ordered newUrl settings) {event : Event Message}
    (busy : world.worker.event = some event) (all : event.rest = listeners)
    {endpointId relay : Option Text} (message : event.message = .peer endpointId relay) :
    ({ world with worker := .idle, channel := world.channel.post (.peer endpointId relay) } :
      World Message).Ordered newUrl settings := by
  have seen : world.page.delivered.filterMap PageMessage.frame? =
      world.seen.filterMap PageMessage.frame? ++ [(endpointId, relay)] := by
    rw [seen_of_listeners busy all, (ordered.current event busy).delivered, message,
      List.filterMap_append]
    rfl
  have posted : (world.channel.post (.peer endpointId relay)).posted.filterMap
      BridgeMessage.frame? =
      world.channel.posted.filterMap BridgeMessage.frame? ++ [(endpointId, relay)] := by
    rw [Port.post, List.filterMap_append]
    rfl
  constructor
  case received => exact ordered.received
  case current => rintro other ⟨⟩
  case handler => rintro other ⟨⟩
  case forwarded =>
      rw [ordered.forwarded, ← seen] at posted
      exact posted
  case placed => exact placed_channel_post ordered trivial
  case inChannel =>
      have inside := ordered.inChannel
      simp only [Port.post, List.length_append]
      omega
  case first => exact Port.getElem?_post ordered.first
  case fallback => exact ordered.fallback
  case registered =>
      intro peer nonempty
      rw [Port.delivered_post ordered.inChannel]
      exact ordered.registered peer nonempty
  case handled => exact ordered.handled
  case dials => exact ordered.dials

/-- The shim lets a message by that is no frame. -/
theorem World.Ordered.letBy (ordered : world.Ordered newUrl settings) {event : Event Message}
    (busy : world.worker.event = some event) (all : event.rest = listeners) {own : Message}
    (message : event.message = .other own) :
    ({ world with worker := .dispatching { event with rest := [.duckdb] } } :
      World Message).Ordered newUrl settings := by
  have current := ordered.current event busy
  have past : Listener.shim ∉ [Listener.duckdb] := by decide
  apply ordered.withWorker
  · rintro other ⟨⟩
    exact ⟨current.1, current.2.1, Or.inr ⟨past, own, message⟩⟩
  · rintro other ⟨⟩
  · have delivered : world.page.delivered.filterMap PageMessage.frame? =
        world.seen.filterMap PageMessage.frame? := by
      rw [seen_of_listeners busy all, current.delivered, message, List.filterMap_append]
      exact List.append_nil _
    rw [seen_of_event rfl (show [Listener.duckdb] ≠ listeners by decide)]
    exact delivered

/-- DuckDB's handler is called, with a message that is no frame. -/
theorem World.Ordered.handle (ordered : world.Ordered newUrl settings) {event : Event Message}
    (busy : world.worker.event = some event) {rest : List Listener}
    (left : event.rest = .duckdb :: rest) :
    ({ world with
        worker := .handling { event with rest := rest }
        handled := world.handled ++ [event.message] } :
      World Message).Ordered newUrl settings := by
  have current := ordered.current event busy
  have past : Listener.shim ∉ rest ∧ ∃ own, event.message = .other own := by
    rcases current.2.2 with all | ⟨past, other⟩
    · rw [left, listeners] at all
      cases all
    · rw [left] at past
      exact ⟨fun member => past (List.mem_cons_of_mem _ member), other⟩
  have notAll : rest ≠ listeners := by
    rintro rfl
    exact past.1 List.mem_cons_self
  have went : ({ world with worker := .handling { event with rest := rest } } :
      World Message).Ordered newUrl settings := by
    apply ordered.withWorker
    · rintro other ⟨⟩
      exact ⟨current.1, current.2.1, Or.inr past⟩
    · rintro other ⟨⟩
      exact past.1
    · rw [seen_of_event busy (by rw [left]; exact nofun), seen_of_event rfl notAll]
  exact { went with
    handled := by
      intro message member
      rcases List.mem_append.mp member with old | new
      · exact ordered.handled message old
      · rcases past.2 with ⟨own, other⟩
        exact ⟨own, (List.mem_singleton.mp new).trans other⟩ }

/-- Whichever listener is called, the order is kept. -/
theorem World.Ordered.listen (ordered : world.Ordered newUrl settings) {event : Event Message}
    (dispatching : world.worker = .dispatching event) :
    (Registration.listen world event).Ordered newUrl settings := by
  have busy : world.worker.event = some event := congrArg Worker.event dispatching
  rw [Registration.listen]
  split
  · rename_i left
    apply ordered.withWorker
    · rintro other ⟨⟩
    · rintro other ⟨⟩
    · rw [seen_of_event busy (by rw [left]; exact nofun)]
      rfl
  · rename_i rest left
    have all : event.rest = listeners := by
      rcases (ordered.current event busy).2.2 with all | ⟨past, -⟩
      · exact all
      · rw [left] at past
        exact absurd List.mem_cons_self past
    split
    · rename_i message
      exact ordered.forward busy all message
    · rename_i message
      have last : rest = [.duckdb] := by
        rw [left, listeners] at all
        exact (List.cons.inj all).2
      rw [last]
      exact ordered.letBy busy all message
  · rename_i left
    exact ordered.handle busy left

/-- The bridge has taken a message that did not concern its relays. -/
theorem World.Ordered.receive_of_not_frame (ordered : world.Ordered newUrl settings)
    {message : BridgeMessage} (waiting : world.channel.next? = some message)
    (notFrame : message.frame? = none) {bridge : Bridge} (ready : Ready) {dials : List Dial}
    (relays : bridge.peerRelays = world.bridge.peerRelays)
    (fallback : bridge.defaultRelay = orNull settings.relay)
    (right : ∀ dial ∈ dials, dial.Right newUrl settings world.page.posted) :
    ({ world with
        channel := world.channel.receive, bridge := bridge, ready := ready, dials := dials } :
      World Message).Ordered newUrl settings where
  received := ordered.received
  current := ordered.current
  handler := ordered.handler
  forwarded := ordered.forwarded
  placed := ordered.placed
  inChannel := Port.received_le_of_next? waiting
  first := ordered.first
  fallback _ := fallback
  registered peer nonempty := by
    have same : world.channel.receive.delivered.filterMap BridgeMessage.frame? =
        world.channel.delivered.filterMap BridgeMessage.frame? := by
      rw [Port.delivered_receive waiting, List.filterMap_append, List.filterMap_cons_none notFrame]
      exact List.append_nil _
    rw [same, ← ordered.registered peer nonempty]
    exact congrFun relays peer
  handled := ordered.handled
  dials := right

/-- The bridge takes a frame to heart. -/
theorem World.Ordered.receive_frame (ordered : world.Ordered newUrl settings)
    {endpointId relay : Option Text}
    (waiting : world.channel.next? = some (.peer endpointId relay)) {bridge : Bridge}
    (relays : ∀ peer, peer ≠ [] → bridge.peerRelays peer =
      if endpointId = some peer then some (orNull relay) else world.bridge.peerRelays peer)
    (fallback : bridge.defaultRelay = world.bridge.defaultRelay)
    (begun : world.channel.received ≠ 0) :
    ({ world with channel := world.channel.receive, bridge := bridge } :
      World Message).Ordered newUrl settings where
  received := ordered.received
  current := ordered.current
  handler := ordered.handler
  forwarded := ordered.forwarded
  placed := ordered.placed
  inChannel := Port.received_le_of_next? waiting
  first := ordered.first
  fallback _ := fallback.trans (ordered.fallback begun)
  registered peer nonempty := by
    have more : world.channel.receive.delivered.filterMap BridgeMessage.frame? =
        world.channel.delivered.filterMap BridgeMessage.frame? ++ [(endpointId, relay)] := by
      rw [Port.delivered_receive waiting, List.filterMap_append]
      rfl
    rw [more, getLast?_registrations_snoc, ← ordered.registered peer nonempty]
    exact relays peer nonempty
  handled := ordered.handled
  dials := ordered.dials

/-- The bridge was told its settings before anything else. -/
theorem World.Ordered.begun (ordered : world.Ordered newUrl settings) {message : BridgeMessage}
    (waiting : world.channel.next? = some message) (other : message ≠ initMessage settings) :
    world.channel.received ≠ 0 := by
  intro zero
  rw [Port.next?, zero, ordered.first] at waiting
  exact other (Option.some.inj waiting).symm

/-- A request is dialled through the relay that was registered before the message
it was made for. -/
theorem World.Ordered.right (ordered : world.Ordered newUrl settings) {cause : Nat}
    {request : Request} (waiting : world.channel.next? = some (.request cause request))
    {arguments : ClientRequest}
    (performed : world.bridge.performIroh newUrl request = some arguments) :
    Dial.Right newUrl settings world.page.posted ⟨cause, request, arguments⟩ := by
  rcases ordered.placed _ _ waiting with ⟨own, frames⟩
  have fallback := ordered.fallback (ordered.begun waiting (by exact nofun))
  rw [Bridge.performIroh] at performed
  split at performed
  · cases performed
  · rename_i url parsed
    split at performed
    · split at performed
      · cases performed
      · rename_i peer address
        split at performed
        · cases performed
          refine ⟨own, ⟨url, parsed, address⟩, ?_⟩
          dsimp only
          rw [relayOf, ← frames, fallback,
            ordered.registered peer (ne_nil_of_parseAddress address)]
          rfl
        · cases performed
    · cases performed

/-- Whatever the bridge is sent, it has been told what was posted before. -/
theorem World.Ordered.receive (ordered : world.Ordered newUrl settings) {message : BridgeMessage}
    (waiting : world.channel.next? = some message) :
    (onmessage newUrl { world with channel := world.channel.receive } message).Ordered
      newUrl settings := by
  cases message with
  | peer endpointId relay =>
      have begun := ordered.begun waiting (by exact nofun)
      rw [onmessage]
      exact ordered.receive_frame waiting (world.bridge.peerRelays_onPeer endpointId relay)
        (world.bridge.defaultRelay_onPeer endpointId relay) begun
  | init mode relay relays fault =>
      have settled : BridgeMessage.init mode relay relays fault = initMessage settings :=
        ordered.placed _ _ waiting
      have fallback : orNull relay = orNull settings.relay := by
        cases settled
        exact orNull_orNull _
      simp only [onmessage]
      split
      · exact ordered.receive_of_not_frame waiting rfl world.ready rfl fallback ordered.dials
      · exact ordered.receive_of_not_frame waiting rfl .ok rfl fallback ordered.dials
  | request cause request =>
      have fallback := ordered.fallback (ordered.begun waiting (by exact nofun))
      have ignored := ordered.receive_of_not_frame waiting rfl world.ready rfl fallback
        ordered.dials
      rw [onmessage]
      split
      · exact ignored
      · split
        · split
          · rename_i arguments performed
            apply ordered.receive_of_not_frame waiting rfl world.ready rfl fallback
            intro dial member
            rcases List.mem_append.mp member with old | new
            · exact ordered.dials dial old
            · cases List.mem_singleton.mp new
              exact ordered.right waiting performed
          · exact ignored
        · exact ignored

/-- Every step keeps the order. -/
theorem World.Ordered.moved (ordered : world.Ordered newUrl settings) {after : World Message}
    (moved : Moved newUrl world after) : after.Ordered newUrl settings := by
  cases moved with
  | post message => exact ordered.post message
  | dispatch idle waiting => exact ordered.dispatch idle waiting
  | listen dispatching => exact ordered.listen dispatching
  | goOn busy same => exact ordered.goOn busy same
  | request waiting => exact ordered.request waiting
  | startup ready bridgeError relays fallback =>
      exact ordered.startup ready bridgeError relays fallback
  | receive waiting => exact ordered.receive waiting

theorem ordered_initial (newUrl : Text → Option Url) (settings : Settings) :
    (initial Message settings).Ordered newUrl settings where
  received := Nat.le_refl 0
  current := by rintro event ⟨⟩
  handler := by rintro event ⟨⟩
  forwarded := rfl
  placed := by
    rintro (_ | n) message found
    · cases found
      rfl
    · cases found
  inChannel := Nat.zero_le _
  first := rfl
  fallback := by
    intro begun
    exact absurd rfl begun
  registered _ _ := rfl
  handled := by rintro message ⟨⟩
  dials := by rintro dial ⟨⟩

/-- In every run, every dial is to the peer its request names and through the relay
of the last frame for that peer that the page posted before the message that made the
request, or the default relay; and DuckDB's handler is called with no control frame. -/
theorem relay_not_overtaken (reached : Reachable (next newUrl resolve settings)
      (initial Message settings) world) :
    (∀ dial ∈ world.dials,
      (∃ message, world.page.posted[dial.cause]? = some (.other message)) ∧
        (∃ url, newUrl dial.request.url = some url ∧
          Peer.parseAddress url.hostname = some dial.arguments.peer) ∧
        dial.arguments.relay =
          relayOf settings dial.arguments.peer (world.page.posted.take dial.cause)) ∧
      ∀ message ∈ world.handled, ∃ own, message = .other own := by
  have ordered : world.Ordered newUrl settings := by
    apply reached.invariant fun world => world.Ordered newUrl settings
    · exact ordered_initial newUrl settings
    · intro label before after _ ordered moved
      exact ordered.moved (moved_of_next moved)
  exact ⟨ordered.dials, ordered.handled⟩

end Invariant

/-! ## A sample run -/

/-- An `https` URL, taken apart. -/
def httpsUrl (text : Text) : Option Url :=
  if "https://".toList <+: text then
    let rest := text.drop 8
    let authority := beforeFirst '/' rest
    let hostname := beforeFirst ':' authority
    some
      { hostname := hostname
        port := authority.drop (hostname.length + 1)
        pathname := rest.drop authority.length
        search := [] }
  else none

def sampleSettings : Settings where
  mode := some "iroh".toList
  relay := some "https://fallback/".toList

def requestTo (host : String) : Request where
  method := "POST".toList
  url := "https://".toList ++ host.toList ++ ":9494/quack".toList
  headers := []
  body := none

/-- The page registers a relay for one peer and attaches it, and registers another
one while DuckDB is still waiting for the bridge.  The first request hits its
deadline before the bridge has seen it, and a second one is made, to another peer. -/
def lateRegistration : List (Label Nat) :=
  [.post (.peer (some "a".toList) (some "https://first/".toList)), .post (.other 0),
    .dispatch, .listen, .dispatch, .listen, .listen,
    .send (requestTo "a.iroh"), .receive, .transportLoads true,
    .post (.peer (some "a".toList) (some "https://second/".toList)), .receive, .connects true,
    .look, .roundTripEnds, .send (requestTo "b.iroh"), .look, .receive, .receive,
    .roundTripEnds, .handlerReturns, .listen, .dispatch, .listen, .receive]

/-- Both requests are dialled as they were registered before the message that made
them, whatever was registered since. -/
theorem relay_not_overtaken_lateRegistration :
    ∃ world : World Nat, Reachable (next httpsUrl httpsUrl sampleSettings)
        (initial Nat sampleSettings) world ∧
      world.dials.map (fun dial => (dial.cause, dial.arguments.peer, dial.arguments.relay)) =
        [(1, "a".toList, some "https://first/".toList),
          (1, "b".toList, some "https://fallback/".toList)] ∧
      ∀ dial ∈ world.dials, dial.arguments.relay =
        relayOf sampleSettings dial.arguments.peer (world.page.posted.take dial.cause) := by
  have ran : (exec (next httpsUrl httpsUrl sampleSettings) lateRegistration
        (initial Nat sampleSettings)).map (fun world =>
          world.dials.map fun dial => (dial.cause, dial.arguments.peer, dial.arguments.relay)) =
      some [(1, "a".toList, some "https://first/".toList),
        (1, "b".toList, some "https://fallback/".toList)] := by
    decide +kernel
  rcases Option.map_eq_some_iff.mp ran with ⟨world, executed, dials⟩
  have reached := reachable_of_exec executed
  exact ⟨world, reached, dials, fun dial member =>
    ((relay_not_overtaken reached).1 dial member).2.2⟩

end Quackhole.Web.Registration
