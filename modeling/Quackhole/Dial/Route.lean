import Quackhole.Extension.Attach
import Quackhole.Ticket.Keys
import Quackhole.Web.Order

/-!
# The relay a request is dialled through

Both clients keep the relays of the peers whose tickets they were given.  The
native core is handed a relay through the C interface, files it under the parsed id
and refuses one it could not dial; the browser's bridge files it as it is in the
ticket, under the text of the id, and looks it up under the text of the host name.
They agree where these texts do.
-/

namespace Quackhole.Dial

open Quackhole.Word Quackhole.Ticket Quackhole.Web.Registration

section Core

variable {Id Url : Type} (iroh : Iroh Id Url)

/-- Resolve an endpoint id, plus an optional relay hint, into a dialable address. -/
def peerAddr (endpointId relayUrl : Text) : Except String (Id × Option Url) :=
  (iroh.parseEndpointId endpointId).bind fun id =>
    let relayUrl := trim relayUrl
    if relayUrl.isEmpty then .ok (id, none)
    else (iroh.parseRelayUrl relayUrl).map fun url => (id, some url)

/-- `set_peer_relay`: remember the relay to reach one peer through, or forget it. -/
def setPeerRelay [DecidableEq Id] (relays : Id → Option Text) (endpointId relayUrl : Text) :
    Except String (Id → Option Text) :=
  (iroh.parseEndpointId endpointId).bind fun id =>
    let relayUrl := trim relayUrl
    if relayUrl.isEmpty then .ok (Function.update relays id none)
    else (iroh.parseRelayUrl relayUrl).map fun _ => Function.update relays id (some relayUrl)

/-- `peer_relay`: the relay registered for a peer, or the empty text. -/
def peerRelay (relays : Id → Option Text) (id : Id) : Text :=
  (relays id).getD []

/-- `Core::request`, up to the address it dials.  The relay URL is the fallback. -/
def requestAddr (relays : Id → Option Text) (endpointId relayUrl : Text) :
    Except String (Id × Option Url) :=
  (iroh.parseEndpointId endpointId).bind fun id =>
    let registered := peerRelay relays id
    peerAddr iroh endpointId (if registered.isEmpty then relayUrl else registered)

variable [DecidableEq Id] (codec : TicketCodec)

/-- What `quackhole_attach` does to the relays of a core: the fields of the ticket come in
the buffers of the extension, and the relay goes back as a C string.  A ticket that is
refused changes nothing, nor does one whose relay is. -/
def attachRelay (relays : Id → Option Text) (ticket : Text) : Id → Option Text :=
  match qhTicketParse iroh codec ticket endpointIdLen relayUrlLen tokenLen with
  | .error _ => relays
  | .ok peer =>
      match setPeerRelay iroh relays (untilNul peer.endpointId) (untilNul peer.relayUrl) with
      | .ok relays => relays
      | .error _ => relays

/-- The relays of a core after some tickets, one after the other. -/
def registered (relays : Id → Option Text) (tickets : List Text) : Id → Option Text :=
  tickets.foldl (attachRelay iroh codec) relays

end Core

/-- What `qh_peer_relay_set` does to the core is `set_peer_relay`, of strings that end
at their first NUL. -/
theorem setPeerRelay_eq {Id Url Address : Type} [DecidableEq Id]
    (host : Extension.Host Id Url Address) (core : Extension.Core Id)
    (endpointId relayUrl : Text) :
    Extension.setPeerRelay host (some core) endpointId relayUrl =
      (setPeerRelay host.iroh core.relays (untilNul endpointId) (untilNul relayUrl)).map
        fun relays => { core with relays := relays } := by
  simp only [Extension.setPeerRelay, Extension.peerRelay, setPeerRelay]
  cases host.iroh.parseEndpointId (untilNul endpointId) with
  | error message => rfl
  | ok id =>
      simp only [Except.bind]
      split
      · rfl
      · cases host.iroh.parseRelayUrl (trim (untilNul relayUrl)) <;> rfl

/-- The two steps of `quackhole_attach` that read a ticket and register its relay. -/
theorem core_registerRelay {Id Url Address : Type} [DecidableEq Id]
    (host : Extension.Host Id Url Address) {db : Extension.Database Id Address}
    {core : Extension.Core Id} (there : db.core = some core) (ticket : Text) :
    ((Transition.Effect.lift (Extension.parsedTicket host { ticket }) >>=
        Extension.registerRelay host) db).2.core =
      some { core with relays := attachRelay host.iroh host.codec core.relays ticket } := by
  rw [attachRelay]
  cases read : qhTicketParse host.iroh host.codec ticket endpointIdLen relayUrlLen tokenLen with
  | error message =>
      have refused : Transition.Effect.lift (Extension.parsedTicket host { ticket }) db =
          (.error (.invalidInput ("quackhole_attach: " ++ message)), db) := by
        rw [Transition.Effect.lift_apply, Extension.parsedTicket, read]
        rfl
      rw [Transition.Effect.bind_of_error refused]
      exact there
  | ok peer =>
      have passed : Transition.Effect.lift (Extension.parsedTicket host { ticket }) db =
          (.ok peer, db) := by
        rw [Transition.Effect.lift_apply, Extension.parsedTicket, read]
        rfl
      rw [Transition.Effect.bind_of_ok passed, Extension.registerRelay,
        Transition.Effect.bind_of_ok (Transition.Effect.get_apply db), there, setPeerRelay_eq]
      dsimp only
      cases setPeerRelay host.iroh core.relays (untilNul peer.endpointId)
          (untilNul peer.relayUrl) with
      | error message => exact there
      | ok relays => rfl

/-- The bridge when it has started, with the default relay of its settings. -/
def startedBridge (fallback : Option Text) : Bridge where
  mode := "iroh".toList
  defaultRelay := orNull fallback
  wasm := true
  client := true

/-- The bridge after the control frames for some tickets. -/
def told {Id Url : Type} (iroh : Iroh Id Url) (codec : TicketCodec) (bridge : Bridge)
    (tickets : List Text) : Bridge :=
  tickets.foldl (fun bridge ticket =>
    match Peer.parseTicket iroh codec ticket with
    | .ok peer => bridge.onPeer (some peer.endpointId) (some peer.relayUrl)
    | .error _ => bridge) bridge

section Addresses

variable {Id Url : Type} (iroh : Iroh Id Url)

/-- What the native client dials for a URL with an `.iroh` host: the extension reads
the endpoint id and calls `Core::request`. -/
def coreAddr (relays : Id → Option Text) (fallback : Option Text) (address : Text) :
    Option (Except String (Id × Option Url)) :=
  (Peer.parseAddress address).map fun endpointId =>
    requestAddr iroh relays endpointId (fallback.getD [])

/-- What the browser dials for a request: the transport's `request` begins with
`peer_addr`. -/
def bridgeAddr (newUrl : Text → Option Web.Registration.Url) (bridge : Bridge)
    (request : Request) : Option (Except String (Id × Option Url)) :=
  (bridge.performIroh newUrl request).map fun arguments =>
    peerAddr iroh arguments.peer (arguments.relay.getD [])

end Addresses

/-! ## What a history of tickets says of one peer -/

section History

variable {Id Url : Type} (iroh : Iroh Id Url) (codec : TicketCodec)

/-- Is it the text of no relay, or of one that can be dialled? -/
def takesRelay (relay : Text) : Bool :=
  relay.isEmpty || (iroh.parseRelayUrl relay).isOk

/-- The relay that a ticket makes the core register for an id, if it does: empty if it
makes it forget one. -/
def takenFor (endpointId ticket : Text) : Option Text :=
  match qhTicketParse iroh codec ticket endpointIdLen relayUrlLen tokenLen with
  | .error _ => none
  | .ok peer =>
      if peer.endpointId = endpointId ∧ takesRelay iroh (trim peer.relayUrl) then
        some (trim peer.relayUrl)
      else none

/-- The last of them, or the empty text. -/
def heldRelay (endpointId : Text) (tickets : List Text) : Text :=
  ((tickets.filterMap (takenFor iroh codec endpointId)).getLast?).getD []

/-- A ticket with what the browser reads of it, if that is for the id. -/
def readFor (endpointId ticket : Text) : Option (Text × Peer) :=
  match Peer.parseTicket iroh codec ticket with
  | .error _ => none
  | .ok peer => if peer.endpointId = endpointId then some (ticket, peer) else none

/-- The last of them. -/
def lastFor (endpointId : Text) (tickets : List Text) : Option (Text × Peer) :=
  (tickets.filterMap (readFor iroh codec endpointId)).getLast?

/-- The core is handed the relay of the ticket as it is, and takes it: the ticket is not
behind a NUL, its fields fit the buffers, and its relay is whole and not refused. -/
structure Whole (ticket : Text) (peer : Peer) : Prop where
  before : Peer.parseTicket iroh codec (untilNul ticket) = .ok peer
  identified : (utf8 peer.endpointId).length < endpointIdLen
  relayed : (utf8 peer.relayUrl).length < relayUrlLen
  tokened : (utf8 peer.token).length < tokenLen
  clean : '\x00' ∉ peer.relayUrl
  taken : takesRelay iroh peer.relayUrl = true

/-- The relay that a text names, if any. -/
def relayHint (relayUrl : Text) : Except String (Option Url) :=
  if (trim relayUrl).isEmpty then .ok none
  else (iroh.parseRelayUrl (trim relayUrl)).map some

/-- A relay, or the fallback for an empty one. -/
def orFallback (relay fallback : Text) : Text :=
  if relay.isEmpty then fallback else relay

/-- When both clients dial one address for a host whose label is a spelling of the
id.  In lower case the label is the printed form, and the last ticket for it is taken
whole (or what the core holds happens to name the relay of that ticket); or it is another
spelling, and no relay is held, or one that is the fallback. -/
def SameRoute (tickets : List Text) (fallback label : Text) (id : Id) : Prop :=
  let held := heldRelay iroh codec (iroh.toZ32 id) tickets
  if asciiLower label = iroh.toZ32 id then
    ∀ entry ∈ lastFor iroh codec (iroh.toZ32 id) tickets,
      Whole iroh codec entry.1 entry.2 ∨
        relayHint iroh (orFallback held fallback) =
          relayHint iroh (orFallback entry.2.relayUrl fallback)
  else held = [] ∨ relayHint iroh held = relayHint iroh fallback

theorem peerAddr_eq {endpointId : Text} {id : Id}
    (parsed : iroh.parseEndpointId endpointId = .ok id) (relayUrl : Text) :
    peerAddr iroh endpointId relayUrl = (relayHint iroh relayUrl).map fun url => (id, url) := by
  rw [peerAddr, parsed, relayHint]
  simp only [Except.bind]
  split
  · rfl
  · cases iroh.parseRelayUrl (trim relayUrl) <;> rfl

theorem peerAddr_eq_iff {first second : Text} {id : Id}
    (parsed : iroh.parseEndpointId first = .ok id)
    (reparsed : iroh.parseEndpointId second = .ok id) (relay other : Text) :
    peerAddr iroh first relay = peerAddr iroh second other ↔
      relayHint iroh relay = relayHint iroh other := by
  rw [peerAddr_eq iroh parsed, peerAddr_eq iroh reparsed]
  constructor
  · intro same
    cases hint : relayHint iroh relay <;> cases otherHint : relayHint iroh other <;>
      rw [hint, otherHint] at same <;> cases same <;> rfl
  · intro same
    rw [same]

/-- The last that a list comes to, when one more is added. -/
theorem getLast?_filterMap_snoc {α β : Type} (f : α → Option β) (entries : List α) (entry : α) :
    ((entries ++ [entry]).filterMap f).getLast? = (f entry).or (entries.filterMap f).getLast? := by
  cases made : f entry with
  | none => simp [List.filterMap_append, made]
  | some value => simp [List.filterMap_append, made]

theorem heldRelay_snoc (endpointId : Text) (tickets : List Text) (ticket : Text) :
    heldRelay iroh codec endpointId (tickets ++ [ticket]) =
      (takenFor iroh codec endpointId ticket).getD (heldRelay iroh codec endpointId tickets) := by
  rw [heldRelay, getLast?_filterMap_snoc, heldRelay]
  cases takenFor iroh codec endpointId ticket <;> rfl

theorem lastFor_snoc (endpointId : Text) (tickets : List Text) (ticket : Text) :
    lastFor iroh codec endpointId (tickets ++ [ticket]) =
      (readFor iroh codec endpointId ticket).or (lastFor iroh codec endpointId tickets) :=
  getLast?_filterMap_snoc ..

variable {iroh codec}

theorem readFor_eq_some_iff {endpointId ticket : Text} {entry : Text × Peer} :
    readFor iroh codec endpointId ticket = some entry ↔
      entry.1 = ticket ∧ Peer.parseTicket iroh codec ticket = .ok entry.2 ∧
        entry.2.endpointId = endpointId := by
  obtain ⟨text, peer⟩ := entry
  rw [readFor]
  cases read : Peer.parseTicket iroh codec ticket with
  | error message => simp
  | ok other =>
      simp only [Option.ite_none_right_eq_some, Option.some.injEq, Prod.mk.injEq, Except.ok.injEq]
      constructor
      · rintro ⟨same, rfl, rfl⟩
        exact ⟨rfl, rfl, same⟩
      · rintro ⟨rfl, rfl, same⟩
        exact ⟨same, rfl, rfl⟩

/-- What stands where in a ticket that crosses the interface. -/
theorem crossed (lawful : iroh.Lawful)
    (exact : ∀ id, iroh.parseEndpointId (iroh.toZ32 id) = .ok id) {ticket : Text} {peer : Peer}
    (read : qhTicketParse iroh codec ticket endpointIdLen relayUrlLen tokenLen = .ok peer) :
    ∃ own own', peer.endpointId = iroh.toZ32 own ∧
      iroh.parseEndpointId (untilNul peer.endpointId) = .ok own ∧
      untilNul peer.relayUrl = peer.relayUrl ∧
      Peer.parseTicket iroh codec ticket = .ok own' ∧ own'.endpointId = peer.endpointId := by
  obtain ⟨whole, parsed, -, -, -, rfl⟩ := qhTicketParse_eq_ok_iff.mp read
  obtain ⟨own, -, printed, -⟩ := exists_of_parseTicket parsed
  have clean : untilNul (iroh.toZ32 own) = iroh.toZ32 own :=
    untilNul_eq_self (lawful.nul_notMem_toZ32 own)
  refine ⟨own, whole, ?_, ?_, untilNul_untilNul _, parseTicket_of_untilNul parsed, ?_⟩
  · rw [printed, clean]
  · rw [untilNul_untilNul, printed, clean]
    exact exact own
  · rw [printed, clean]

/-- The core takes nothing for an id that the browser does not read for it. -/
theorem takenFor_of_readFor (lawful : iroh.Lawful)
    (exact : ∀ id, iroh.parseEndpointId (iroh.toZ32 id) = .ok id) {endpointId ticket : Text}
    (unread : readFor iroh codec endpointId ticket = none) :
    takenFor iroh codec endpointId ticket = none := by
  rw [takenFor]
  cases read : qhTicketParse iroh codec ticket endpointIdLen relayUrlLen tokenLen with
  | error message => rfl
  | ok peer =>
      obtain ⟨-, whole, -, -, -, parsed, same⟩ := crossed lawful exact read
      apply if_neg
      rintro ⟨own, -⟩
      have listed : readFor iroh codec endpointId ticket = some (ticket, whole) :=
        readFor_eq_some_iff.mpr ⟨rfl, parsed, same.trans own⟩
      cases unread.symm.trans listed

/-- A ticket that is taken whole. -/
theorem Whole.takenFor (lawful : iroh.Lawful) {ticket : Text} {peer : Peer}
    (whole : Whole iroh codec ticket peer) :
    takenFor iroh codec peer.endpointId ticket = some peer.relayUrl := by
  obtain ⟨own, relay, printed, trimmed⟩ := exists_of_parseTicket whole.before
  have identified : untilNul peer.endpointId = peer.endpointId := by
    rw [printed]
    exact untilNul_eq_self (lawful.nul_notMem_toZ32 own)
  have read : qhTicketParse iroh codec ticket endpointIdLen relayUrlLen tokenLen =
      .ok ⟨peer.endpointId, peer.relayUrl, untilNul peer.token⟩ := by
    refine qhTicketParse_eq_ok_iff.mpr ⟨peer, whole.before, whole.identified, whole.relayed,
      whole.tokened, ?_⟩
    rw [identified, untilNul_eq_self whole.clean]
  have kept : trim peer.relayUrl = peer.relayUrl := by
    rw [trimmed, trim_trim]
  rw [Dial.takenFor, read]
  dsimp only
  rw [kept, if_pos ⟨rfl, whole.taken⟩]

/-- The last ticket for an id is held if it is taken whole. -/
theorem heldRelay_of_whole (lawful : iroh.Lawful)
    (exact : ∀ id, iroh.parseEndpointId (iroh.toZ32 id) = .ok id) {endpointId : Text}
    {tickets : List Text} {entry : Text × Peer}
    (last : lastFor iroh codec endpointId tickets = some entry)
    (whole : Whole iroh codec entry.1 entry.2) :
    heldRelay iroh codec endpointId tickets = entry.2.relayUrl := by
  induction tickets using List.reverseRecOn with
  | nil => cases last
  | append_singleton tickets ticket ih =>
      rw [lastFor_snoc] at last
      rw [heldRelay_snoc]
      cases read : readFor iroh codec endpointId ticket with
      | none =>
          rw [read] at last
          rw [takenFor_of_readFor lawful exact read]
          exact ih last
      | some other =>
          rw [read] at last
          cases last
          obtain ⟨rfl, -, rfl⟩ := readFor_eq_some_iff.mp read
          rw [whole.takenFor lawful]
          rfl

/-- Nothing is held for an id that no ticket is read for. -/
theorem heldRelay_of_unread (lawful : iroh.Lawful)
    (exact : ∀ id, iroh.parseEndpointId (iroh.toZ32 id) = .ok id) {endpointId : Text}
    {tickets : List Text} (none : lastFor iroh codec endpointId tickets = none) :
    heldRelay iroh codec endpointId tickets = [] := by
  have unread := List.getLast?_eq_none_iff.mp none
  have untaken : tickets.filterMap (takenFor iroh codec endpointId) = [] := by
    rw [List.filterMap_eq_nil_iff] at unread ⊢
    intro ticket member
    exact takenFor_of_readFor lawful exact (unread ticket member)
  rw [heldRelay, untaken]
  rfl

/-- Registering a relay changes what is held for the id, unless the relay is refused. -/
theorem setPeerRelay_of_parsed [DecidableEq Id] (relays : Id → Option Text)
    {endpointId : Text} {own : Id} (parsed : iroh.parseEndpointId endpointId = .ok own)
    (relayUrl : Text) :
    (takesRelay iroh (trim relayUrl) = true → ∃ relay, relay.getD [] = trim relayUrl ∧
        setPeerRelay iroh relays endpointId relayUrl = .ok (Function.update relays own relay)) ∧
      (takesRelay iroh (trim relayUrl) = false → ∃ error,
        setPeerRelay iroh relays endpointId relayUrl = .error error) := by
  rw [setPeerRelay, parsed]
  simp only [Except.bind, takesRelay]
  by_cases empty : trim relayUrl = []
  · rw [empty]
    constructor
    · intro _
      exact ⟨none, rfl, rfl⟩
    · intro refused
      cases refused
  · have full : (trim relayUrl).isEmpty = false := by simpa using empty
    rw [full]
    cases iroh.parseRelayUrl (trim relayUrl) with
    | error message =>
        constructor
        · intro taken
          cases taken
        · intro _
          exact ⟨message, rfl⟩
    | ok url =>
        constructor
        · intro _
          exact ⟨some (trim relayUrl), rfl, rfl⟩
        · intro refused
          cases refused

/-- One ticket changes what is held for an id to what it makes the core register. -/
theorem peerRelay_attachRelay [DecidableEq Id] (lawful : iroh.Lawful)
    (exact : ∀ id, iroh.parseEndpointId (iroh.toZ32 id) = .ok id) (relays : Id → Option Text)
    (ticket : Text) (id : Id) :
    peerRelay (attachRelay iroh codec relays ticket) id =
      (takenFor iroh codec (iroh.toZ32 id) ticket).getD (peerRelay relays id) := by
  rw [attachRelay, takenFor]
  cases read : qhTicketParse iroh codec ticket endpointIdLen relayUrlLen tokenLen with
  | error message => rfl
  | ok peer =>
      obtain ⟨own, -, printed, parsed, clean, -⟩ := crossed lawful exact read
      have registering := setPeerRelay_of_parsed relays parsed peer.relayUrl
      dsimp only
      rw [clean]
      cases taken : takesRelay iroh (trim peer.relayUrl) with
      | false =>
          obtain ⟨error, refused⟩ := registering.2 taken
          rw [refused, if_neg fun both => Bool.noConfusion both.2]
          rfl
      | true =>
          obtain ⟨relay, kept, updated⟩ := registering.1 taken
          rw [updated, peerRelay]
          dsimp only
          by_cases same : own = id
          · rw [same, Function.update_self, kept, if_pos ⟨same ▸ printed, rfl⟩]
            rfl
          · have different : peer.endpointId ≠ iroh.toZ32 id := by
              intro own_eq
              have again := exact own
              rw [← printed, own_eq, exact] at again
              exact same (Except.ok.inj again).symm
            rw [Function.update_of_ne (Ne.symm same), if_neg fun both => different both.1]
            rfl

/-- What the core holds for a peer is the relay of the last ticket that made it register
one. -/
theorem peerRelay_registered [DecidableEq Id] (lawful : iroh.Lawful)
    (exact : ∀ id, iroh.parseEndpointId (iroh.toZ32 id) = .ok id) (tickets : List Text) (id : Id) :
    peerRelay (registered iroh codec (fun _ => none) tickets) id =
      heldRelay iroh codec (iroh.toZ32 id) tickets := by
  induction tickets using List.reverseRecOn with
  | nil => rfl
  | append_singleton tickets ticket ih =>
      have step : registered iroh codec (fun _ => none) (tickets ++ [ticket]) =
          attachRelay iroh codec (registered iroh codec (fun _ => none) tickets) ticket := by
        rw [registered, List.foldl_append]
        rfl
      rw [step, peerRelay_attachRelay lawful exact, heldRelay_snoc, ih]

/-- What the bridge finds under a text is the relay of the last ticket whose id has
that text. -/
theorem peerRelays_told {tickets : List Text} (fallback : Option Text) {text : Text}
    (nonempty : text ≠ []) :
    (told iroh codec (startedBridge fallback) tickets).peerRelays text =
      (lastFor iroh codec text tickets).map fun entry => orNull (some entry.2.relayUrl) := by
  induction tickets using List.reverseRecOn with
  | nil => rfl
  | append_singleton tickets ticket ih =>
      rw [lastFor_snoc, told, List.foldl_append, List.foldl_cons, List.foldl_nil, ← told, readFor]
      cases Peer.parseTicket iroh codec ticket with
      | error message => exact ih
      | ok peer =>
          dsimp only
          rw [Bridge.peerRelays_onPeer _ _ _ _ nonempty, ih]
          by_cases same : peer.endpointId = text
          · rw [if_pos same, if_pos (congrArg some same)]
            rfl
          · rw [if_neg same, if_neg fun equal => same (Option.some.inj equal)]
            rfl

variable (iroh codec) in
/-- Control frames change nothing but the relays. -/
theorem exists_told (bridge : Bridge) (tickets : List Text) :
    ∃ relays, told iroh codec bridge tickets = { bridge with peerRelays := relays } := by
  induction tickets generalizing bridge with
  | nil => exact ⟨bridge.peerRelays, rfl⟩
  | cons ticket tickets ih =>
      rw [told, List.foldl_cons, ← told]
      cases Peer.parseTicket iroh codec ticket with
      | error message => exact ih bridge
      | ok peer =>
          have step : ∃ relays, bridge.onPeer (some peer.endpointId) (some peer.relayUrl) =
              { bridge with peerRelays := relays } := by
            rw [Bridge.onPeer]
            split
            · exact ⟨_, rfl⟩
            · exact ⟨bridge.peerRelays, rfl⟩
          obtain ⟨relays, stepped⟩ := step
          obtain ⟨last, rest⟩ := ih (bridge.onPeer (some peer.endpointId) (some peer.relayUrl))
          refine ⟨last, ?_⟩
          dsimp only
          rw [rest, stepped]

/-- The relay a started bridge chooses for a text: that of the last ticket with this
id, unless it is empty, or else the default. -/
theorem chosen_told {tickets : List Text} (fallback : Option Text) {text : Text}
    (nonempty : text ≠ []) :
    (((told iroh codec (startedBridge fallback) tickets).peerRelays text).join.or
        (orNull fallback)).getD [] =
      orFallback (((lastFor iroh codec text tickets).map fun entry => entry.2.relayUrl).getD [])
        (fallback.getD []) := by
  have default : (orNull fallback).getD [] = fallback.getD [] := by
    rcases fallback with _ | ⟨_ | ⟨c, relay⟩⟩ <;> rfl
  rw [peerRelays_told fallback nonempty]
  rcases lastFor iroh codec text tickets with _ | ⟨_, _, _ | ⟨c, relay⟩, _⟩
  · exact default
  · exact default
  · rfl

end History

section Clients

variable {isKey : Bytes → Bool} {isStrict : Bool} {Url : Type} {parseUrl : Text → Option Url}
  {scheme urlText : Url → Text}

/-- The native client dials the id that the label spells. -/
theorem coreAddr_eq {label : Text} {key : Key isKey} (solid : Solid label)
    (parsed : (keyIroh isKey isStrict parseUrl scheme urlText).parseEndpointId label = .ok key)
    (relays : Key isKey → Option Text) (fallback : Option Text) :
    coreAddr (keyIroh isKey isStrict parseUrl scheme urlText) relays fallback
        ("https://".toList ++ label ++ irohSuffix ++ ':' :: quackPort) =
      some (peerAddr (keyIroh isKey isStrict parseUrl scheme urlText) label
        (if (peerRelay relays key).isEmpty then fallback.getD [] else peerRelay relays key)) := by
  have slash : '/' ∉ label :=
    notMem_of_accepted solid parsed (by decide) (by decide) (by decide)
  rw [coreAddr, parseAddress_https (ne_nil_of_accepted parsed) solid slash, Option.map_some,
    requestAddr, parsed]
  rfl

/-- The browser dials the id that the label spells, in lower case. -/
theorem bridgeAddr_eq {newUrl : Text → Option Web.Registration.Url} {request : Request}
    {url : Web.Registration.Url} {label : Text} {key : Key isKey} (solid : Solid label)
    (parsed : (keyIroh isKey isStrict parseUrl scheme urlText).parseEndpointId label = .ok key)
    (opened : newUrl request.url = some url) (host : url.hostname = asciiLower label ++ irohSuffix)
    (fallback : Option Text) (codec : TicketCodec) (tickets : List Text) :
    bridgeAddr (keyIroh isKey isStrict parseUrl scheme urlText) newUrl
        (told (keyIroh isKey isStrict parseUrl scheme urlText) codec (startedBridge fallback)
          tickets) request =
      some (peerAddr (keyIroh isKey isStrict parseUrl scheme urlText) (asciiLower label)
        (orFallback (((lastFor (keyIroh isKey isStrict parseUrl scheme urlText) codec
          (asciiLower label) tickets).map fun entry => entry.2.relayUrl).getD [])
            (fallback.getD []))) := by
  have lowered := parseEndpointId_asciiLower solid parsed
  have address : Peer.parseAddress url.hostname = some (asciiLower label) := by
    rw [host]
    apply parseAddress_host (ne_nil_of_accepted lowered) solid.asciiLower
    · exact notMem_of_accepted solid.asciiLower lowered (by decide) (by decide) (by decide)
    · exact notMem_of_accepted solid.asciiLower lowered (by decide) (by decide) (by decide)
  rw [← chosen_told fallback (ne_nil_of_accepted lowered)]
  rcases exists_told (keyIroh isKey isStrict parseUrl scheme urlText) codec
    (startedBridge fallback) tickets with ⟨relays, same⟩
  rw [bridgeAddr, Bridge.performIroh, opened, same]
  simp only [startedBridge, address, if_true, Option.map_some]

/-- No ticket has another spelling of the id in it. -/
theorem lastFor_eq_none {iroh : Iroh (Key isKey) Url} {codec : TicketCodec}
    (exact : ∀ key, iroh.parseEndpointId (iroh.toZ32 key) = .ok key) {tickets : List Text}
    {text : Text} {key : Key isKey} (parsed : iroh.parseEndpointId text = .ok key)
    (other : text ≠ iroh.toZ32 key) : lastFor iroh codec text tickets = none := by
  rw [lastFor, List.getLast?_eq_none_iff, List.filterMap_eq_nil_iff]
  intro ticket _
  rw [Option.eq_none_iff_forall_ne_some]
  intro entry listed
  obtain ⟨-, read, same⟩ := readFor_eq_some_iff.mp listed
  obtain ⟨own, -, printed, -⟩ := exists_of_parseTicket read
  rw [← same, printed, exact] at parsed
  obtain rfl := Except.ok.inj parsed
  exact other (same.symm.trans printed)

/-- The relays that the two clients choose name one relay if and only if the
condition holds. -/
theorem relayHint_eq_iff {iroh : Iroh (Key isKey) Url} {codec : TicketCodec}
    (lawful : iroh.Lawful) (exact : ∀ key, iroh.parseEndpointId (iroh.toZ32 key) = .ok key)
    {tickets : List Text} {label : Text} {key : Key isKey}
    (lowered : iroh.parseEndpointId (asciiLower label) = .ok key) (fallback : Text) :
    relayHint iroh (orFallback (heldRelay iroh codec (iroh.toZ32 key) tickets) fallback) =
        relayHint iroh (orFallback (((lastFor iroh codec (asciiLower label) tickets).map
          fun entry => entry.2.relayUrl).getD []) fallback) ↔
      SameRoute iroh codec tickets fallback label key := by
  rw [SameRoute]
  by_cases printed : asciiLower label = iroh.toZ32 key
  · rw [if_pos printed, printed]
    cases last : lastFor iroh codec (iroh.toZ32 key) tickets with
    | none =>
        rw [heldRelay_of_unread lawful exact last]
        exact iff_of_true rfl nofun
    | some entry =>
        constructor
        · rintro meets other ⟨⟩
          exact Or.inr meets
        · intro condition
          rcases condition entry rfl with whole | meets
          · rw [heldRelay_of_whole lawful exact last whole]
            rfl
          · exact meets
  · rw [if_neg printed, lastFor_eq_none exact lowered printed]
    cases held : heldRelay iroh codec (iroh.toZ32 key) tickets with
    | nil => exact iff_of_true rfl (Or.inl rfl)
    | cons c relay => simp [orFallback]

end Clients

/-! ## Two tickets for one key -/

/-- iroh for URLs that are any text, with what stands in front of the first colon as
the scheme. -/
def sampleIroh : Iroh (Key fun _ => true) Text :=
  keyIroh (fun _ => true) true some (fun url => beforeFirst ':' url) fun url => url

/-- An `https` URL, whose host is put in lower case. -/
def browserUrl (text : Text) : Option Web.Registration.Url :=
  (httpsUrl text).map fun url => { url with hostname := asciiLower url.hostname }

/-- The ticket of the key with this relay. -/
def ticketOf (relay : Text) : Text :=
  match Peer.toTicket .json ⟨onesKey.toZ32, relay, []⟩ with
  | .ok ticket => ticket
  | .error _ => []

/-- A request for a host under `.iroh`. -/
def requestOf (label : Text) : Request where
  method := "POST".toList
  url := "https://".toList ++ label ++ irohSuffix ++ ":9494/quack".toList
  headers := []
  body := none

def addressOf (label : Text) : Text :=
  "https://".toList ++ label ++ irohSuffix ++ ':' :: quackPort

/-- What the native client dials after these tickets, without a fallback. -/
def sampleCore (tickets : List Text) (label : Text) :
    Option (Except String ((Key fun _ => true) × Option Text)) :=
  coreAddr sampleIroh (registered sampleIroh .json (fun _ => none) tickets) none (addressOf label)

/-- What the browser dials. -/
def sampleBridge (tickets : List Text) (label : Text) :
    Option (Except String ((Key fun _ => true) × Option Text)) :=
  bridgeAddr sampleIroh browserUrl (told sampleIroh .json (startedBridge none) tickets)
    (requestOf label)

end Quackhole.Dial
