import Quackhole.Extension.State

/-!
# Serving and stopping

`quackhole_serve` starts a local Quack server unless one is already listening,
checks what it was asked for, starts the accept loop and mints a ticket.
`quackhole_stop` ends the accept loop only.  A sequence of such calls issues
tickets; what a ticket says about the server behind it is decided by which
server was listening when the call was made.
-/

namespace Quackhole.Extension

open Quackhole.Word Quackhole.Ticket Quackhole.Transition

/-- `QuackholeServeBindData`. -/
structure ServeArguments where
  token : Text := []
  target : Text := "127.0.0.1:9494".toList
  allow : List Text := []
  ephemeral : Bool := false
  autoServe : Bool := true

/-- The row `quackhole_serve` returns. -/
structure ServeRow where
  endpointId : Text
  relayUrl : Option Text
  token : Option Text
  ticket : Option Text
  url : Option Text

/-- The token a server is started with, where `picked` is Quack's own choice. -/
def usedToken (token picked : Text) : Text :=
  if token.isEmpty then picked else token

section Calls

variable {Id Url Address : Type} [DecidableEq Address]
variable (host : Host Id Url Address) (world : Surroundings Id)

/-- `CALL quack_serve`.  It fails where a server is listening already, and
otherwise returns the token the new server uses. -/
def quackServe (target token : Text) (db : Database Id Address) :
    Except String Text × Database Id Address :=
  match db.servers (host.address target) with
  | some _ => (.error "address already in use", db)
  | none =>
      match world.quackServe with
      | .error err => (.error err, db)
      | .ok picked =>
          (.ok (usedToken token picked),
            db.listen (host.address target) (usedToken token picked))

/-- Start a local Quack server on `target` unless one is already listening.  The
token it uses, or the empty string if it was not started. -/
def maybeStartQuackServer (target token : Text) : Action Id Address Text := fun db =>
  match quackServe host world target token db with
  | (.error _, db) => (.ok [], db)
  | (.ok used, db) => (.ok used, db)

/-- The token of the local server, if this call is the one that starts it. -/
def localToken (arguments : ServeArguments) : Action Id Address Text :=
  if arguments.autoServe then
    maybeStartQuackServer host world arguments.target arguments.token
  else pure []

/-- The check on `ephemeral := true`. -/
def checkEphemeral (ephemeral : Bool) : Action Id Address Unit := do
  let db ← Effect.get
  Effect.refuse (ephemeral && db.core.isSome) <| .invalidInput
    ("quackhole: an endpoint is already bound, so ephemeral := true cannot be honoured. " ++
      "Set 'quackhole_ephemeral' before the first ATTACH or quackhole_serve() on this database.")

/-- The check that the relay list is still the one the endpoint was bound
with. -/
def checkRelays : Action Id Address Unit := do
  let db ← Effect.get
  if db.core.isSome then do
    let relays ← Effect.lift (normalizeRelays host world.settings.relays)
    Effect.refuse (relays != db.boundRelays) <| .invalidInput
      ("quackhole: an endpoint is already bound, so 'quackhole_relays' cannot be changed -- it is " ++
        "read when the endpoint binds. This one homes on " ++
        (if db.boundRelays.isEmpty then "n0's public relays" else String.ofList db.boundRelays) ++
        ". Set the setting before the first ATTACH or quackhole_serve() on this database.")
  else pure ()

/-- The core of a serving call. -/
def serveCore (ephemeral : Bool) : Action Id Address Unit :=
  if ephemeral then getOrCreateCore host world [] true world.settings.relays
  else getOrCreateCoreFromSettings host world

/-- The first entry of an allow list that is no endpoint id. -/
def checkAllow : List Text → Except String Unit
  | [] => .ok ()
  | entry :: allow =>
      match host.iroh.parseEndpointId (untilNul entry) with
      | .error err => .error ("allow list entry '" ++ String.ofList (untilNul entry) ++
          "' is not a valid endpoint id: " ++ err)
      | .ok _ => checkAllow allow

/-- `qh_serve_start`: what it refuses, on the core as it is. -/
def serveStart (core : Option (Core Id)) (target : Text) (allow : List Text) :
    Except String (Core Id) :=
  match core with
  | none => .error "null quackhole core"
  | some core =>
      if core.serving then
        .error "quackhole is already serving; call quackhole_stop() first"
      else
        (checkAllow host allow).bind fun _ =>
          if host.isSocketAddr (untilNul target) then .ok { core with serving := true }
          else .error ("target '" ++ String.ofList (untilNul target) ++
            "' is not a host:port address")

/-- Start the accept loop. -/
def startAccepting (target : Text) (allow : List Text) : Action Id Address (Core Id) := do
  let db ← Effect.get
  let core ← Effect.lift <| (serveStart host db.core target allow).mapError
    fun err => .io ("quackhole_serve failed: " ++ err)
  Effect.modify fun db => { db with core := some core }
  pure core

/-- `EndpointId`. -/
def endpointId (core : Core Id) : Except Exception Text :=
  (writeStrOrErr endpointIdLen (host.iroh.toZ32 core.endpointId)).mapError
    fun _ => .internal "quackhole: endpoint id did not fit its buffer"

/-- `RelayUrlWait`. -/
def relayUrlWait : Text :=
  (writeStrOrErr 512 world.homeRelay).toOption.getD []

/-- A column that is NULL where it would be empty. -/
def nonempty (text : Text) : Option Text :=
  if text.isEmpty then none else some text

/-- The workbench `quackhole_serve` links to by default. -/
def defaultWorkbenchUrl : Text :=
  "https://smithclay.github.io/quackhole/".toList

/-- The link for a ticket. -/
def workbenchLink (ticket : Text) : Text :=
  let base := world.settings.workbenchUrl.getD defaultWorkbenchUrl
  if ticket.isEmpty || base.isEmpty then []
  else base ++ (if base.getLast? = some '#' then [] else ['#']) ++ ticket

/-- The row of a call that is serving on `endpointId`. -/
def serveRow (endpointId effectiveToken : Text) : ServeRow :=
  let relay := relayUrlWait world
  let ticket := ((qhTicketMint host.iroh host.codec endpointId relay effectiveToken
    ticketLen).toOption.getD [])
  { endpointId := endpointId
    relayUrl := nonempty relay
    token := nonempty effectiveToken
    ticket := nonempty ticket
    url := nonempty (workbenchLink world ticket) }

/-- The token a ticket is minted with. -/
def effectiveToken (arguments : ServeArguments) (quackToken : Text) : Text :=
  if arguments.token.isEmpty then quackToken else arguments.token

/-- What `quackhole_serve` does once the local server is taken care of. -/
def serveEndpoint (arguments : ServeArguments) (quackToken : Text) :
    Action Id Address ServeRow := do
  checkEphemeral arguments.ephemeral
  checkRelays host world
  serveCore host world arguments.ephemeral
  let core ← startAccepting host arguments.target arguments.allow
  let id ← Effect.lift (endpointId host core)
  pure (serveRow host world id (effectiveToken arguments quackToken))

/-- `QuackholeServeFunction`. -/
def quackholeServe (arguments : ServeArguments) : Action Id Address ServeRow := do
  let quackToken ← localToken host world arguments
  serveEndpoint host world arguments quackToken

/-- `QuackholeStopFunction`: whether a core was there to be stopped.  The accept
loop ends, and nothing else. -/
def quackholeStop : Action Id Address Bool := do
  let db ← Effect.get
  match db.core with
  | none => pure false
  | some core => do
      Effect.modify fun db => { db with core := some { core with serving := false } }
      pure true

end Calls

/-- Without a token of the local server, the one given is used as it is. -/
theorem effectiveToken_nil (arguments : ServeArguments) :
    effectiveToken arguments [] = arguments.token := by
  rw [effectiveToken]
  split
  · rename_i absent
    exact (List.isEmpty_iff.mp absent).symm
  · rfl

/-- The token of a server the call started is the one the ticket is minted
with. -/
theorem effectiveToken_usedToken (arguments : ServeArguments) (picked : Text) :
    effectiveToken arguments (usedToken arguments.token picked) =
      usedToken arguments.token picked := by
  rw [effectiveToken, usedToken]
  split
  · rfl
  · rfl

/-! ## The servers of a database -/

section Servers

variable {Id Url Address : Type} [DecidableEq Address]
variable {host : Host Id Url Address} {world : Surroundings Id}

variable (host world) in
/-- Whether a call starts a server, and with which token. -/
theorem localToken_cases (arguments : ServeArguments) (db : Database Id Address) :
    (∃ accepted, db.servers (host.address arguments.target) = some accepted ∧
      localToken host world arguments db = (.ok [], db)) ∨
    (db.servers (host.address arguments.target) = none ∧
      (∀ picked, arguments.autoServe = true → world.quackServe ≠ .ok picked) ∧
      localToken host world arguments db = (.ok [], db)) ∨
    (∃ picked, db.servers (host.address arguments.target) = none ∧
      arguments.autoServe = true ∧ world.quackServe = .ok picked ∧
      localToken host world arguments db =
        (.ok (usedToken arguments.token picked),
          db.listen (host.address arguments.target) (usedToken arguments.token picked))) := by
  cases found : db.servers (host.address arguments.target) with
  | some accepted =>
      left
      refine ⟨accepted, rfl, ?_⟩
      rw [localToken]
      split
      · rw [maybeStartQuackServer, quackServe, found]
      · rfl
  | none =>
      right
      cases autoServe : arguments.autoServe with
      | false =>
          left
          refine ⟨rfl, fun _ given => absurd given (by decide), ?_⟩
          rw [localToken, autoServe]
          rfl
      | true =>
          cases answer : world.quackServe with
          | error err =>
              left
              refine ⟨rfl, fun picked _ started => ?_, ?_⟩
              · cases started
              · rw [localToken, autoServe, if_pos rfl, maybeStartQuackServer, quackServe, found,
                  answer]
          | ok picked =>
              right
              refine ⟨picked, rfl, rfl, rfl, ?_⟩
              rw [localToken, autoServe, if_pos rfl, maybeStartQuackServer, quackServe, found,
                answer]

variable (host world) in
omit [DecidableEq Address] in
/-- Everything after the local server leaves the servers alone. -/
theorem keeps_serveEndpoint (arguments : ServeArguments) (quackToken : Text) :
    Effect.Keeps Database.servers (serveEndpoint host world arguments quackToken) := by
  have beside : BesideCore fun db : Database Id Address => db.servers :=
    ⟨fun _ _ => rfl, fun _ _ => rfl⟩
  apply Effect.Keeps.bind (Effect.keeps_get.bind fun db => Effect.keeps_refuse _ _)
  intro _
  apply Effect.Keeps.bind
  · apply Effect.keeps_get.bind
    intro db
    apply Effect.Keeps.ite _ (Effect.keeps_pure ())
    exact (Effect.keeps_lift _).bind fun _ => Effect.keeps_refuse _ _
  intro _
  apply Effect.Keeps.bind
  · apply Effect.Keeps.ite
    · exact keeps_getOrCreateCore beside _ _ _
    · exact keeps_getOrCreateCoreFromSettings beside
  intro _
  apply Effect.Keeps.bind
  · apply Effect.keeps_get.bind
    intro db
    apply (Effect.keeps_lift _).bind
    intro started
    exact (Effect.keeps_modify fun db => beside.core db _).bind fun _ => Effect.keeps_pure _
  intro started
  exact (Effect.keeps_lift _).bind fun _ => Effect.keeps_pure _

omit [DecidableEq Address] in
/-- The row of a call that returns. -/
theorem serveEndpoint_eq_ok {arguments : ServeArguments} {quackToken : Text}
    {db after : Database Id Address} {row : ServeRow}
    (returned : serveEndpoint host world arguments quackToken db = (.ok row, after)) :
    ∃ id : Id, row = serveRow host world (untilNul (host.iroh.toZ32 id))
      (effectiveToken arguments quackToken) := by
  rw [serveEndpoint, Effect.bind_eq_ok] at returned
  rcases returned with ⟨_, _, _, returned⟩
  rw [Effect.bind_eq_ok] at returned
  rcases returned with ⟨_, _, _, returned⟩
  rw [Effect.bind_eq_ok] at returned
  rcases returned with ⟨_, _, _, returned⟩
  rw [Effect.bind_eq_ok] at returned
  rcases returned with ⟨core, _, _, returned⟩
  rw [Effect.bind_eq_ok] at returned
  rcases returned with ⟨id, _, printed, returned⟩
  have written : endpointId host core = .ok id := (Prod.mk.inj printed).1
  rw [endpointId] at written
  cases fits : writeStrOrErr endpointIdLen (host.iroh.toZ32 core.endpointId) with
  | error err =>
      rw [fits] at written
      cases written
  | ok printed =>
      rw [fits] at written
      refine ⟨core.endpointId, ?_⟩
      rw [← writeStrOrErr_eq_ok fits, Except.ok.inj written]
      exact (Except.ok.inj (Prod.mk.inj returned).1).symm

omit [DecidableEq Address] in
/-- Stopping leaves the servers alone. -/
theorem servers_quackholeStop (db : Database Id Address) :
    (quackholeStop db).2.servers = db.servers := by
  rcases db with ⟨_ | core, _, _, _, _⟩
  · rfl
  · rfl

/-- Whether it returns or throws, a call does to the servers what its first step
does. -/
theorem servers_quackholeServe (arguments : ServeArguments) (db : Database Id Address) :
    (quackholeServe host world arguments db).2.servers =
      (localToken host world arguments db).2.servers := by
  rw [quackholeServe]
  rcases ran : localToken host world arguments db with ⟨error | quackToken, middle⟩
  · rw [Effect.bind_of_error ran]
  · rw [Effect.bind_of_ok ran]
    exact keeps_serveEndpoint host world arguments quackToken middle

omit [DecidableEq Address] in
/-- A ticket in the row is the one that was minted. -/
theorem ticket_serveRow {endpointId token ticket : Text}
    (returned : (serveRow host world endpointId token).ticket = some ticket) :
    qhTicketMint host.iroh host.codec endpointId (relayUrlWait world) token ticketLen =
      .ok ticket := by
  simp only [serveRow, nonempty] at returned
  cases minted : qhTicketMint host.iroh host.codec endpointId (relayUrlWait world) token
    ticketLen with
  | error err =>
      rw [minted] at returned
      cases returned
  | ok text =>
      rw [minted] at returned
      split at returned
      · cases returned
      · exact congrArg Except.ok (Option.some.inj returned)

end Servers

end Quackhole.Extension
