import Quackhole.Extension.Serve

/-!
# The tickets a sequence of calls issues

A sequence of serving and stopping calls on one database, and every ticket they
return.  A ticket is good if the server behind it accepts the token it carries.
No call takes a server or its token away again, so a ticket is good exactly when
the call that issued it either started the server itself or was given the token
of the server it found.
-/

namespace Quackhole.Extension

open Quackhole.Word Quackhole.Ticket Quackhole.Transition

/-- A call, with what it is answered. -/
inductive Call (Id : Type) where
  | serve (arguments : ServeArguments) (world : Surroundings Id)
  | stop

/-- A ticket, with the call that issued it and the database around that call. -/
structure Issue (Id Address : Type) where
  arguments : ServeArguments
  world : Surroundings Id
  before : Database Id Address
  ticket : Text
  after : Database Id Address

section Calls

variable {Id Url Address : Type} [DecidableEq Address] (host : Host Id Url Address)

/-- The database a call leaves behind, whether it returns or throws. -/
def Call.perform (db : Database Id Address) : Call Id → Database Id Address
  | .serve arguments world => (quackholeServe host world arguments db).2
  | .stop => (quackholeStop db).2

/-- The ticket a serving call returns, if it returns and has one. -/
def issue (arguments : ServeArguments) (world : Surroundings Id) (db : Database Id Address) :
    Option (Issue Id Address) :=
  match quackholeServe host world arguments db with
  | (.ok row, after) => row.ticket.map fun ticket => ⟨arguments, world, db, ticket, after⟩
  | (.error _, _) => none

/-- The tickets of a sequence of calls. -/
def issues : List (Call Id) → Database Id Address → List (Issue Id Address)
  | [], _ => []
  | .serve arguments world :: calls, db =>
      (issue host arguments world db).toList ++
        issues calls (Call.perform host db (.serve arguments world))
  | .stop :: calls, db => issues calls (Call.perform host db .stop)

/-- Reading a ticket yields a token. -/
def Carries (ticket token : Text) : Prop :=
  ∃ peer, Peer.parseTicket host.iroh host.codec ticket = .ok peer ∧ peer.token = token

namespace Issue

variable (issue : Issue Id Address)

/-- The server on the target accepts the token the ticket carries. -/
def Good : Prop :=
  ∃ accepted, issue.after.servers (host.address issue.arguments.target) = some accepted ∧
    Carries host issue.ticket accepted

/-- The call was given the token of the server it found, or found none and
started one. -/
def Fits : Prop :=
  match issue.before.servers (host.address issue.arguments.target) with
  | some accepted => untilNul issue.arguments.token = accepted
  | none => issue.arguments.autoServe = true ∧ ∃ picked, issue.world.quackServe = .ok picked ∧
      '\x00' ∉ usedToken issue.arguments.token picked

end Issue

variable {host}

/-- A listening server keeps its token through every call. -/
theorem servers_perform {db : Database Id Address} {place : Address} {accepted : Text}
    (listening : db.servers place = some accepted) (call : Call Id) :
    (call.perform host db).servers place = some accepted := by
  cases call with
  | stop =>
      rw [Call.perform, servers_quackholeStop, listening]
  | serve arguments world =>
      rw [Call.perform, servers_quackholeServe]
      rcases localToken_cases host world arguments db with
        ⟨_, _, ran⟩ | ⟨_, _, ran⟩ | ⟨picked, free, _, _, ran⟩
      · rw [ran, listening]
      · rw [ran, listening]
      · have elsewhere : place ≠ host.address arguments.target := by
          rintro rfl
          rw [free] at listening
          cases listening
        rw [ran]
        exact (Database.servers_listen_of_ne db elsewhere _).trans listening

/-- A listening server keeps its token through every sequence of calls: no
ticket that was good is cut off by serving again. -/
theorem servers_foldl_perform {db : Database Id Address} {place : Address} {accepted : Text}
    (listening : db.servers place = some accepted) (calls : List (Call Id)) :
    (calls.foldl (Call.perform host) db).servers place = some accepted := by
  induction calls generalizing db with
  | nil => exact listening
  | cons call calls ih => exact ih (servers_perform listening call)

/-- What is known of a call that issued a ticket. -/
theorem of_issue {arguments : ServeArguments} {world : Surroundings Id} {db : Database Id Address}
    {issued : Issue Id Address} (returned : issue host arguments world db = some issued) :
    issued.arguments = arguments ∧ issued.world = world ∧ issued.before = db ∧
      ∃ (id : Id) (quackToken : Text) (middle : Database Id Address),
        localToken host world arguments db = (.ok quackToken, middle) ∧
        issued.after.servers = middle.servers ∧
        qhTicketMint host.iroh host.codec (untilNul (host.iroh.toZ32 id)) (relayUrlWait world)
          (effectiveToken arguments quackToken) ticketLen = .ok issued.ticket := by
  rw [issue] at returned
  split at returned
  · rename_i row after served
    rw [Option.map_eq_some_iff] at returned
    rcases returned with ⟨ticket, printed, rfl⟩
    rw [quackholeServe, Effect.bind_eq_ok] at served
    rcases served with ⟨quackToken, middle, started, served⟩
    rcases serveEndpoint_eq_ok served with ⟨id, rfl⟩
    have kept : after.servers = middle.servers := by
      rw [← keeps_serveEndpoint host world arguments quackToken middle, served]
    exact ⟨rfl, rfl, rfl, id, quackToken, middle, started, kept, ticket_serveRow printed⟩
  · cases returned

omit [DecidableEq Address] in
/-- An issued ticket carries the token it was minted with, up to its first NUL,
and no other one. -/
theorem carries_iff (lawful : host.Lawful) {id : Id} {relay token ticket accepted : Text}
    {outLen : Nat} (minted : qhTicketMint host.iroh host.codec (untilNul (host.iroh.toZ32 id)) relay
      token outLen = .ok ticket) :
    Carries host ticket accepted ↔ untilNul token = accepted := by
  rw [untilNul_eq_self (lawful.iroh.nul_notMem_toZ32 id)] at minted
  rcases token_of_qhTicketMint lawful.iroh lawful.codec minted with ⟨peer, read, carried⟩
  constructor
  · rintro ⟨other, read', rfl⟩
    rw [read] at read'
    rw [← Except.ok.inj read', carried]
  · rintro rfl
    exact ⟨peer, read, carried⟩

/-- A call issues a good ticket exactly if it was given the token of the server
it found, or found none and started one. -/
theorem good_iff_fits (lawful : host.Lawful) {arguments : ServeArguments}
    {world : Surroundings Id} {db : Database Id Address} {issued : Issue Id Address}
    (returned : issue host arguments world db = some issued) :
    issued.Good host ↔ issued.Fits host := by
  rcases of_issue returned with ⟨rfl, rfl, rfl, id, quackToken, middle, started, kept, minted⟩
  rw [Issue.Good, Issue.Fits, kept]
  simp only [carries_iff lawful minted]
  rcases localToken_cases host issued.world issued.arguments issued.before with
    ⟨accepted, found, ran⟩ | ⟨free, failed, ran⟩ | ⟨picked, free, autoServe, answer, ran⟩
  · -- The server that was found goes on listening, and the call adds no token of its own.
    cases ran.symm.trans started
    rw [found, effectiveToken_nil]
    simp [eq_comm]
  · -- No server listens on the target.
    cases ran.symm.trans started
    rw [free]
    constructor
    · rintro ⟨accepted, listening, _⟩
      cases listening
    · rintro ⟨autoServe, picked, answer, _⟩
      exact absurd answer (failed picked autoServe)
  · -- The call started the server with the token it mints the ticket with.
    cases ran.symm.trans started
    have whole : usedToken issued.arguments.token picked =
          untilNul (usedToken issued.arguments.token picked) ↔
        '\x00' ∉ usedToken issued.arguments.token picked :=
      eq_comm.trans untilNul_eq_self_iff
    rw [free, effectiveToken_usedToken, Database.servers_listen_self]
    simp [autoServe, answer, whole]

/-- In every sequence of calls, a ticket is good exactly if the call that issued it
was given the token of the server it found, or found none and started one. -/
theorem good_iff_fits_of_mem (lawful : host.Lawful) (calls : List (Call Id))
    (db : Database Id Address) :
    ∀ issued ∈ issues host calls db, issued.Good host ↔ issued.Fits host := by
  induction calls generalizing db with
  | nil =>
      intro issued member
      cases member
  | cons call calls ih =>
      intro issued member
      cases call with
      | stop => exact ih _ issued member
      | serve arguments world =>
          rcases List.mem_append.mp member with now | later
          · exact good_iff_fits lawful (Option.mem_toList.mp now)
          · exact ih _ issued later

end Calls

/-! ## A token that is not rotated -/

/-- Serve under a token, stop, and serve again under a new token. -/
def rotation : List (Call Unit) :=
  [.serve { token := "old".toList } soleWorld, .stop,
    .serve { token := "new".toList } soleWorld]

/-- Both calls issue a ticket, with the token each was given; the server accepts
the first one both times. -/
theorem tickets_rotation :
    (issues soleHost rotation {}).map (fun issued =>
        (issued.after.servers (soleHost.address issued.arguments.target),
          (Peer.parseTicket soleHost.iroh soleHost.codec issued.ticket).toOption)) =
      [(some "old".toList, some ⟨soleId, "https://relay.example/".toList, "old".toList⟩),
        (some "old".toList, some ⟨soleId, "https://relay.example/".toList, "new".toList⟩)] := by
  decide +kernel

/-- After the rotation the server accepts the old token, and the new ticket does
not carry it. -/
theorem not_good_rotation : ¬ ∀ issued ∈ issues soleHost rotation {}, issued.Good soleHost := by
  intro good
  have last : (some "old".toList,
      some (Peer.mk soleId "https://relay.example/".toList "new".toList)) ∈
        (issues soleHost rotation {}).map (fun issued =>
          (issued.after.servers (soleHost.address issued.arguments.target),
            (Peer.parseTicket soleHost.iroh soleHost.codec issued.ticket).toOption)) := by
    rw [tickets_rotation]
    exact List.mem_cons_of_mem _ List.mem_cons_self
  rcases List.mem_map.mp last with ⟨issued, member, told⟩
  rcases Prod.mk.inj told with ⟨listening, read⟩
  rcases good issued member with ⟨accepted, found, peer, parsed, carried⟩
  rw [listening] at found
  rw [parsed] at read
  rw [← Option.some.inj found, Option.some.inj read] at carried
  revert carried
  decide

/-- The law of the first ticket of this rotation, whose server comes up. -/
theorem good_iff_fits_rotation :
    ∃ issued ∈ issues soleHost rotation {}, (issued.Good soleHost ↔ issued.Fits soleHost) ∧
      issued.after.servers (soleHost.address issued.arguments.target) = some "old".toList := by
  have first : (some "old".toList,
      some (Peer.mk soleId "https://relay.example/".toList "old".toList)) ∈
        (issues soleHost rotation {}).map (fun issued =>
          (issued.after.servers (soleHost.address issued.arguments.target),
            (Peer.parseTicket soleHost.iroh soleHost.codec issued.ticket).toOption)) := by
    rw [tickets_rotation]
    exact List.mem_cons_self
  rcases List.mem_map.mp first with ⟨issued, member, told⟩
  exact ⟨issued, member, good_iff_fits_of_mem lawful_soleHost rotation {} issued member,
    (Prod.mk.inj told).1⟩

end Quackhole.Extension
