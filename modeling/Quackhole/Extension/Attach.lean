import Quackhole.Extension.State

/-!
# Attaching a peer

`quackhole_attach` files the token of a ticket under the name and the address of
its peer and attaches the peer.  When the attaching fails it drops the secret
again.  Dropping by name is not restoring: what the secret replaced is gone.
-/

namespace Quackhole.Extension

open Quackhole.Word Quackhole.Ticket Quackhole.Transition

/-- `QuackholeAttachBindData`. -/
structure AttachArguments where
  ticket : Text
  name : Text := "remote".toList

/-- The row `quackhole_attach` returns. -/
structure AttachRow where
  name : Text
  endpointId : Text
  relayUrl : Text

/-- A peer with its spellings, as `quackhole_attach` is about to use them. -/
structure Target where
  peer : Peer
  address : Text
  secretName : Text

/-- The secrets and the attached catalogs. -/
def Database.holdings {Id Address : Type} (db : Database Id Address) :
    (Text → Option Secret) × (Text → Option Text) :=
  (db.secrets, db.catalogs)

section Statements

variable {Id Address : Type}

/-- `CREATE OR REPLACE SECRET`. -/
def Database.putSecret (db : Database Id Address) (name : Text) (secret : Secret) :
    Database Id Address :=
  { db with secrets := Function.update db.secrets name (some secret) }

/-- `DROP SECRET IF EXISTS`. -/
def Database.dropSecret (db : Database Id Address) (name : Text) : Database Id Address :=
  { db with secrets := Function.update db.secrets name none }

/-- `ATTACH`, which fails under a name that is taken. -/
def attachStatement (world : Surroundings Id) (address name : Text) (db : Database Id Address) :
    Except String Unit × Database Id Address :=
  match db.catalogs name, world.attach with
  | some _, _ => (.error "a database of that name already exists", db)
  | none, .error err => (.error err, db)
  | none, .ok () =>
      (.ok (), { db with catalogs := Function.update db.catalogs name (some address) })

end Statements

section Calls

variable {Id Url Address : Type} [DecidableEq Id]
variable (host : Host Id Url Address) (world : Surroundings Id)

/-- The fields of the ticket. -/
def parsedTicket (arguments : AttachArguments) : Except Exception Peer :=
  (qhTicketParse host.iroh host.codec arguments.ticket endpointIdLen relayUrlLen
    tokenLen).mapError fun err => .invalidInput ("quackhole_attach: " ++ err)

/-- The relay to register for a peer, or to forget if there is none. -/
def peerRelay (endpointId relayUrl : Text) : Except String (Id × Option Text) :=
  (host.iroh.parseEndpointId (untilNul endpointId)).bind fun id =>
    let relay := trim (untilNul relayUrl)
    if relay.isEmpty then .ok (id, none)
    else (host.iroh.parseRelayUrl relay).map fun _ => (id, some relay)

/-- `qh_peer_relay_set`. -/
def setPeerRelay (core : Option (Core Id)) (endpointId relayUrl : Text) :
    Except String (Core Id) :=
  match core with
  | none => .error "null quackhole core"
  | some core =>
      (peerRelay host endpointId relayUrl).map fun registered =>
        { core with relays := Function.update core.relays registered.1 registered.2 }

/-- Register the relay of a peer. -/
def registerRelay (peer : Peer) : Action Id Address Unit := do
  let db ← Effect.get
  let core ← Effect.lift <| (setPeerRelay host db.core peer.endpointId peer.relayUrl).mapError
    fun err => .invalidInput ("quackhole_attach: " ++ err)
  Effect.modify fun db => { db with core := some core }

/-- `PeerAddress`. -/
def peerAddress (endpointId : Text) : Except Exception Text :=
  (qhPeerAddress host.iroh endpointId addressLen).mapError
    fun err => .internal ("quackhole: " ++ err)

/-- `PeerSecretName`. -/
def peerSecretName (endpointId : Text) : Except Exception Text :=
  (qhPeerSecretName host.iroh endpointId secretNameLen).mapError
    fun err => .internal ("quackhole: " ++ err)

/-- Everything before the first statement. -/
def prepare (arguments : AttachArguments) : Action Id Address Target := do
  let peer ← Effect.lift (parsedTicket host arguments)
  getOrCreateCoreFromSettings host world
  registerRelay host peer
  let address ← Effect.lift (peerAddress host peer.endpointId)
  let secretName ← Effect.lift (peerSecretName host peer.endpointId)
  pure ⟨peer, address, secretName⟩

/-- File the token of the ticket, if it carries one. -/
def fileToken (target : Target) : Action Id Address Unit :=
  if target.peer.token.isEmpty then pure ()
  else do
    Effect.lift <| world.createSecret.mapError
      fun err => .invalidInput ("quackhole_attach: could not create the secret: " ++ err)
    Effect.modify fun db =>
      db.putSecret target.secretName { token := target.peer.token, scope := target.address }

/-- Attach the peer, and take the secret back out if that fails. -/
def attachOrDrop (target : Target) (name : Text) : Action Id Address Unit := fun db =>
  match attachStatement world target.address name db with
  | (.ok (), db) => (.ok (), db)
  | (.error err, db) =>
      (.error (.invalidInput ("quackhole_attach: " ++ err)),
        if target.peer.token.isEmpty then db else db.dropSecret target.secretName)

/-- `QuackholeAttachFunction`. -/
def quackholeAttach (arguments : AttachArguments) : Action Id Address AttachRow := do
  let target ← prepare host world arguments
  fileToken world target
  attachOrDrop world target arguments.name
  pure ⟨arguments.name, target.peer.endpointId, target.peer.relayUrl⟩

/-- A call that gets as far as filing the token of its ticket, under the name of a
secret that is there already. -/
structure Replaces (arguments : AttachArguments) (db : Database Id Address) (target : Target) :
    Prop where
  parsed : parsedTicket host arguments = .ok target.peer
  bound : (getOrCreateCoreFromSettings host world db).1 = .ok ()
  relayed : ∃ registered, peerRelay host target.peer.endpointId target.peer.relayUrl =
    .ok registered
  addressed : peerAddress host target.peer.endpointId = .ok target.address
  named : peerSecretName host target.peer.endpointId = .ok target.secretName
  tokened : target.peer.token ≠ []
  created : world.createSecret = .ok ()
  present : db.secrets target.secretName ≠ none

end Calls

/-- Putting an entry and dropping it again restores a map exactly if there was no
entry before. -/
theorem update_update_none_eq_iff {α β : Type} [DecidableEq α] {map : α → Option β} {key : α}
    {value : β} :
    Function.update (Function.update map key (some value)) key none = map ↔ map key = none := by
  rw [Function.update_idem, Function.update_eq_iff]
  constructor
  · rintro ⟨absent, _⟩
    exact absent.symm
  · intro absent
    exact ⟨absent.symm, fun _ _ => rfl⟩

/-- A secret that is put and dropped leaves the secrets as they were exactly if its
name was free. -/
theorem secrets_dropSecret_putSecret_eq_iff {Id Address : Type} {db : Database Id Address}
    {name : Text} {secret : Secret} :
    ((db.putSecret name secret).dropSecret name).secrets = db.secrets ↔ db.secrets name = none :=
  update_update_none_eq_iff

section Calls

variable {Id Url Address : Type} [DecidableEq Id]
variable {host : Host Id Url Address} {world : Surroundings Id}

variable (host world) in
/-- Nothing before the first statement touches the secrets or the catalogs. -/
theorem keeps_prepare (arguments : AttachArguments) :
    Effect.Keeps (fun db : Database Id Address => db.holdings) (prepare host world arguments) := by
  have beside : BesideCore fun db : Database Id Address => db.holdings :=
    ⟨fun _ _ => rfl, fun _ _ => rfl⟩
  apply (Effect.keeps_lift _).bind
  intro peer
  apply (keeps_getOrCreateCoreFromSettings beside).bind
  intro _
  apply Effect.Keeps.bind
  · apply Effect.keeps_get.bind
    intro db
    apply (Effect.keeps_lift _).bind
    intro core
    exact Effect.keeps_modify fun db => beside.core db _
  intro _
  apply (Effect.keeps_lift _).bind
  intro address
  apply (Effect.keeps_lift _).bind
  intro secretName
  exact Effect.keeps_pure _

/-- Registering a relay asks nothing of a core but to be there. -/
theorem registerRelay_eq_ok_iff {peer : Peer} {db : Database Id Address} {core : Core Id}
    (there : db.core = some core) :
    (∃ after, registerRelay host peer db = (.ok (), after)) ↔
      ∃ registered, peerRelay host peer.endpointId peer.relayUrl = .ok registered := by
  rw [registerRelay, Effect.bind_of_ok (Effect.get_apply db), there, setPeerRelay]
  cases peerRelay host peer.endpointId peer.relayUrl with
  | error err =>
      constructor
      · rintro ⟨after, registered⟩
        cases registered
      · rintro ⟨registered, relayed⟩
        cases relayed
  | ok registered =>
      constructor
      · intro _
        exact ⟨registered, rfl⟩
      · intro _
        exact ⟨_, rfl⟩

/-- When a call gets through its preparation, and with which target. -/
theorem prepare_eq_ok_iff {arguments : AttachArguments} {db : Database Id Address}
    {target : Target} :
    (∃ middle, prepare host world arguments db = (.ok target, middle)) ↔
      parsedTicket host arguments = .ok target.peer ∧
        (getOrCreateCoreFromSettings host world db).1 = .ok () ∧
        (∃ registered, peerRelay host target.peer.endpointId target.peer.relayUrl =
          .ok registered) ∧
        peerAddress host target.peer.endpointId = .ok target.address ∧
        peerSecretName host target.peer.endpointId = .ok target.secretName := by
  simp only [prepare, Effect.bind_eq_ok, Effect.lift_eq_ok, Effect.pure_eq_ok]
  constructor
  · rintro ⟨_, peer, _, ⟨parsed, rfl⟩, _, left, bound, _, _, registered, _, _, ⟨addressed, rfl⟩,
      _, _, ⟨named, rfl⟩, rfl, rfl⟩
    rcases core_of_getOrCreateCoreFromSettings bound with ⟨core, there⟩
    exact ⟨parsed, congrArg Prod.fst bound, (registerRelay_eq_ok_iff there).mp ⟨_, registered⟩,
      addressed, named⟩
  · rintro ⟨parsed, bound, relayed, addressed, named⟩
    rcases ran : getOrCreateCoreFromSettings host world db with ⟨result, left⟩
    rw [ran] at bound
    cases bound
    rcases core_of_getOrCreateCoreFromSettings ran with ⟨core, there⟩
    rcases (registerRelay_eq_ok_iff there).mpr relayed with ⟨after, registered⟩
    exact ⟨after, target.peer, db, ⟨parsed, rfl⟩, (), left, ran, (), after, registered,
      target.address, after, ⟨addressed, rfl⟩, target.secretName, after, ⟨named, rfl⟩, rfl, rfl⟩

/-- A call replaces a secret if it is prepared, has a token to file and may file
it, and the name is in use. -/
theorem exists_replaces_iff {arguments : AttachArguments} {db : Database Id Address} :
    (∃ target, Replaces host world arguments db target) ↔
      ∃ target, (∃ middle, prepare host world arguments db = (.ok target, middle)) ∧
        target.peer.token ≠ [] ∧ world.createSecret = .ok () ∧
          db.secrets target.secretName ≠ none := by
  constructor
  · rintro ⟨target, replaces⟩
    exact ⟨target, prepare_eq_ok_iff.mpr ⟨replaces.parsed, replaces.bound, replaces.relayed,
      replaces.addressed, replaces.named⟩, replaces.tokened, replaces.created, replaces.present⟩
  · rintro ⟨target, prepared, tokened, created, present⟩
    rcases prepare_eq_ok_iff.mp prepared with ⟨parsed, bound, relayed, addressed, named⟩
    exact ⟨target, parsed, bound, relayed, addressed, named, tokened, created, present⟩

omit [DecidableEq Id] in
/-- A failing `ATTACH` changes nothing. -/
theorem attachStatement_eq_error {address name : Text} {db after : Database Id Address}
    {err : String} (failed : attachStatement world address name db = (.error err, after)) :
    after = db := by
  rw [attachStatement] at failed
  split at failed
  · exact (Prod.mk.inj failed).2.symm
  · exact (Prod.mk.inj failed).2.symm
  · cases failed

omit [DecidableEq Id] in
/-- What a call leaves behind that attaches and fails: the database without the
secret of the peer, if it had a token to file. -/
theorem attachOrDrop_eq_error {target : Target} {name : Text} {db after : Database Id Address}
    {error : Exception} (thrown : attachOrDrop world target name db = (.error error, after)) :
    after = if target.peer.token.isEmpty then db else db.dropSecret target.secretName := by
  rw [attachOrDrop] at thrown
  split at thrown
  · cases thrown
  · rename_i err left failed
    rw [attachStatement_eq_error failed] at thrown
    exact (Prod.mk.inj thrown).2.symm

omit [DecidableEq Id] in
/-- The same of the call as it ends, with the row it would have returned. -/
theorem of_attaching_thrown {target : Target} {name : Text} {row : AttachRow}
    {db after : Database Id Address} {error : Exception}
    (thrown : (attachOrDrop world target name >>= fun _ => pure row) db = (.error error, after)) :
    after = if target.peer.token.isEmpty then db else db.dropSecret target.secretName := by
  rcases ran : attachOrDrop world target name db with ⟨error' | _, left⟩
  · rw [Effect.bind_of_error ran] at thrown
    rw [← (Prod.mk.inj thrown).2, attachOrDrop_eq_error ran]
  · rw [Effect.bind_of_ok ran] at thrown
    cases thrown

/-- A prepared call that throws: either there was no token to file, or it could
not be filed, or the `ATTACH` failed after it was. -/
theorem of_thrown {arguments : AttachArguments} {target : Target}
    {db middle after : Database Id Address} {error : Exception}
    (prepared : prepare host world arguments db = (.ok target, middle))
    (thrown : quackholeAttach host world arguments db = (.error error, after)) :
    after = middle ∧ (target.peer.token = [] ∨ world.createSecret ≠ .ok ()) ∨
      target.peer.token ≠ [] ∧ world.createSecret = .ok () ∧
        after = (middle.putSecret target.secretName
          { token := target.peer.token, scope := target.address }).dropSecret target.secretName := by
  rw [quackholeAttach, Effect.bind_of_ok prepared] at thrown
  by_cases tokenless : target.peer.token = []
  · have filed : fileToken world target middle = (.ok (), middle) := by
      rw [fileToken, tokenless]
      rfl
    rw [Effect.bind_of_ok filed] at thrown
    have left := of_attaching_thrown thrown
    rw [tokenless] at left
    exact Or.inl ⟨left, Or.inl tokenless⟩
  · have carried : target.peer.token.isEmpty = false := by
      rw [List.isEmpty_eq_false_iff]
      exact tokenless
    cases answer : world.createSecret with
    | error err =>
        have refused : fileToken world target middle = (.error (.invalidInput
            ("quackhole_attach: could not create the secret: " ++ err)), middle) := by
          rw [fileToken, carried, answer]
          rfl
        rw [Effect.bind_of_error refused] at thrown
        exact Or.inl ⟨(Prod.mk.inj thrown).2.symm, Or.inr nofun⟩
    | ok created =>
        have filed : fileToken world target middle = (.ok (), middle.putSecret target.secretName
            { token := target.peer.token, scope := target.address }) := by
          rw [fileToken, carried, answer]
          rfl
        rw [Effect.bind_of_ok filed] at thrown
        have left := of_attaching_thrown thrown
        rw [carried] at left
        exact Or.inr ⟨tokenless, rfl, left⟩

/-- A call that throws before its first statement leaves everything as it was. -/
theorem holdings_of_unprepared {arguments : AttachArguments} {db middle after : Database Id Address}
    {refused error : Exception}
    (unprepared : prepare host world arguments db = (.error refused, middle))
    (thrown : quackholeAttach host world arguments db = (.error error, after)) :
    after.secrets = db.secrets ∧ after.catalogs = db.catalogs := by
  have kept := keeps_prepare host world arguments db
  rw [quackholeAttach, Effect.bind_of_error unprepared] at thrown
  rw [unprepared] at kept
  rw [← (Prod.mk.inj thrown).2]
  exact Prod.mk.inj kept

/-- Whether a prepared call replaces a secret is a question about its own target. -/
theorem exists_replaces_iff_of_prepared {arguments : AttachArguments} {target : Target}
    {db middle : Database Id Address}
    (prepared : prepare host world arguments db = (.ok target, middle)) :
    (∃ target, Replaces host world arguments db target) ↔
      target.peer.token ≠ [] ∧ world.createSecret = .ok () ∧
        db.secrets target.secretName ≠ none := by
  rw [exists_replaces_iff, prepared]
  constructor
  · rintro ⟨_, ⟨_, same⟩, replaced⟩
    rwa [Except.ok.inj (Prod.mk.inj same).1]
  · intro replaced
    exact ⟨target, ⟨middle, rfl⟩, replaced⟩

/-- A call that throws leaves the secrets and the catalogs as they were exactly if
it did not replace a secret. -/
theorem holdings_eq_iff {arguments : AttachArguments} {db after : Database Id Address}
    {error : Exception}
    (thrown : quackholeAttach host world arguments db = (.error error, after)) :
    after.secrets = db.secrets ∧ after.catalogs = db.catalogs ↔
      ¬ ∃ target, Replaces host world arguments db target := by
  rcases prepared : prepare host world arguments db with ⟨refused | target, middle⟩
  · constructor
    · rintro _ ⟨target, replaces⟩
      rcases exists_replaces_iff.mp ⟨target, replaces⟩ with ⟨_, ⟨_, returned⟩, _⟩
      rw [prepared] at returned
      cases returned
    · intro _
      exact holdings_of_unprepared prepared thrown
  · have kept := keeps_prepare host world arguments db
    rw [prepared] at kept
    rcases Prod.mk.inj kept with ⟨secrets, catalogs⟩
    rw [exists_replaces_iff_of_prepared prepared]
    rcases of_thrown prepared thrown with ⟨rfl, unfiled⟩ | ⟨tokened, created, rfl⟩
    · -- No secret was written.
      constructor
      · rintro _ ⟨tokened, created, _⟩
        rcases unfiled with tokenless | refused
        · exact tokened tokenless
        · exact refused created
      · intro _
        exact ⟨secrets, catalogs⟩
    · -- The secret was written and dropped.
      rw [← secrets, secrets_dropSecret_putSecret_eq_iff]
      constructor
      · rintro ⟨absent, _⟩ ⟨_, _, present⟩
        exact present absent
      · intro spared
        refine ⟨?_, catalogs⟩
        by_contra present
        exact spared ⟨tokened, created, present⟩

end Calls

/-! ## Attaching a peer twice -/

/-- A ticket for the endpoint of the sole host. -/
def soleTicket : Text :=
  ("qh1_eyJlIjoiZXQ4dTZ3c3l6N3FpcW0xcGI1cTN6Z255NDNvcm80Z2JyOHJrZmRrc2twdHM3bXRtZWh3eSIsInIiOi" ++
    "JodHRwczovL3JlbGF5LmV4YW1wbGUvIiwidCI6InRva2VuIn0").toList

/-- Attach the sole peer under the default name. -/
def attachSole : Action Unit Text AttachRow :=
  quackholeAttach soleHost soleWorld { ticket := soleTicket }

/-- The database in which the peer is attached. -/
def attachedOnce : Database Unit Text :=
  (attachSole {}).2

/-- The first call files the token of the peer. -/
theorem secret_attachedOnce :
    attachedOnce.secrets (secretMarker ++ soleId) =
      some ⟨"token".toList, "quack:".toList ++ soleId ++ ".iroh:9494".toList⟩ := by
  decide +kernel

/-- The second call throws, since the name is taken, and the token is gone. -/
theorem attachSole_attachedOnce :
    ∃ error after, attachSole attachedOnce = (.error error, after) ∧
      after.secrets (secretMarker ++ soleId) = none := by
  have told : (attachSole attachedOnce).1.isOk = false ∧
      (attachSole attachedOnce).2.secrets (secretMarker ++ soleId) = none := by
    decide +kernel
  rcases told with ⟨failed, gone⟩
  rcases ran : attachSole attachedOnce with ⟨error | row, after⟩
  · rw [ran] at gone
    exact ⟨error, after, rfl, gone⟩
  · rw [ran] at failed
    cases failed

/-- Attaching a peer again under a name that is taken loses the secret of the first
attachment. -/
theorem not_kept_attachSole :
    ¬ ∀ (error : Exception) (after : Database Unit Text),
      attachSole attachedOnce = (.error error, after) →
        after.secrets = attachedOnce.secrets ∧ after.catalogs = attachedOnce.catalogs := by
  intro kept
  rcases attachSole_attachedOnce with ⟨error, after, thrown, gone⟩
  have same := congrFun (kept error after thrown).1 (secretMarker ++ soleId)
  rw [gone, secret_attachedOnce] at same
  cases same

/-- The law of the second call. -/
theorem holdings_eq_iff_attachSole :
    ∃ error after, attachSole attachedOnce = (.error error, after) ∧
      (after.secrets = attachedOnce.secrets ∧ after.catalogs = attachedOnce.catalogs ↔
        ¬ ∃ target, Replaces soleHost soleWorld { ticket := soleTicket } attachedOnce target) := by
  rcases attachSole_attachedOnce with ⟨error, after, thrown, _⟩
  exact ⟨error, after, thrown, holdings_eq_iff thrown⟩

end Quackhole.Extension
