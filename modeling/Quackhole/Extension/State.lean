import Quackhole.Ticket.Interface
import Quackhole.Transition.Effect
import Mathlib.Logic.Function.Basic

/-!
# The state of the extension

What one database holds for the extension: the core with its bound endpoint,
the Quack servers of the database, its secrets and its attached catalogs.  The
endpoint is bound at most once.  What iroh, DuckDB and Quack answer during one
call is part of the call.
-/

namespace Quackhole.Extension

open Quackhole.Word Quackhole.Ticket Quackhole.Transition

/-- The exceptions the extension throws. -/
inductive Exception where
  | invalidInput (message : String)
  | io (message : String)
  | internal (message : String)

/-- The code outside the extension and its core: iroh, the ticket codecs, the
reader of socket addresses, and the address a Quack server listens on when it is
given a target. -/
structure Host (Id Url Address : Type) where
  iroh : Iroh Id Url
  codec : TicketCodec
  isSocketAddr : Text → Bool
  address : Text → Address

/-- What is assumed of the code outside. -/
structure Host.Lawful {Id Url Address : Type} (host : Host Id Url Address) : Prop where
  iroh : host.iroh.Lawful
  codec : host.codec.Lawful

/-- The core: a bound endpoint, the accept loop if one was started and not
stopped, and the relays registered for peers. -/
structure Core (Id : Type) where
  endpointId : Id
  serving : Bool := false
  relays : Id → Option Text := fun _ => none

/-- A Quack secret. -/
structure Secret where
  token : Text
  scope : Text
deriving DecidableEq

/-- One database. -/
structure Database (Id Address : Type) where
  /-- The core, once an endpoint is bound. -/
  core : Option (Core Id) := none
  /-- The normalised relay list the endpoint was bound with. -/
  boundRelays : Text := []
  /-- The token each listening Quack server accepts. -/
  servers : Address → Option Text := fun _ => none
  /-- The secrets by name. -/
  secrets : Text → Option Secret := fun _ => none
  /-- The attached catalogs by name, with the address each was attached from. -/
  catalogs : Text → Option Text := fun _ => none

/-- A Quack server comes up. -/
def Database.listen {Id Address : Type} [DecidableEq Address] (db : Database Id Address)
    (place : Address) (token : Text) : Database Id Address :=
  { db with servers := Function.update db.servers place (some token) }

section Listen

variable {Id Address : Type} [DecidableEq Address] (db : Database Id Address)

@[simp]
theorem Database.servers_listen_self (place : Address) (token : Text) :
    (db.listen place token).servers place = some token :=
  Function.update_self ..

theorem Database.servers_listen_of_ne {place other : Address} (different : other ≠ place)
    (token : Text) : (db.listen place token).servers other = db.servers other :=
  Function.update_of_ne different ..

end Listen

/-- The settings of the extension, empty where they are not set. -/
structure Settings where
  relays : Text := []
  ephemeral : Bool := false
  keyPath : Text := []
  workbenchUrl : Option Text := none

/-- The settings during one call, and what the call is answered. -/
structure Surroundings (Id : Type) where
  settings : Settings := {}
  /-- The home directory. -/
  home : Text := []
  /-- `qh_core_new`, given the key path, whether the key is throwaway, and the
  relay list. -/
  coreNew : Option Text → Bool → Text → Except String Id
  /-- `CALL quack_serve` on an address that is free: the token Quack picks when
  it is given none. -/
  quackServe : Except String Text
  /-- The home relay that is known when the wait is over. -/
  homeRelay : Text := []
  /-- `CREATE OR REPLACE SECRET`. -/
  createSecret : Except String Unit := .ok ()
  /-- `ATTACH`, under a name that is free. -/
  attach : Except String Unit := .ok ()

/-- The printed id of an endpoint. -/
def soleId : Text :=
  "et8u6wsyz7qiqm1pb5q3zgny43oro4gbr8rkfdkskpts7mtmehwy".toList

/-- A host with one endpoint and one socket address. -/
def soleHost : Host Unit Text Text where
  iroh :=
    { fromStr := fun _ => none
      fromZ32 := fun text => if text = soleId then some () else none
      toZ32 := fun _ => soleId
      parseUrl := some
      scheme := fun url => url.takeWhile (· ≠ ':')
      urlText := fun url => url }
  codec := .json
  isSocketAddr target := target == "127.0.0.1:9494".toList
  address target := target

theorem lawful_soleHost : soleHost.Lawful where
  iroh :=
    { fromZ32_toZ32 := fun _ => rfl
      solid_toZ32 := fun _ => (by decide +kernel : Solid soleId)
      nul_notMem_toZ32 := fun _ => (by decide +kernel : '\x00' ∉ soleId)
      toZ32_ne_nil := fun _ => (by decide +kernel : soleId ≠ []) }
  codec := TicketCodec.lawful_json

/-- Everything the calls ask for is granted. -/
def soleWorld : Surroundings Unit where
  home := "/home/duck".toList
  coreNew _ _ _ := .ok ()
  quackServe := .ok "picked".toList
  homeRelay := "https://relay.example/".toList

/-- A function of the extension, run on a database. -/
abbrev Action (Id Address α : Type) := Effect (Database Id Address) Exception α

variable {Id Url Address : Type} (host : Host Id Url Address) (world : Surroundings Id)

/-- `QuackholeState::NormalizeRelays`. -/
def normalizeRelays (relays : Text) : Except Exception Text :=
  ((host.iroh.normalizeRelays (untilNul relays)).bind (writeStrOrErr (relayUrlLen * 4))).mapError
    fun err => .invalidInput ("quackhole: " ++ err)

/-- `QuackholeState::DefaultKeyPath`. -/
def defaultKeyPath : Except Exception Text :=
  if world.home.isEmpty then
    .error (.io ("Could not determine a home directory for the quackhole endpoint key; " ++
      "pass ephemeral := true or set a key path explicitly"))
  else .ok (world.home ++ "/.quackhole/key".toList)

/-- Bind the endpoint.  The core stays when the relay list does not normalise. -/
def bindCore (keyPath : Text) (ephemeral : Bool) (relays : Text) : Action Id Address Unit := do
  let endpointId ← Effect.lift <|
    (world.coreNew (if ephemeral then none else some keyPath) ephemeral relays).mapError
      fun err => .io ("Failed to start quackhole endpoint: " ++ err)
  Effect.modify fun db => { db with core := some { endpointId := endpointId } }
  let bound ← Effect.lift (normalizeRelays host relays)
  Effect.modify fun db => { db with boundRelays := bound }

/-- `QuackholeState::GetOrCreateCore`. -/
def getOrCreateCore (keyPath : Text) (ephemeral : Bool) (relays : Text) :
    Action Id Address Unit := do
  let db ← Effect.get
  if db.core.isSome then pure () else bindCore host world keyPath ephemeral relays

/-- `QuackholeState::GetOrCreateCoreFromSettings`. -/
def getOrCreateCoreFromSettings : Action Id Address Unit := do
  let keyPath ← Effect.lift <|
    if world.settings.keyPath.isEmpty then defaultKeyPath world else .ok world.settings.keyPath
  getOrCreateCore host world keyPath world.settings.ephemeral world.settings.relays

/-- A view of the database that leaves out the core and what is known of it. -/
structure BesideCore {ν : Type} (view : Database Id Address → ν) : Prop where
  core : ∀ db core, view { db with core := core } = view db
  boundRelays : ∀ db relays, view { db with boundRelays := relays } = view db

variable {host world} in
/-- Once there is a core, it stays whether or not its relay list normalises. -/
theorem bindCore_of_coreNew {keyPath relays : Text} {ephemeral : Bool} {id : Id}
    (made : world.coreNew (if ephemeral then none else some keyPath) ephemeral relays = .ok id)
    (db : Database Id Address) :
    bindCore host world keyPath ephemeral relays db =
      match normalizeRelays host relays with
      | .error error => (.error error, { db with core := some { endpointId := id } })
      | .ok bound =>
          (.ok (), { db with core := some { endpointId := id }, boundRelays := bound }) := by
  have given : Effect.lift
      ((world.coreNew (if ephemeral then none else some keyPath) ephemeral relays).mapError
        fun err => Exception.io ("Failed to start quackhole endpoint: " ++ err)) db =
      (.ok id, db) := by
    rw [Effect.lift_apply, made]
    rfl
  rw [bindCore, Effect.bind_of_ok given, Effect.bind_of_ok (Effect.modify_apply _ db)]
  cases normal : normalizeRelays host relays with
  | error error => exact Effect.bind_of_error (Effect.lift_apply _ _) _
  | ok bound => exact Effect.bind_of_ok (Effect.lift_apply _ _) _

/-- What getting or creating the core comes to: the core that is there, a core
that cannot be made, one whose relay list does not normalise, or a new one. -/
theorem getOrCreateCore_cases (keyPath : Text) (ephemeral : Bool) (relays : Text)
    (db : Database Id Address) :
    (db.core.isSome = true ∧
      getOrCreateCore host world keyPath ephemeral relays db = (.ok (), db)) ∨
    (db.core = none ∧ ∃ err,
      world.coreNew (if ephemeral then none else some keyPath) ephemeral relays = .error err ∧
        getOrCreateCore host world keyPath ephemeral relays db =
          (.error (.io ("Failed to start quackhole endpoint: " ++ err)), db)) ∨
    (db.core = none ∧ ∃ id,
      world.coreNew (if ephemeral then none else some keyPath) ephemeral relays = .ok id ∧
        getOrCreateCore host world keyPath ephemeral relays db =
          match normalizeRelays host relays with
          | .error error => (.error error, { db with core := some { endpointId := id } })
          | .ok bound =>
              (.ok (), { db with core := some { endpointId := id }, boundRelays := bound })) := by
  rw [getOrCreateCore, Effect.bind_of_ok (Effect.get_apply db)]
  cases found : db.core with
  | some core => exact Or.inl ⟨rfl, rfl⟩
  | none =>
      right
      cases made : world.coreNew (if ephemeral then none else some keyPath) ephemeral relays with
      | error err =>
          refine Or.inl ⟨rfl, err, rfl, ?_⟩
          apply Effect.bind_of_error
          rw [Effect.lift_apply, made]
          rfl
      | ok id => exact Or.inr ⟨rfl, id, rfl, bindCore_of_coreNew made db⟩

variable {host world} in
/-- When the endpoint is bound there is a core. -/
theorem core_of_getOrCreateCore {keyPath relays : Text} {ephemeral : Bool}
    {db after : Database Id Address}
    (bound : getOrCreateCore host world keyPath ephemeral relays db = (.ok (), after)) :
    ∃ core, after.core = some core := by
  rcases getOrCreateCore_cases host world keyPath ephemeral relays db with
    ⟨there, ran⟩ | ⟨-, err, -, ran⟩ | ⟨-, id, -, ran⟩
  · cases ran.symm.trans bound
    exact Option.isSome_iff_exists.mp there
  · cases ran.symm.trans bound
  · rw [bound] at ran
    split at ran
    · cases ran
    · cases ran
      exact ⟨_, rfl⟩

variable {host world} in
theorem core_of_getOrCreateCoreFromSettings {db after : Database Id Address}
    (bound : getOrCreateCoreFromSettings host world db = (.ok (), after)) :
    ∃ core, after.core = some core := by
  rw [getOrCreateCoreFromSettings, Effect.bind_eq_ok] at bound
  rcases bound with ⟨_, _, _, bound⟩
  exact core_of_getOrCreateCore bound

section Keeps

variable {host world} {ν : Type} {view : Database Id Address → ν}

/-- Binding the endpoint changes the core only. -/
theorem keeps_getOrCreateCore (beside : BesideCore view) (keyPath : Text) (ephemeral : Bool)
    (relays : Text) : Effect.Keeps view (getOrCreateCore host world keyPath ephemeral relays) := by
  apply Effect.keeps_get.bind
  intro db
  apply Effect.Keeps.ite (Effect.keeps_pure ())
  apply (Effect.keeps_lift _).bind
  intro endpointId
  apply (Effect.keeps_modify fun db => beside.core db _).bind
  intro _
  apply (Effect.keeps_lift _).bind
  intro bound
  exact Effect.keeps_modify fun db => beside.boundRelays db _

theorem keeps_getOrCreateCoreFromSettings (beside : BesideCore view) :
    Effect.Keeps view (getOrCreateCoreFromSettings host world) := by
  apply (Effect.keeps_lift _).bind
  intro keyPath
  exact keeps_getOrCreateCore beside _ _ _

end Keeps

end Quackhole.Extension
