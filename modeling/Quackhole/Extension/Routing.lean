import Quackhole.Ticket.Address
import Quackhole.Ticket.Interface

/-!
# Which HTTP util a host goes to

The extension wraps the HTTP util of the database, and wraps again whatever another
extension puts in its place.  However often that happens, an `.iroh` host goes to the
extension once the load is over, and every other host goes where it would go on a database
that had loaded httpfs then and never the extension.
-/

namespace Quackhole.Extension.Routing

open Quackhole.Word Quackhole.Ticket

/-- `ExtractEndpointId`: empty if there is none, or if it does not fit its buffer. -/
def extractEndpointId (protoHostPort : Text) : Text :=
  ((Peer.parseAddress (untilNul protoHostPort)).bind fun id =>
    (writeStrOrErr endpointIdLen id).toOption).getD []

/-- `IsIrohHost`. -/
def isIrohHost (protoHostPort : Text) : Bool :=
  !(extractEndpointId protoHostPort).isEmpty

def ownName : Text :=
  "Quackhole".toList

/-- An HTTP util of DuckDB or of another extension, which has a name of its own.  One
that wraps another has clients for some hosts. -/
structure Foreign where
  name : Text
  takes : Text → Bool
  named : name ≠ ownName

/-- What is in the slot for the HTTP util, with what it wraps. -/
inductive Util where
  | base (foreign : Foreign)
  | layer (foreign : Foreign) (prev : Util)
  /-- `QuackholeHTTPUtil`. -/
  | quackhole (prev : Util)

/-- Whose a client is. -/
inductive Owner where
  | own
  | foreign (util : Foreign)

structure Client where
  owner : Owner
  /-- `GetBaseUrl`. -/
  baseUrl : Text

namespace Util

/-- `GetName`. -/
def getName : Util → Text
  | base foreign | layer foreign _ => foreign.name
  | quackhole _ => ownName

/-- `InitializeClient`, where the endpoint can be bound. -/
def initializeClient : Util → Text → Client
  | base foreign, host => ⟨.foreign foreign, host⟩
  | layer foreign prev, host =>
      if foreign.takes host then ⟨.foreign foreign, host⟩ else prev.initializeClient host
  | quackhole prev, host =>
      if ¬ isIrohHost host then prev.initializeClient host else ⟨.own, host⟩

/-- `CloseClient`: the util that gets the client to keep or to close.  The extension
drops its own. -/
def closeClient : Util → Option Client → Option Foreign
  | base foreign, _ => some foreign
  | layer foreign prev, client =>
      if (client.map fun client => foreign.takes client.baseUrl).getD false then some foreign
      else prev.closeClient client
  | quackhole prev, client =>
      if (client.map fun client => isIrohHost client.baseUrl).getD false then none
      else prev.closeClient client

/-- `RearmQuackholeHTTPUtil`. -/
def rearm (util : Util) : Util :=
  if util.getName = ownName then util else quackhole util

/-- Without the layers of the extension. -/
def bare : Util → Util
  | base foreign => base foreign
  | layer foreign prev => layer foreign prev.bare
  | quackhole prev => prev.bare

theorem bare_rearm (util : Util) : util.rearm.bare = util.bare := by
  rw [rearm]
  split <;> rfl

/-- Once it is armed, the extension is on top. -/
theorem exists_rearm (util : Util) : ∃ prev, util.rearm = quackhole prev := by
  cases util with
  | base foreign => exact ⟨_, if_neg foreign.named⟩
  | layer foreign prev => exact ⟨_, if_neg foreign.named⟩
  | quackhole prev => exact ⟨prev, if_pos rfl⟩

section Other

variable {host : Text} (other : isIrohHost host = false)

include other

/-- The layers of the extension do not matter to a host of another kind. -/
theorem initializeClient_bare (util : Util) :
    util.bare.initializeClient host = util.initializeClient host := by
  induction util with
  | base foreign => rfl
  | layer foreign prev ih => rw [bare, initializeClient, initializeClient, ih]
  | quackhole prev ih => rw [bare, initializeClient, ih, other, if_pos Bool.false_ne_true]

/-- Nor do they to its client. -/
theorem closeClient_bare (util : Util) (owner : Owner) :
    util.bare.closeClient (some ⟨owner, host⟩) = util.closeClient (some ⟨owner, host⟩) := by
  induction util with
  | base foreign => rfl
  | layer foreign prev ih => rw [bare, closeClient, closeClient, ih]
  | quackhole prev ih =>
      rw [bare, closeClient, ih, if_neg]
      simp [other]

end Other

/-- Nor to no client. -/
theorem closeClient_bare_none (util : Util) : util.bare.closeClient none = util.closeClient none := by
  induction util with
  | base foreign => rfl
  | layer foreign prev ih => rw [bare, closeClient, closeClient, ih]
  | quackhole prev ih => rw [bare, closeClient, ih, if_neg (by simp)]

end Util

/-- What happens to the slot. -/
inductive Event where
  /-- `SetHTTPUtil`, while an extension is being loaded. -/
  | install (foreign : Foreign)
  /-- The same with a util that wraps the one it finds. -/
  | wrap (foreign : Foreign)
  /-- An extension has finished loading. -/
  | loaded (name : Text)
  /-- `LoadInternal` of this extension, which makes DuckDB load httpfs first unless it is
  loaded or cannot be. -/
  | load (httpfs : Option Foreign)

structure Config where
  util : Util
  /-- `QuackholeExtensionCallback` is registered. -/
  callback : Bool
  /-- A util was installed by an extension that has not finished loading. -/
  loading : Bool

namespace Config

variable (config : Config)

/-- `OnExtensionLoaded` of the callback, if it is registered. -/
def onExtensionLoaded (name : Text) : Config :=
  if ¬ config.callback then { config with loading := false }
  else if name = "quackhole".toList then config
  else { config with util := config.util.rearm, loading := false }

/-- `TryAutoLoadExtension`. -/
def tryAutoLoad : Option Foreign → Config
  | none => config
  | some httpfs => { config with util := .base httpfs }.onExtensionLoaded "httpfs".toList

/-- One event. -/
def step : Event → Config
  | .install foreign => { config with util := .base foreign, loading := true }
  | .wrap foreign => { config with util := .layer foreign config.util, loading := true }
  | .loaded name => config.onExtensionLoaded name
  | .load httpfs =>
      { util := (config.tryAutoLoad httpfs).util.rearm, callback := true, loading := false }

/-- The extension is loaded, and no other one is being loaded. -/
def Armed : Prop :=
  config.callback = true ∧ config.loading = false

end Config

/-- The same event on a database that does not have the extension, and loads httpfs itself where
the extension would have made it do so. -/
def stepHttpfs (util : Util) : Event → Util
  | .install foreign => .base foreign
  | .wrap foreign => .layer foreign util
  | .loaded _ => util
  | .load httpfs => (httpfs.map Util.base).getD util

/-- The util is, without the layers of the extension, what it would be on the other database; and
the extension is on top when it is armed. -/
structure Config.Follows (config : Config) (other : Util) : Prop where
  bare : config.util.bare = other
  top : config.Armed → ∃ prev, config.util = .quackhole prev

namespace Config.Follows

variable {config : Config} {other : Util}

theorem onExtensionLoaded (follows : config.Follows other) (name : Text) :
    (config.onExtensionLoaded name).Follows other := by
  rw [Config.onExtensionLoaded]
  split
  · rename_i unregistered
    exact ⟨follows.bare, fun armed => absurd armed.1 unregistered⟩
  · split
    · exact follows
    · exact ⟨(Util.bare_rearm _).trans follows.bare, fun _ => Util.exists_rearm _⟩

theorem step (follows : config.Follows other) (event : Event) :
    (config.step event).Follows (stepHttpfs other event) := by
  cases event with
  | install foreign => exact ⟨rfl, fun armed => Bool.noConfusion armed.2⟩
  | wrap foreign =>
      exact ⟨congrArg (Util.layer foreign) follows.bare, fun armed => Bool.noConfusion armed.2⟩
  | loaded name => exact follows.onExtensionLoaded name
  | load httpfs =>
      have loaded : (config.tryAutoLoad httpfs).util.bare =
          (httpfs.map Util.base).getD other := by
        cases httpfs with
        | none => exact follows.bare
        | some httpfs =>
            rw [Config.tryAutoLoad, Config.onExtensionLoaded]
            split
            · rfl
            · rw [if_neg (by decide)]
              exact Util.bare_rearm _
      exact ⟨(Util.bare_rearm _).trans loaded, fun _ => Util.exists_rearm _⟩

theorem foldl (follows : config.Follows other) (events : List Event) :
    (events.foldl Config.step config).Follows (events.foldl stepHttpfs other) := by
  induction events generalizing config other with
  | nil => exact follows
  | cons event events ih => exact ih (follows.step event)

end Config.Follows

/-- Hosts that are not `.iroh` hosts are served, at any time, as on a database that has only
loaded httpfs where the extension would have it loaded; and an `.iroh` host is served by the
extension, to the end of its client, whenever no other extension is being loaded. -/
theorem routes_of_loads (foreign : Foreign) (events : List Event) :
    let config := events.foldl Config.step ⟨.base foreign, false, false⟩
    let other := events.foldl stepHttpfs (.base foreign)
    (∀ host, isIrohHost host = false →
      config.util.initializeClient host = other.initializeClient host ∧
        ∀ owner, config.util.closeClient (some ⟨owner, host⟩) =
          other.closeClient (some ⟨owner, host⟩)) ∧
    config.util.closeClient none = other.closeClient none ∧
    (config.Armed → ∀ host, isIrohHost host = true →
      config.util.initializeClient host = ⟨.own, host⟩ ∧
        ∀ owner, config.util.closeClient (some ⟨owner, host⟩) = none) := by
  have initial : Config.Follows ⟨.base foreign, false, false⟩ (.base foreign) :=
    ⟨rfl, fun armed => Bool.noConfusion armed.1⟩
  have follows := initial.foldl events
  intro config other
  refine ⟨?_, ?_, ?_⟩
  · intro host foreignHost
    have same : config.util.bare = other := follows.bare
    rw [← same, Util.initializeClient_bare foreignHost]
    exact ⟨rfl, fun owner => (Util.closeClient_bare foreignHost config.util owner).symm⟩
  · have same : config.util.bare = other := follows.bare
    rw [← same, Util.closeClient_bare_none]
  · intro armed host iroh
    obtain ⟨prev, top⟩ := follows.top armed
    have util : config.util = .quackhole prev := top
    rw [util, Util.initializeClient, iroh]
    refine ⟨if_neg (not_not_intro rfl), fun owner => ?_⟩
    exact if_pos iroh

end Quackhole.Extension.Routing
