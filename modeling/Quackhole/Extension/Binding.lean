import Quackhole.Extension.State
import Quackhole.Transition.Labelled

/-!
# Binding the endpoint, once

A sequence of calls that bind the endpoint unless it is bound.  The relay list
is parsed when the core is made and written into a buffer of a fixed size
afterwards, when the core is already there.
-/

namespace Quackhole.Extension

open Quackhole.Word Quackhole.Ticket Quackhole.Transition

section Calls

variable {Id Url Address : Type} (host : Host Id Url Address)

/-- `Core::new`: the relay list is parsed before anything else.  The rest of it,
from the key file to the socket, is answered by `bind`. -/
def coreNew (bind : Option Text → Bool → Text → Except String Id) (keyPath : Option Text)
    (ephemeral : Bool) (relays : Text) : Except String Id :=
  (host.iroh.parseRelays (untilNul relays)).bind fun _ => bind keyPath ephemeral relays

/-- What is around a call that binds. -/
structure Site (Id : Type) where
  settings : Settings := {}
  home : Text := []
  /-- How binding goes for a relay list that parses. -/
  bind : Option Text → Bool → Text → Except String Id

/-- The surroundings of the call.  No Quack server is started by it. -/
def Site.world (site : Site Id) : Surroundings Id where
  settings := site.settings
  home := site.home
  coreNew := coreNew host site.bind
  quackServe := .error ""

/-- The two ways of asking for the core. -/
inductive Request where
  | direct (keyPath : Text) (ephemeral : Bool) (relays : Text)
  | fromSettings

/-- A call that asks for the core. -/
structure Attempt (Id : Type) where
  request : Request
  site : Site Id

namespace Attempt

variable (attempt : Attempt Id)

/-- The call. -/
def perform : Action Id Address Unit :=
  match attempt.request with
  | .direct keyPath ephemeral relays =>
      getOrCreateCore host (attempt.site.world host) keyPath ephemeral relays
  | .fromSettings => getOrCreateCoreFromSettings host (attempt.site.world host)

/-- The key path, whether the key is throwaway, and the relay list, unless the
key path cannot be told. -/
def arguments : Except Exception (Text × Bool × Text) :=
  match attempt.request with
  | .direct keyPath ephemeral relays => .ok (keyPath, ephemeral, relays)
  | .fromSettings =>
      (if attempt.site.settings.keyPath.isEmpty then defaultKeyPath (attempt.site.world host)
        else .ok attempt.site.settings.keyPath).map fun keyPath =>
          (keyPath, attempt.site.settings.ephemeral, attempt.site.settings.relays)

/-- The relay list the call binds with, if it comes to that. -/
def relays : Text :=
  match attempt.request with
  | .direct _ _ relays => relays
  | .fromSettings => attempt.site.settings.relays

end Attempt

/-- A database, and the relay list its core was created with. -/
structure Bound (Id Address : Type) where
  db : Database Id Address
  created : Option Text := none

namespace Bound

variable (state : Bound Id Address)

/-- A call, whether it returns or throws. -/
def call (attempt : Attempt Id) : Bound Id Address where
  db := (attempt.perform host state.db).2
  created :=
    if state.db.core.isNone && (attempt.perform host state.db).2.core.isSome then
      some attempt.relays
    else state.created

/-- A core that is bound has its list remembered in normal form. -/
def Remembers : Prop :=
  state.db.core.isSome = true →
    ∃ list, state.created = some list ∧ normalizeRelays host list = .ok state.db.boundRelays

/-- If the call throws, it leaves the database as it was. -/
def Kept (attempt : Attempt Id) : Prop :=
  ∀ error after, attempt.perform host state.db = (.error error, after) → after = state.db

/-- A list that binds has a normal form that fits the buffer it is written
into. -/
def Fits (attempt : Attempt Id) : Prop :=
  state.db.core = none → ∀ keyPath ephemeral relays id form,
    attempt.arguments host = .ok (keyPath, ephemeral, relays) →
      coreNew host attempt.site.bind (if ephemeral then none else some keyPath) ephemeral relays =
        .ok id →
      host.iroh.normalizeRelays (untilNul relays) = .ok form →
        (utf8 form).length < relayUrlLen * 4

/-- Every call is enabled. -/
def next : LStep (Attempt Id) (Bound Id Address) :=
  fun attempt state => some (state.call host attempt)

end Bound

/-! ## What a call does -/

variable {host}

/-- A list that the core was made with has a normal form, and normalising it
fails exactly when the form does not fit. -/
theorem normalizeRelays_of_coreNew {bind : Option Text → Bool → Text → Except String Id}
    {keyPath : Option Text} {ephemeral : Bool} {relays : Text} {id : Id}
    (made : coreNew host bind keyPath ephemeral relays = .ok id) :
    ∃ form, host.iroh.normalizeRelays (untilNul relays) = .ok form ∧
      (normalizeRelays host relays = .ok (untilNul form) ∧ (utf8 form).length < relayUrlLen * 4 ∨
        ∃ error, normalizeRelays host relays = .error error ∧
          ¬ (utf8 form).length < relayUrlLen * 4) := by
  rw [coreNew] at made
  cases parsed : host.iroh.parseRelays (untilNul relays) with
  | error reason =>
      rw [parsed] at made
      cases made
  | ok urls =>
      refine ⟨[','].intercalate (urls.map host.iroh.urlText), ?_, ?_⟩
      · rw [Iroh.normalizeRelays, parsed]
        rfl
      · rw [normalizeRelays, Iroh.normalizeRelays, parsed]
        simp only [Except.map, Except.bind, writeStrOrErr]
        split
        · rename_i long
          exact Or.inr ⟨_, rfl, by omega⟩
        · rename_i fits
          exact Or.inl ⟨rfl, by omega⟩

/-- Asking for the core comes to getting or creating it with the call's
arguments. -/
theorem Attempt.perform_eq (attempt : Attempt Id) (db : Database Id Address) :
    attempt.perform host db =
      match attempt.arguments host with
      | .ok (keyPath, ephemeral, relays) =>
          getOrCreateCore host (attempt.site.world host) keyPath ephemeral relays db
      | .error error => (.error error, db) := by
  rw [perform, arguments]
  cases attempt.request with
  | direct keyPath ephemeral relays => rfl
  | fromSettings =>
      dsimp only [getOrCreateCoreFromSettings]
      have settings : (attempt.site.world host).settings = attempt.site.settings := rfl
      rw [settings]
      cases told : (if attempt.site.settings.keyPath.isEmpty then
          defaultKeyPath (attempt.site.world host) else .ok attempt.site.settings.keyPath) with
      | error error => exact Effect.bind_of_error (Effect.lift_apply _ db) _
      | ok keyPath => exact Effect.bind_of_ok (Effect.lift_apply _ db) _

theorem Attempt.relays_of_arguments {attempt : Attempt Id} {keyPath relays : Text}
    {ephemeral : Bool} (told : attempt.arguments host = .ok (keyPath, ephemeral, relays)) :
    attempt.relays = relays := by
  rw [arguments] at told
  rw [Attempt.relays]
  cases asked : attempt.request with
  | direct _ _ _ =>
      rw [asked] at told
      cases told
      rfl
  | fromSettings =>
      rw [asked] at told
      dsimp only at told
      generalize (if attempt.site.settings.keyPath.isEmpty then
        defaultKeyPath (attempt.site.world host) else .ok attempt.site.settings.keyPath) = path
        at told
      cases path with
      | error error => cases told
      | ok path =>
          cases told
          rfl

/-- A call either leaves the database as it is and asks for nothing that does not
fit, or makes a core, whether or not the relay list normalises. -/
theorem Bound.perform_cases (state : Bound Id Address) (attempt : Attempt Id) :
    ((attempt.perform host state.db).2 = state.db ∧ state.Fits host attempt) ∨
    (state.db.core = none ∧ ∃ keyPath ephemeral id,
      attempt.arguments host = .ok (keyPath, ephemeral, attempt.relays) ∧
        coreNew host attempt.site.bind (if ephemeral then none else some keyPath) ephemeral
          attempt.relays = .ok id ∧
        attempt.perform host state.db =
          match normalizeRelays host attempt.relays with
          | .error error => (.error error, { state.db with core := some { endpointId := id } })
          | .ok bound => (.ok (),
              { state.db with core := some { endpointId := id }, boundRelays := bound })) := by
  have performed : attempt.perform host state.db = _ := attempt.perform_eq state.db
  cases told : attempt.arguments host with
  | error error =>
      rw [told] at performed
      refine Or.inl ⟨by rw [performed], fun _ _ _ _ _ _ told' => ?_⟩
      cases told.symm.trans told'
  | ok arguments =>
      rcases arguments with ⟨keyPath, ephemeral, relays⟩
      obtain rfl := Attempt.relays_of_arguments told
      rw [told] at performed
      dsimp only at performed
      rcases getOrCreateCore_cases host (attempt.site.world host) keyPath ephemeral attempt.relays
        state.db with ⟨there, ran⟩ | ⟨-, err, failed, ran⟩ | ⟨absent, id, made, ran⟩
      · refine Or.inl ⟨by rw [performed, ran], fun absent => ?_⟩
        rw [absent] at there
        cases there
      · refine Or.inl ⟨by rw [performed, ran], fun _ _ _ _ _ _ told' made => ?_⟩
        cases told.symm.trans told'
        cases failed.symm.trans made
      · exact Or.inr ⟨absent, keyPath, ephemeral, id, rfl, made, performed.trans ran⟩

theorem Bound.call_eq_self {state : Bound Id Address} {attempt : Attempt Id}
    (same : (attempt.perform host state.db).2 = state.db) : state.call host attempt = state := by
  rcases state with ⟨db, created⟩
  rw [Bound.call, same]
  cases db.core <;> rfl

/-- A call keeps what it should, and the memory of the list, exactly when its
list fits.  One whose list does not fit leaves a core behind when it throws. -/
theorem Bound.kept_and_remembers_iff {state : Bound Id Address}
    (remembers : state.Remembers host) (attempt : Attempt Id) :
    state.Kept host attempt ∧ (state.call host attempt).Remembers host ↔
      state.Fits host attempt := by
  rcases state.perform_cases attempt with
    ⟨same, fits⟩ | ⟨absent, keyPath, ephemeral, id, told, made, performed⟩
  · refine iff_of_true ⟨fun error after thrown => ?_, ?_⟩ fits
    · rw [thrown] at same
      exact same
    · rw [call_eq_self same]
      exact remembers
  · rcases normalizeRelays_of_coreNew made with
      ⟨form, normal, ⟨written, fits⟩ | ⟨error, refused, long⟩⟩
    · rw [written] at performed
      have allFit : state.Fits host attempt := by
        intro _ _ _ _ _ form' told' _ normal'
        cases told.symm.trans told'
        cases normal.symm.trans normal'
        exact fits
      refine iff_of_true ⟨fun error after thrown => ?_, fun _ => ⟨attempt.relays, ?_, ?_⟩⟩ allFit
      · cases performed.symm.trans thrown
      · rw [Bound.call, performed, absent]
        rfl
      · rw [Bound.call, performed]
        exact written
    · rw [refused] at performed
      constructor
      · rintro ⟨kept, -⟩
        have same := congrArg Database.core (kept _ _ performed)
        rw [absent] at same
        cases same
      · intro fits
        exact absurd (fits absent _ _ _ _ form told made normal) long

variable (host) in
/-- In every run of calls whose lists fit, a bound core has its list remembered,
and the next call leaves everything as it was when it throws, and the memory
right, exactly when its list fits. -/
theorem Bound.remembers_of_fits {db : Database Id Address} (unbound : db.core = none)
    {state : Bound Id Address}
    (run : Run (Bound.next host) (fun attempt state => state.Fits host attempt) { db := db } state) :
    state.Remembers host ∧ ∀ attempt,
      state.Kept host attempt ∧ (state.call host attempt).Remembers host ↔
        state.Fits host attempt := by
  have remembers : state.Remembers host := by
    apply run.invariant (Bound.Remembers host)
    · intro bound
      rw [show ({ db := db } : Bound Id Address).db.core = none from unbound] at bound
      cases bound
    · rintro attempt before after fits remembers stepped
      obtain rfl := Option.some.inj stepped
      exact ((kept_and_remembers_iff remembers attempt).mpr fits).2
  exact ⟨remembers, kept_and_remembers_iff remembers⟩

end Calls

/-! ## A list that does not fit -/

/-- A call with this relay list, under a throwaway key, whose endpoint can be
bound. -/
def throwaway (relays : Text) : Attempt Unit where
  request := .direct [] true relays
  site := { bind := fun _ _ _ => .ok () }

/-- One relay URL of more than 2048 characters. -/
def longList : Text :=
  "https://relay.example/".toList ++ List.replicate 2048 'a'

/-- The call throws and the core is bound, with no memory of its list. -/
theorem perform_longList :
    ((throwaway longList).perform soleHost {}).1.toOption = none ∧
      ((throwaway longList).perform soleHost {}).2.core.isSome = true ∧
      ((throwaway longList).perform soleHost {}).2.boundRelays = [] := by
  decide +kernel

/-- Nothing is bound. -/
def unbound : Bound Unit Text where
  db := {}

theorem not_kept_longList :
    ¬ ∀ attempt, unbound.Kept soleHost attempt ∧
      (unbound.call soleHost attempt).Remembers soleHost := by
  intro holds
  rcases perform_longList with ⟨thrown, bound, -⟩
  rcases performed : (throwaway longList).perform soleHost {} with ⟨error | _, after⟩
  · have kept := (holds (throwaway longList)).1 error after performed
    rw [performed, kept] at bound
    cases bound
  · rw [performed] at thrown
    cases thrown

/-- A call with two relays that are not in order. -/
def twoRelays : Attempt Unit :=
  throwaway "https://b/,https://a/".toList

theorem fits_twoRelays : unbound.Fits soleHost twoRelays := by
  intro _ keyPath ephemeral relays id form told _ normal
  cases told
  have same : soleHost.iroh.normalizeRelays (untilNul "https://b/,https://a/".toList) =
      .ok "https://a/,https://b/".toList := by decide +kernel
  cases same.symm.trans normal
  decide

theorem remembers_twoRelays :
    (unbound.call soleHost twoRelays).Remembers soleHost ∧
      ∀ attempt,
        (unbound.call soleHost twoRelays).Kept soleHost attempt ∧
            ((unbound.call soleHost twoRelays).call soleHost attempt).Remembers soleHost ↔
          (unbound.call soleHost twoRelays).Fits soleHost attempt :=
  Bound.remembers_of_fits soleHost rfl (Run.single fits_twoRelays rfl)

end Quackhole.Extension
