import Quackhole.Npm.Script
import Quackhole.Site.Link

/-!
# From the command line to the page

The client turns its command line into statements, DuckDB turns one of them into a
link, and the browser that opens the link turns it into a peer.  What the peer is offered with is
what the command line asked for.
-/

namespace Quackhole.Npm

open Quackhole.Word Quackhole.Ticket Quackhole.Extension Quackhole.Transition Quackhole.Site.Link

theorem mem_argv_of_mem_values {name : FlagName} {flags : List (FlagName × Text)} {value : Text}
    (member : value ∈ values name flags) : value ∈ flags.flatMap words := by
  rcases List.mem_filterMap.mp member with ⟨flag, inside, kept⟩
  refine List.mem_flatMap.mpr ⟨flag, inside, ?_⟩
  split at kept
  · rw [← Option.some.inj kept]
    exact List.mem_cons_of_mem _ List.mem_cons_self
  · cases kept

/-- The token is a word of the command line, or the random one. -/
theorem token_mem {program : Program} {argv : List Text} {options : Options}
    (accepted : parseArgs program argv = .ok options) :
    options.token ∈ argv ∨ options.token = program.randomToken := by
  cases first : parseFrom program argv (.initial program) with
  | error exit =>
      rw [parseArgs, first] at accepted
      cases accepted
  | ok given =>
      rw [parseArgs, first] at accepted
      change (if _ then _ else _) = _ at accepted
      split at accepted
      · obtain rfl := Except.ok.inj accepted
        rcases parseFrom_eq_ok_iff.mp first with ⟨flags, rfl, _, rfl⟩
        cases last : (values .token flags).getLast? with
        | none =>
            right
            rw [Options.given, last]
            rfl
        | some token =>
            left
            rw [Options.given, last]
            exact mem_argv_of_mem_values (List.mem_of_getLast? last)
      · cases accepted

section Chain

variable {Id Url Address : Type} [DecidableEq Address] {host : Host Id Url Address}

/-- What a call of `quackhole_serve` answers to a page that is opened at its link: an
endpoint that is serving, and the token the local server accepts. -/
def Offers (host : Host Id Url Address) (world : Surroundings Id) (place : Address)
    (after : Database Id Address) (token url : Text) : Prop :=
  ∃ core, after.core = some core ∧ core.serving = true ∧ after.servers place = some token ∧
    offered host url =
      some (.ok ⟨host.iroh.toZ32 core.endpointId, trim (untilNul (relayUrlWait world)), token⟩)

/-- A call that finds its address free serves under the token it starts the server with. -/
theorem offers_of_started (lawful : host.Lawful)
    (exact : ∀ id, host.iroh.parseEndpointId (host.iroh.toZ32 id) = .ok id)
    {world : Surroundings Id} {arguments : ServeArguments} {db after : Database Id Address}
    {row : ServeRow} {picked url : Text} (starts : arguments.autoServe = true)
    (free : db.servers (host.address arguments.target) = none)
    (answer : world.quackServe = .ok picked)
    (plain : '\x00' ∉ usedToken arguments.token picked)
    (sole : '#' ∉ (workbench world).dropLast)
    (served : quackholeServe host world arguments db = (.ok row, after))
    (linked : row.url = some url) :
    Offers host world (host.address arguments.target) after (usedToken arguments.token picked)
      url := by
  rcases localToken_cases host world arguments db with
    ⟨_, found, _⟩ | ⟨_, failed, _⟩ | ⟨picked', _, _, answer', ran⟩
  · rw [free] at found
    cases found
  · exact absurd answer (failed picked starts)
  · obtain rfl := Except.ok.inj (answer.symm.trans answer')
    have listening : after.servers (host.address arguments.target) =
        some (usedToken arguments.token picked) := by
      have whole := @servers_quackholeServe _ _ _ _ host world arguments db
      rw [served, ran] at whole
      rw [show after.servers = _ from whole]
      exact Database.servers_listen_self db _ _
    rw [quackholeServe, Effect.bind_of_ok ran] at served
    rcases ticket_of_serveEndpoint lawful exact served linked with
      ⟨core, ticket, held, serving, _, _, marked, rfl, read⟩
    refine ⟨core, held, serving, listening, ?_⟩
    rw [offered_link marked sole, read, effectiveToken_usedToken, untilNul_eq_self plain]

/-- For every command line that is accepted, the texts of the statements make one call of
`quackhole_serve`; and where the call finds its address free and returns a link, the page
that is opened there offers the endpoint that is serving, with a token that the
local server accepts, and which is the one of the command line if it has one. -/
theorem offers_of_accepted (lawful : host.Lawful)
    (exact : ∀ id, host.iroh.parseEndpointId (host.iroh.toZ32 id) = .ok id)
    {program : Program} {argv : List Text} {options : Options} (machine : Machine)
    (accepted : parseArgs program argv = .ok options)
    (plain : ∀ word ∈ program.randomToken :: argv, '\x00' ∉ word)
    (sole : '#' ∉ options.page.dropLast) :
    ∃ settings arguments, served (script machine options) {} = some [(settings, arguments)] ∧
      ∀ (world : Surroundings Id) (db after : Database Id Address) (row : ServeRow)
        (picked url : Text), world.settings = settings → world.quackServe = .ok picked →
        '\x00' ∉ picked → db.servers (host.address arguments.target) = none →
        quackholeServe host world arguments db = (.ok row, after) → row.url = some url →
        ∃ token, Offers host world (host.address arguments.target) after token url ∧
          (options.token ≠ [] → token = options.token) := by
  refine ⟨_, _, served_script machine options, ?_⟩
  intro world db after row picked url under answer chosen free served linked
  have given : '\x00' ∉ options.token := by
    rcases token_mem accepted with inside | random
    · exact plain _ (List.mem_cons_of_mem _ inside)
    · rw [random]
      exact plain _ List.mem_cons_self
  have used : '\x00' ∉ usedToken options.token picked := by
    unfold usedToken
    split
    · exact chosen
    · exact given
  have based : workbench world = options.page := by
    rw [workbench, under]
    rfl
  refine ⟨usedToken options.token picked, ?_, fun present => ?_⟩
  · exact offers_of_started lawful exact rfl free answer used (by rwa [based]) served linked
  · rw [usedToken, if_neg (mt List.isEmpty_iff.mp present)]

end Chain

/-! ## A token with an apostrophe -/

def sampleProgram : Program where
  version := "0.0.1".toList
  page := "https://smithclay.github.io/quackhole/".toList
  randomToken := "0123456789abcdef01234567".toList

def sampleMachine : Machine where
  extension := "/home/duck/.cache/quackhole/quackhole.duckdb_extension".toList
  hostname := "duck's laptop".toList
  os := "linux x64".toList

def sampleArgv : List Text :=
  ["--token".toList, "it's".toList]

def sampleOptions : Options :=
  { Options.initial sampleProgram with token := "it's".toList }

theorem parseArgs_sampleArgv : parseArgs sampleProgram sampleArgv = .ok sampleOptions := by
  decide +kernel

def sampleWorld : Surroundings Unit :=
  { soleWorld with settings := settings sampleOptions }

theorem linked_sampleWorld :
    ((quackholeServe soleHost sampleWorld (serveArguments sampleOptions) {}).1.toOption.bind
      (·.url)).isSome = true := by
  decide +kernel

theorem offers_of_accepted_sampleArgv :
    ∃ row after url, quackholeServe soleHost sampleWorld (serveArguments sampleOptions) {} =
        (.ok row, after) ∧ row.url = some url ∧
      Offers soleHost sampleWorld "127.0.0.1:9494".toList after "it's".toList url := by
  rcases offers_of_accepted lawful_soleHost parseEndpointId_soleId sampleMachine
    parseArgs_sampleArgv (by decide +kernel) (by decide +kernel) with
      ⟨settings, arguments, told, opens⟩
  rw [served_script] at told
  obtain ⟨rfl, rfl⟩ := Prod.mk.inj (List.singleton_inj.mp (Option.some.inj told))
  rcases Option.isSome_iff_exists.mp linked_sampleWorld with ⟨url, linked⟩
  rcases Option.bind_eq_some_iff.mp linked with ⟨row, returned, linked⟩
  rcases ran : quackholeServe soleHost sampleWorld (serveArguments sampleOptions) {} with
    ⟨result, after⟩
  rw [ran] at returned
  cases result with
  | error thrown => cases returned
  | ok row' =>
      obtain rfl := Option.some.inj returned
      rcases opens sampleWorld {} after _ "picked".toList url rfl rfl (by decide) rfl ran linked
        with ⟨token, offers, same⟩
      have aimed : soleHost.address (serveArguments sampleOptions).target =
          "127.0.0.1:9494".toList := by decide +kernel
      rw [same (by decide), aimed] at offers
      exact ⟨_, after, url, rfl, linked, offers⟩

end Quackhole.Npm
