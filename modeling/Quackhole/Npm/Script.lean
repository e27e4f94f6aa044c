import Quackhole.Extension.Serve
import Quackhole.Npm.Arguments
import Quackhole.Word.Literal

/-!
# The statements of the client

The client hands DuckDB its statements as texts, with what it was given on its command line, and
what it finds on its machine, in literals.  A database that goes by the text finds
in it exactly the settings and the arguments that were meant.
-/

namespace Quackhole.Npm

open Quackhole.Word Quackhole.Word.Sql Quackhole.Extension

/-- What the client finds where it runs. -/
structure Machine where
  /-- Where `extensionPath` found the extension. -/
  extension : Text
  hostname : Text
  /-- `${process.platform} ${process.arch}`. -/
  os : Text

/-- A statement, as far as it matters what it does. -/
inductive Command where
  /-- `LOAD` of a file. -/
  | load (path : Text)
  /-- `CREATE TABLE host_info`. -/
  | hostInfo (host os : Text)
  /-- `SET GLOBAL … = true`. -/
  | enable (name : Text)
  /-- `SET GLOBAL … = '…'`. -/
  | set (name value : Text)
  /-- `quackhole_serve`. -/
  | serve (token target : Text)
  /-- A statement without any of what the client was given. -/
  | plain
deriving DecidableEq

def ephemeralSetting : Text :=
  "quackhole_ephemeral".toList

def workbenchUrlSetting : Text :=
  "quackhole_workbench_url".toList

def relaysSetting : Text :=
  "quackhole_relays".toList

/-! ## The texts -/

def loadText (path : Text) : Text :=
  "LOAD ".toList ++ quoted path

def knownText : Text :=
  "SELECT count(*) AS n FROM duckdb_settings() WHERE name = ".toList ++ quoted workbenchUrlSetting

def hostInfoText (host os : Text) : Text :=
  "CREATE TABLE host_info AS SELECT\n  ".toList ++ quoted host ++ " AS host,\n  ".toList ++
    quoted os ++ " AS os,\n  version() AS duckdb_version,\n  now() AS started_at".toList

def eventsText : Text :=
  "CREATE TABLE events AS SELECT\n  range AS id,\n  ".toList ++ quoted "evt_".toList ++
    " || range AS name,\n  ([".toList ++ quoted "debug".toList ++ ", ".toList ++
    quoted "info".toList ++ ", ".toList ++ quoted "warn".toList ++ ", ".toList ++
    quoted "error".toList ++
    ("])[(range % 4) + 1] AS level,\n  now()::TIMESTAMP - INTERVAL (range) MINUTE AS ts,\n" ++
      "  (range * 7919 % 1000) / 10.0 AS duration_ms\nFROM range(5000)").toList

def enableText (name : Text) : Text :=
  "SET GLOBAL ".toList ++ name ++ " = true".toList

def setText (name value : Text) : Text :=
  "SET GLOBAL ".toList ++ name ++ " = ".toList ++ quoted value

def serveText (token target : Text) : Text :=
  "SELECT * FROM quackhole_serve(token := ".toList ++ quoted token ++ ", target := ".toList ++
    quoted target ++ ")".toList

/-- `opts.relays.join(',')`. -/
def joined (relays : List Text) : Text :=
  [','].intercalate relays

/-- `127.0.0.1:${opts.port}`. -/
def target (options : Options) : Text :=
  "127.0.0.1:".toList ++ options.port.printed

/-- A command line that is accepted aims at a port of the machine's own. -/
theorem exists_target {program : Program} {argv : List Text} {options : Options}
    (accepted : parseArgs program argv = .ok options) :
    ∃ port : Nat, 1 ≤ port ∧ port ≤ 65535 ∧
      target options = "127.0.0.1:".toList ++ decimal port := by
  obtain ⟨port, low, high, -, printed⟩ := printed_of_isPort (parseArgs_eq_ok.mp accepted).2
  exact ⟨port, low, high, congrArg _ printed⟩

/-- What DuckDB is handed, in order. -/
def script (machine : Machine) (options : Options) : List Text :=
  ["INSTALL quack".toList, "LOAD quack".toList, loadText machine.extension, knownText,
      "SELECT version() AS v".toList, hostInfoText machine.hostname machine.os, eventsText,
      enableText ephemeralSetting, setText workbenchUrlSetting options.page] ++
    (if options.relays = [] then [] else [setText relaysSetting (joined options.relays)]) ++
      [serveText options.token (target options)]

/-! ## What is read -/

namespace Command

/-- The values of a statement, in order. -/
def contents (pieces : List Piece) : List Text :=
  pieces.filterMap fun piece =>
    match piece with
    | .literal (.quote .single) content => some (undoubled content)
    | _ => none

/-- A statement without its values. -/
def shape (pieces : List Piece) : List Piece :=
  pieces.map fun piece =>
    match piece with
    | .literal (.quote .single) _ => value []
    | _ => piece

def loadShape : List Piece :=
  runs ["LOAD"] ++ [value []]

def setShape (name : Text) : List Piece :=
  runs ["SET", "GLOBAL"] ++ [.run name none] ++ runs ["="] ++ [value []]

def enableShape (name : Text) : List Piece :=
  runs ["SET", "GLOBAL"] ++ [.run name none] ++ runs ["=", "true"]

def hostInfoShape : List Piece :=
  runs ["CREATE", "TABLE", "host_info", "AS", "SELECT"] ++ [value []] ++ runs ["AS", "host,"] ++
    [value []] ++
      runs ["AS", "os,", "version()", "AS", "duckdb_version,", "now()", "AS", "started_at"]

def serveShape : List Piece :=
  runs ["SELECT", "*", "FROM", "quackhole_serve(token", ":="] ++ [value []] ++
    runs [",", "target", ":="] ++ [value []] ++ runs [")"]

/-- The name in `SET GLOBAL`. -/
def settingName (pieces : List Piece) : Text :=
  match (pieces.drop 2).head? with
  | some (.run name none) => name
  | _ => []

/-- The statement in the pieces of a text: its shape says what it is, and its values what it is
about. -/
def ofPieces (pieces : List Piece) : Command :=
  let name := settingName pieces
  match contents pieces with
  | [] => if shape pieces = enableShape name then .enable name else .plain
  | [first] =>
      if shape pieces = loadShape then .load first
      else if shape pieces = setShape name then .set name first
      else .plain
  | [first, second] =>
      if shape pieces = hostInfoShape then .hostInfo first second
      else if shape pieces = serveShape then .serve first second
      else .plain
  | _ => .plain

/-- What a database that goes by the text takes it for. -/
def read (text : Text) : Option Command :=
  (pieces text).map ofPieces

/-- A text that ends in a value. -/
theorem read_template {template : Template} {command : Command}
    (meant : ofPieces template.pieces = command) : read template.text = some command := by
  rw [read, template.pieces_text, Option.map_some, meant]

/-- A text that ends in code. -/
theorem read_template_append {template : Template} {code : Code} {command : Command}
    (meant : ofPieces (template.pieces ++ code.closed none) = command) :
    read (template.text ++ code.text) = some command := by
  rw [read, template.pieces_text_append, Option.map_some, meant]

def loadCode : Opener :=
  .ofWords "LOAD ".toList ["LOAD"] (by decide) (by rfl)

def hostCode : Opener :=
  .ofWords "CREATE TABLE host_info AS SELECT\n  ".toList
    ["CREATE", "TABLE", "host_info", "AS", "SELECT"] (by decide) (by rfl)

def osCode : Opener :=
  .ofWords " AS host,\n  ".toList ["AS", "host,"] (by decide) (by rfl)

/-- What `CREATE TABLE host_info` ends with. -/
def startedCode : Code where
  text := " AS os,\n  version() AS duckdb_version,\n  now() AS started_at".toList
  pieces := runs ["AS", "os,", "version()", "AS", "duckdb_version,", "now()", "AS"]
  run := "started_at".toList
  reads := by rfl
  begins := begins_of_beginsCode (by decide)

def workbenchUrlCode : Opener :=
  .ofWords "SET GLOBAL quackhole_workbench_url = ".toList
    ["SET", "GLOBAL", "quackhole_workbench_url", "="] (by decide) (by rfl)

def relaysCode : Opener :=
  .ofWords "SET GLOBAL quackhole_relays = ".toList
    ["SET", "GLOBAL", "quackhole_relays", "="] (by decide) (by rfl)

def tokenCode : Opener :=
  .ofWords "SELECT * FROM quackhole_serve(token := ".toList
    ["SELECT", "*", "FROM", "quackhole_serve(token", ":="] (by decide) (by rfl)

def targetCode : Opener :=
  .ofWords ", target := ".toList [",", "target", ":="] (by decide) (by rfl)

/-- `)`. -/
def closeCode : Code where
  text := ")".toList
  pieces := []
  run := ")".toList
  reads := by rfl
  begins := begins_of_beginsCode (by decide)

theorem read_loadText (path : Text) : read (loadText path) = some (.load path) := by
  have template : loadText path = Template.text [(loadCode, path)] :=
    (Template.text_single loadCode path).symm
  rw [template]
  apply read_template
  show Command.load (undoubled (doubled path)) = _
  rw [undoubled_doubled]

theorem read_hostInfoText (host os : Text) :
    read (hostInfoText host os) = some (.hostInfo host os) := by
  have template : hostInfoText host os =
      Template.text [(hostCode, host), (osCode, os)] ++ startedCode.text := by
    rw [Template.text_pair]
    rfl
  rw [template]
  apply read_template_append
  show Command.hostInfo (undoubled (doubled host)) (undoubled (doubled os)) = _
  rw [undoubled_doubled, undoubled_doubled]

theorem read_workbenchUrl (url : Text) :
    read (setText workbenchUrlSetting url) = some (.set workbenchUrlSetting url) := by
  have template : setText workbenchUrlSetting url = Template.text [(workbenchUrlCode, url)] :=
    (Template.text_single workbenchUrlCode url).symm
  rw [template]
  apply read_template
  show Command.set workbenchUrlSetting (undoubled (doubled url)) = _
  rw [undoubled_doubled]

theorem read_relays (relays : Text) :
    read (setText relaysSetting relays) = some (.set relaysSetting relays) := by
  have template : setText relaysSetting relays = Template.text [(relaysCode, relays)] :=
    (Template.text_single relaysCode relays).symm
  rw [template]
  apply read_template
  show Command.set relaysSetting (undoubled (doubled relays)) = _
  rw [undoubled_doubled]

theorem read_serveText (token target : Text) :
    read (serveText token target) = some (.serve token target) := by
  have template : serveText token target =
      Template.text [(tokenCode, token), (targetCode, target)] ++ closeCode.text := by
    rw [Template.text_pair]
    rfl
  rw [template]
  apply read_template_append
  show Command.serve (undoubled (doubled token)) (undoubled (doubled target)) = _
  rw [undoubled_doubled, undoubled_doubled]

end Command

/-! ## What the database is told -/

/-- What the statements before leave for the ones after. -/
structure Session where
  /-- The extension is loaded, and its settings are there. -/
  loaded : Bool := false
  settings : Settings := {}

/-- A setting of the extension is given a text. -/
def Session.set (session : Session) (name value : Text) : Session :=
  if name = workbenchUrlSetting then
    { session with settings := { session.settings with workbenchUrl := some value } }
  else if name = relaysSetting then
    { session with settings := { session.settings with relays := value } }
  else session

def Session.enable (session : Session) (name : Text) : Session :=
  if name = ephemeralSetting then
    { session with settings := { session.settings with ephemeral := true } }
  else session

/-- A statement, and the call of `quackhole_serve` it makes under the settings it finds. -/
def Session.run (session : Session) :
    Command → Option (Session × List (Settings × ServeArguments))
  | .load _ => some ({ session with loaded := true }, [])
  | .enable name => if session.loaded then some (session.enable name, []) else none
  | .set name value => if session.loaded then some (session.set name value, []) else none
  | .serve token target =>
      if session.loaded then
        some (session, [(session.settings, { token := token, target := target })])
      else none
  | .hostInfo _ _ | .plain => some (session, [])

/-- The calls of `quackhole_serve` that a list of texts makes. -/
def served : List Text → Session → Option (List (Settings × ServeArguments))
  | [], _ => some []
  | text :: texts, session =>
      (Command.read text).bind fun command =>
        (session.run command).bind fun ran => (served texts ran.1).map (ran.2 ++ ·)

/-- The settings the command line asks for. -/
def settings (options : Options) : Settings where
  relays := joined options.relays
  ephemeral := true
  workbenchUrl := some options.page

/-- The arguments the command line asks for. -/
def serveArguments (options : Options) : ServeArguments where
  token := options.token
  target := target options

theorem served_cons {text : Text} {command : Command} {session after : Session}
    {calls : List (Settings × ServeArguments)} (read : Command.read text = some command)
    (ran : session.run command = some (after, calls)) (texts : List Text) :
    served (text :: texts) session = (served texts after).map (calls ++ ·) := by
  rw [served, read, Option.bind_some, ran]
  rfl

/-- Whatever the command line and the machine put into the texts, the database is told to serve
once, with the token and the target that were meant, under the settings that were meant. -/
theorem served_script (machine : Machine) (options : Options) :
    served (script machine options) {} = some [(settings options, serveArguments options)] := by
  have plain {text : Text} (read : Command.read text = some .plain) (session : Session)
      (texts : List Text) : served (text :: texts) session = served texts session := by
    rw [served_cons read (show session.run .plain = some (session, []) from rfl)]
    exact Option.map_id_apply
  have quiet {text : Text} {command : Command} {session after : Session}
      (read : Command.read text = some command) (ran : session.run command = some (after, []))
      (texts : List Text) : served (text :: texts) session = served texts after := by
    rw [served_cons read ran]
    exact Option.map_id_apply
  have enabled : Command.read (enableText ephemeralSetting) =
      some (.enable ephemeralSetting) := by decide +kernel
  have serves (session : Session) (loaded : session.loaded = true) :
      served [serveText options.token (target options)] session =
        some [(session.settings, serveArguments options)] := by
    rw [served_cons (Command.read_serveText _ _) (if_pos loaded)]
    rfl
  have install := @plain "INSTALL quack".toList (by decide +kernel)
  have quack := @plain "LOAD quack".toList (by decide +kernel)
  have known := @plain knownText (by decide +kernel)
  have version := @plain "SELECT version() AS v".toList (by decide +kernel)
  have events := @plain eventsText (by decide +kernel)
  simp only [script, List.cons_append, List.nil_append, install, quack]
  rw [quiet (Command.read_loadText _) rfl, known, version,
    quiet (Command.read_hostInfoText _ _) rfl, events, quiet enabled rfl,
    quiet (Command.read_workbenchUrl _) rfl]
  split
  · rename_i none
    rw [List.nil_append, serves _ rfl, settings, none]
    rfl
  · rw [List.cons_append, List.nil_append, quiet (Command.read_relays _) rfl, serves _ rfl]
    rfl

end Quackhole.Npm
