import Quackhole.Web.Xhr
import Quackhole.Word.Form
import Quackhole.Word.Number

/-!
# Two ways in

The DuckDB worker is started from the page's own origin, with its settings in the query of
its URL, or from another origin through a script that has them in it.  On the one way they
are escaped and joined into a query, on the other written as JSON into a program.  What the
shim and the bridge are started with is the same, but for a mode that is not given.
-/

namespace Quackhole.Web.Setup

open Quackhole.Word
open Registration (Settings)

/-- The settings, by their names. -/
abbrev Config : Type :=
  List (Text × Json)

/-! ## The script of the loader -/

/-- The settings that `createWorker` writes down. -/
def loaderConfig (options : Config) (target web : Text) : Config :=
  Record.put "base".toList (.string web) (Record.put "target".toList (.string target)
    (Record.fromEntries (("mode".toList, .string "iroh".toList) :: options)))

def assignText : Text :=
  "self.QH_CONFIG = ".toList

def importText : Text :=
  ";\nimportScripts(".toList

def endText : Text :=
  ");\n".toList

/-- The source of the worker. -/
def loaderSource (config : Config) (workerUrl : Text) : Text :=
  assignText ++ (Json.object (Record.entries config)).stringify ++ importText ++
    (Json.string workerUrl).stringify ++ endText

/-- A value, and what follows it. -/
def readLiteral (text : Text) : Option (Json × Text) :=
  Json.readValue (text.length + 1) text

/-- The text behind a beginning. -/
def after (start text : Text) : Option Text :=
  if start.isPrefixOf text then some (text.drop start.length) else none

/-- What a script of this form assigns to `QH_CONFIG`, and the script it imports. -/
def runLoader (source : Text) : Option (Config × Text) := do
  let (config, rest) ← (after assignText source).bind readLiteral
  let (workerUrl, rest) ← (after importText rest).bind readLiteral
  match config, workerUrl with
  | .object members, .string workerUrl => if rest = endText then some (members, workerUrl) else none
  | _, _ => none

/-! ## The worker -/

/-- The scope of a worker. -/
structure Scope where
  /-- `QH_CONFIG`. -/
  injected : Option Config
  href : Text
  search : Text

namespace Scope

variable (scope : Scope)

/-- The settings, before `base` is filled in. -/
def given : Config :=
  scope.injected.getD (Record.fromEntries
    ((Form.parse scope.search).map fun entry => (entry.1, Json.string entry.2)))

/-- `config` of `qh-worker.js`. -/
def config : Config :=
  match scope.given.lookup "base".toList with
  | none | some .null => Record.put "base".toList (.string scope.href) scope.given
  | some _ => scope.given

end Scope

/-- A value as a string. -/
def display : Json → Text
  | .array items => [','].intercalate (items.map Xhr.template)
  | value => Xhr.template value

/-- A setting that is there and not falsy, as a string. -/
def text (config : Config) (name : Text) : Option Text :=
  (config.lookup name).bind fun value => if value.truthy then some (display value) else none

/-- The scripts beside `qh-worker.js`, where the URL parser resolves a name against a base. -/
def siblings (newUrl : Text → Text → Except Text Text) (base : Text) : Except Text (List Text) := do
  let protocol ← newUrl "protocol.js".toList base
  let shim ← newUrl "shim.js".toList base
  .ok [protocol, shim]

/-- The scripts that are imported, if `config.target` is there. -/
def imports (newUrl : Text → Text → Except Text Text) (config : Config) :
    Except Text (List Text) :=
  match text config "target".toList with
  | none =>
      .error ("qh-worker.js needs a target: ?target=<duckdb worker url>, ".toList ++
        "or QH_CONFIG.target".toList)
  | some target =>
      (siblings newUrl ((text config "base".toList).getD [])).map fun urls => urls ++ [target]

/-- `Number(value)`. -/
def numeric : Json → JsNumber
  | .null => .finite 0
  | .bool value => .finite (if value then 1 else 0)
  | value => .ofText (display value)

/-- A setting as a number.  For what is no number, and for zero, there is a default. -/
def number (config : Config) (name : Text) : Option JsNumber :=
  (config.lookup name).bind fun value =>
    if numeric value = .nan ∨ numeric value = .finite 0 then none else some (numeric value)

/-- What `shim.js` makes of the settings. -/
structure Shim where
  settings : Settings
  timeoutMs : Option JsNumber
  dataBytes : Option JsNumber
  debug : Bool
  bridge : Text

/-- `config.debug === '1' || config.debug === true`. -/
def isDebug : Option Json → Bool
  | some (.string value) => value == "1".toList
  | some (.bool value) => value
  | _ => false

def shim (config : Config) : Shim where
  settings :=
    { mode := text config "mode".toList
      relay := text config "relay".toList
      relays := text config "relays".toList
      fault := text config "fault".toList
      intercept := text config "intercept".toList }
  timeoutMs := number config "timeout".toList
  dataBytes := number config "chunk".toList
  debug := isDebug (config.lookup "debug".toList)
  bridge := (text config "bridge".toList).getD "bridge-worker.js".toList

/-! ## The script reads back -/

theorem after_append (start rest : Text) : after start (start ++ rest) = some rest := by
  rw [after, if_pos (List.isPrefixOf_iff_prefix.mpr (List.prefix_append _ _)), List.drop_left]

/-- A value in front of whatever does not go on with a number. -/
theorem readLiteral_append {value : Json} (readable : value.Readable) {rest : Text}
    (boundary : Json.Boundary rest) :
    readLiteral (value.stringify ++ rest) = some (value, rest) := by
  apply readable _ _ _ boundary
  rw [List.length_append]
  omega

/-- The script sets what was written down, and imports what it should. -/
theorem runLoader_loaderSource {config : Config} (distinct : (config.map Prod.fst).Nodup)
    (readable : ∀ member ∈ config, member.2.Readable) (workerUrl : Text) :
    runLoader (loaderSource config workerUrl) = some (Record.entries config, workerUrl) := by
  have object : (Json.object (Record.entries config)).Readable :=
    Json.readable_object (Record.nodup_entries distinct) fun member inside =>
      readable member ((Record.entries_perm config).mem_iff.mp inside)
  have source : loaderSource config workerUrl =
      assignText ++ ((Json.object (Record.entries config)).stringify ++ (importText ++
        ((Json.string workerUrl).stringify ++ endText))) := by
    simp only [loaderSource, List.append_assoc]
  have imported : Json.Boundary (importText ++ ((Json.string workerUrl).stringify ++ endText)) :=
    Json.boundary_cons rfl _
  have ended : Json.Boundary endText := Json.boundary_cons rfl _
  rw [runLoader, source, after_append, Option.bind_some, readLiteral_append object imported]
  simp only [Option.bind_eq_bind, Option.bind_some, after_append,
    readLiteral_append (Json.readable_string workerUrl) ended, if_true]

/-! ## The settings of a caller -/

/-- A setting.  The relays may be given as a list. -/
inductive Entry where
  | text (name value : Text)
  | relays (values : List Text) (filled : [','].intercalate values ≠ [])

namespace Entry

def name : Entry → Text
  | text name _ => name
  | relays _ _ => "relays".toList

/-- As an option of the loader. -/
def json : Entry → Json
  | text _ value => .string value
  | relays values _ => .array (values.map .string)

/-- As a part of a query. -/
def written : Entry → Text
  | text _ value => value
  | relays values _ => [','].intercalate values

theorem readable_json (entry : Entry) : entry.json.Readable := by
  cases entry with
  | text name value => exact Json.readable_string value
  | relays values filled => exact Json.readable_strings values

theorem display_json (entry : Entry) : display entry.json = entry.written := by
  cases entry with
  | text name value => rfl
  | relays values filled =>
      rw [json, display, List.map_map, written]
      exact congrArg _ (List.map_id values)

theorem truthy_json (entry : Entry) : entry.json.truthy = !entry.written.isEmpty := by
  cases entry with
  | text name value => rfl
  | relays values filled =>
      have some : ([','].intercalate values).isEmpty = false := List.isEmpty_eq_false_iff.mpr filled
      rw [written, some]
      rfl

end Entry

/-- The settings of a caller, but for the target and the base. -/
structure Entries where
  list : List Entry
  distinct : (list.map Entry.name).Nodup
  noTarget : ∀ entry ∈ list, entry.name ≠ "target".toList
  noBase : ∀ entry ∈ list, entry.name ≠ "base".toList
  own : ∀ entry ∈ list, entry.name ≠ Record.proto

/-- The entry of a name. -/
def Entries.find (entries : Entries) (name : Text) : Option Entry :=
  entries.list.find? fun entry => entry.name == name

namespace Entries

variable (entries : Entries) (value : Entry → Json)

/-- The settings by their names. -/
def config : Config :=
  entries.list.map fun entry => (entry.name, value entry)

theorem names_config : (entries.config value).map Prod.fst = entries.list.map Entry.name := by
  rw [config, List.map_map]
  rfl

theorem notMem_config {name : Text} (other : ∀ entry ∈ entries.list, entry.name ≠ name) :
    name ∉ (entries.config value).map Prod.fst := by
  rw [names_config]
  intro member
  obtain ⟨entry, inside, same⟩ := List.mem_map.mp member
  exact other entry inside same

theorem lookup_config (name : Text) :
    (entries.config value).lookup name = (entries.find name).map value := by
  rw [config, find]
  induction entries.list with
  | nil => rfl
  | cons entry list ih =>
      rw [List.map_cons, Record.lookup_cons_eq, ih, List.find?_cons]
      by_cases here : name = entry.name
      · rw [if_pos here, beq_iff_eq.mpr here.symm]
        rfl
      · rw [if_neg here, beq_eq_false_iff_ne.mpr (Ne.symm here)]

/-- With one more setting in front. -/
theorem notMem_cons_config {name : Text} (other : ∀ entry ∈ entries.list, entry.name ≠ name)
    {first : Text} (different : name ≠ first) (front : Json) :
    name ∉ ((first, front) :: entries.config value).map Prod.fst := by
  rw [List.map_cons, List.mem_cons, not_or]
  exact ⟨different, entries.notMem_config value other⟩

end Entries

/-! ## The two ways -/

section Ways

variable (entries : Entries) (target : Text)

/-- From the page's own origin, with a query that is escaped with care. -/
def vendored (set : Char → Bool) (href : Text) : Scope where
  injected := none
  href := href
  search := Form.query set (("target".toList, target) ::
    entries.list.map fun entry => (entry.name, entry.written))

/-- From another origin: the settings that the loader writes down. -/
def injection (web : Text) : Config :=
  loaderConfig (entries.config Entry.json) target web

/-- The settings that are read from the query, by their names. -/
theorem lookup_vendored {set : Char → Bool} (careful : Form.Careful set) (href name : Text) :
    (vendored entries target set href).given.lookup name =
      if name = "target".toList then some (.string target)
      else (entries.find name).map fun entry => .string entry.written := by
  have parsed : (vendored entries target set href).given =
      Record.fromEntries (("target".toList, .string target) ::
        entries.config fun entry => .string entry.written) := by
    rw [Scope.given, vendored, Option.getD_none, Form.parse_query careful, List.map_cons,
      List.map_map]
    rfl
  have own := entries.notMem_cons_config (fun entry => .string entry.written) entries.own
    (show Record.proto ≠ "target".toList by decide) (.string target)
  have distinct : (([] ++ ("target".toList, Json.string target) ::
      entries.config fun entry => .string entry.written).map Prod.fst).Nodup := by
    rw [List.nil_append, List.map_cons, List.nodup_cons]
    refine ⟨entries.notMem_config _ entries.noTarget, ?_⟩
    rw [entries.names_config]
    exact entries.distinct
  rw [parsed, Record.fromEntries_eq_setAll own, Record.setAll_of_nodup distinct own,
    List.nil_append, Record.lookup_cons_eq, entries.lookup_config]

/-- The settings that the loader writes down, by their names. -/
theorem lookup_injection (web name : Text) :
    (injection entries target web).lookup name =
      if name = "base".toList then some (.string web)
      else if name = "target".toList then some (.string target)
      else ((entries.find name).map Entry.json).or
        (if name = "mode".toList then some (.string "iroh".toList) else none) := by
  have own := entries.notMem_cons_config Entry.json entries.own
    (show Record.proto ≠ "mode".toList by decide) (.string "iroh".toList)
  have distinct : ((entries.config Entry.json).map Prod.fst).Nodup := by
    rw [entries.names_config]
    exact entries.distinct
  have options : (Record.fromEntries (("mode".toList, .string "iroh".toList) ::
      entries.config Entry.json)).lookup name = ((entries.find name).map Entry.json).or
        (if name = "mode".toList then some (.string "iroh".toList) else none) := by
    rw [Record.fromEntries_eq_setAll own]
    by_cases accessor : name = Record.proto
    · have absent : entries.find name = none := by
        apply List.find?_eq_none.mpr
        intro entry inside same
        exact entries.own entry inside ((beq_iff_eq.mp same).trans accessor)
      rw [absent, accessor, Record.lookup_setAll_proto rfl, if_neg (by decide)]
      rfl
    · rw [Record.lookup_setAll _ _ accessor, List.reverse_cons, List.lookup_append,
        Record.lookup_reverse distinct, entries.lookup_config, Record.lookup_cons_eq]
      exact Option.or_none
  rw [injection, loaderConfig, Record.lookup_put, Record.lookup_put, options]

theorem fromEntries_config :
    Record.fromEntries (("mode".toList, .string "iroh".toList) :: entries.config Entry.json) =
      Record.setAll [] (("mode".toList, .string "iroh".toList) :: entries.config Entry.json) :=
  Record.fromEntries_eq_setAll
    (entries.notMem_cons_config Entry.json entries.own
      (show Record.proto ≠ "mode".toList by decide) (.string "iroh".toList))

theorem nodup_injection (web : Text) : ((injection entries target web).map Prod.fst).Nodup := by
  rw [injection, loaderConfig, fromEntries_config]
  exact Record.nodup_put (Record.nodup_put (Record.nodup_setAll_nil _) _ _) _ _

/-- Everything the loader writes down reads back. -/
theorem readable_injection (web : Text) :
    ∀ member ∈ injection entries target web, member.2.Readable := by
  intro member inside
  rw [injection, loaderConfig, fromEntries_config] at inside
  rcases Record.mem_put inside with rfl | inside
  · exact Json.readable_string web
  · rcases Record.mem_put inside with rfl | inside
    · exact Json.readable_string target
    · rcases Record.mem_setAll inside with old | given
      · exact absurd old List.not_mem_nil
      · rcases List.mem_cons.mp given with rfl | option
        · exact Json.readable_string _
        · obtain ⟨entry, -, rfl⟩ := List.mem_map.mp option
          exact entry.readable_json

/-- The same with the base filled in. -/
theorem lookup_config_vendored {set : Char → Bool} (careful : Form.Careful set)
    (href name : Text) :
    (vendored entries target set href).config.lookup name =
      if name = "base".toList then some (.string href)
      else if name = "target".toList then some (.string target)
      else (entries.find name).map fun entry => .string entry.written := by
  have absent : entries.find "base".toList = none := by
    apply List.find?_eq_none.mpr
    intro entry inside same
    exact entries.noBase entry inside (beq_iff_eq.mp same)
  have unset : (vendored entries target set href).given.lookup "base".toList = none := by
    rw [lookup_vendored entries target careful, if_neg (by decide), absent]
    rfl
  rw [Scope.config, unset]
  dsimp only
  rw [Record.lookup_put, lookup_vendored entries target careful]
  rfl

/-- From another origin: the worker with the settings that the script sets. -/
def injected (web blob : Text) : Scope where
  injected := some (Record.entries (injection entries target web))
  href := blob
  search := []

/-- The base of the loader stays. -/
theorem lookup_config_injected (web blob name : Text) :
    (injected entries target web blob).config.lookup name =
      if name = "base".toList then some (.string web)
      else if name = "target".toList then some (.string target)
      else ((entries.find name).map Entry.json).or
        (if name = "mode".toList then some (.string "iroh".toList) else none) := by
  have listed : ∀ name, (Record.entries (injection entries target web)).lookup name =
      (injection entries target web).lookup name :=
    Record.lookup_entries (nodup_injection entries target web)
  have set : (Record.entries (injection entries target web)).lookup "base".toList =
      some (.string web) := by
    rw [listed, lookup_injection, if_pos rfl]
  rw [Scope.config, Scope.given, injected, Option.getD_some, set]
  dsimp only
  rw [listed, lookup_injection]

theorem truthy_string (value : Text) : (Json.string value).truthy = !value.isEmpty :=
  rfl

/-- A setting of the caller is read alike on both ways, unless it is the mode. -/
theorem text_eq {set : Char → Bool} (careful : Form.Careful set) (href web blob : Text)
    {name : Text} (noBase : name ≠ "base".toList) (noTarget : name ≠ "target".toList)
    (noMode : name ≠ "mode".toList ∨ (entries.find name).isSome) :
    text (vendored entries target set href).config name =
      text (injected entries target web blob).config name := by
  rw [text, text, lookup_config_vendored entries target careful, lookup_config_injected,
    if_neg noBase, if_neg noBase, if_neg noTarget, if_neg noTarget]
  cases found : entries.find name with
  | none =>
      rw [found] at noMode
      have other : name ≠ "mode".toList := noMode.resolve_right Bool.false_ne_true
      rw [if_neg other]
      rfl
  | some entry =>
      rw [Option.map_some, Option.map_some, Option.some_or, Option.bind_some, Option.bind_some,
        entry.truthy_json, entry.display_json, truthy_string]
      rfl

/-- A setting that is no list is the same value on both ways. -/
theorem lookup_eq {set : Char → Bool} (careful : Form.Careful set) (href web blob : Text)
    {name : Text} (noBase : name ≠ "base".toList) (noTarget : name ≠ "target".toList)
    (noMode : name ≠ "mode".toList) (noRelays : name ≠ "relays".toList) :
    (vendored entries target set href).config.lookup name =
      (injected entries target web blob).config.lookup name := by
  rw [lookup_config_vendored entries target careful, lookup_config_injected, if_neg noBase,
    if_neg noBase, if_neg noTarget, if_neg noTarget, if_neg noMode, Option.or_none]
  cases found : entries.find name with
  | none => rfl
  | some entry =>
      cases entry with
      | text name value => rfl
      | relays values filled =>
          have named := List.find?_some found
          exact absurd (beq_iff_eq.mp named).symm noRelays

/-- Without a mode, the loader has one and the query has none. -/
theorem text_mode {set : Char → Bool} (careful : Form.Careful set) (href web blob : Text)
    (absent : entries.find "mode".toList = none) :
    text (vendored entries target set href).config "mode".toList = none ∧
      text (injected entries target web blob).config "mode".toList = some "iroh".toList := by
  rw [text, text, lookup_config_vendored entries target careful, lookup_config_injected, absent]
  exact ⟨rfl, rfl⟩

theorem isSome_find_iff (name : Text) :
    (entries.find name).isSome ↔ name ∈ entries.list.map Entry.name := by
  rw [Entries.find, List.find?_isSome, List.mem_map]
  simp only [beq_iff_eq]

theorem imports_eq {newUrl : Text → Text → Except Text Text} {config : Config} {base : Text}
    (filled : target ≠ []) (placed : config.lookup "base".toList = some (.string base))
    (aimed : config.lookup "target".toList = some (.string target)) :
    imports newUrl config = (siblings newUrl base).map fun urls => urls ++ [target] := by
  have read : text config "target".toList = some target := by
    rw [text, aimed, Option.bind_some, truthy_string, List.isEmpty_eq_false_iff.mpr filled]
    rfl
  have from_base : (text config "base".toList).getD [] = base := by
    rw [text, placed, Option.bind_some, truthy_string]
    cases base <;> rfl
  rw [imports, read, from_base]

/-- The shim is started alike if and only if the mode is given. -/
theorem shim_eq_iff {set : Char → Bool} (careful : Form.Careful set) (href web blob : Text) :
    shim (vendored entries target set href).config =
        shim (injected entries target web blob).config ↔
      "mode".toList ∈ entries.list.map Entry.name := by
  rw [← isSome_find_iff]
  constructor
  · intro same
    by_contra missing
    have absent : entries.find "mode".toList = none := Option.not_isSome_iff_eq_none.mp missing
    obtain ⟨left, right⟩ := text_mode entries target careful href web blob absent
    have modes := congrArg (fun shim => shim.settings.mode) same
    have equal : text (vendored entries target set href).config "mode".toList =
        text (injected entries target web blob).config "mode".toList := modes
    rw [left, right] at equal
    cases equal
  · intro given
    have alike : ∀ name, name ≠ "base".toList → name ≠ "target".toList →
        name ≠ "mode".toList → text (vendored entries target set href).config name =
          text (injected entries target web blob).config name := fun _ noBase noTarget noMode =>
      text_eq entries target careful href web blob noBase noTarget (Or.inl noMode)
    have mode := text_eq entries target careful href web blob (show "mode".toList ≠ "base".toList by
      decide) (by decide) (Or.inr given)
    have single : ∀ name, name ≠ "base".toList → name ≠ "target".toList →
        name ≠ "mode".toList → name ≠ "relays".toList →
          (vendored entries target set href).config.lookup name =
            (injected entries target web blob).config.lookup name :=
      fun _ => lookup_eq entries target careful href web blob
    rw [shim, shim, mode, number, number, number, number,
      single "debug".toList (by decide) (by decide) (by decide) (by decide),
      single "timeout".toList (by decide) (by decide) (by decide) (by decide),
      single "chunk".toList (by decide) (by decide) (by decide) (by decide)]
    rw [alike "relay".toList (by decide) (by decide) (by decide),
      alike "relays".toList (by decide) (by decide) (by decide),
      alike "fault".toList (by decide) (by decide) (by decide),
      alike "intercept".toList (by decide) (by decide) (by decide),
      alike "bridge".toList (by decide) (by decide) (by decide)]

end Ways

/-- What `encodeURIComponent` escapes. -/
def reserved (c : Char) : Bool :=
  !(c.isAlphanum || "-_.!~*'()".toList.contains c)

def sampleEntries : Entries where
  list := [.text "mode".toList "iroh".toList,
    .relays ["https://a.example/".toList, "https://b.example/".toList] (by decide)]
  distinct := by decide
  noTarget := by decide
  noBase := by decide
  own := by decide

def sampleTarget : Text :=
  "https://page.example/duckdb.worker.js".toList

def sampleHref : Text :=
  "https://page.example/qh-worker.js".toList

def sampleWeb : Text :=
  "https://cdn.example/web/".toList

def sampleWorker : Text :=
  "https://cdn.example/web/qh-worker.js".toList

/-- The URL of a file beside another. -/
def beside (name base : Text) : Except Text Text :=
  .ok ((base.reverse.dropWhile (· ≠ '/')).reverse ++ name)

end Quackhole.Web.Setup
