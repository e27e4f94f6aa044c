import Quackhole.Word.Number

/-!
# The command line of the client

The words are gone over once, from the left.  A flag takes the word after it, whatever
that word is; a word that is no flag, or a flag without a value, ends the process.
-/

namespace Quackhole.Npm

open Quackhole.Word

/-- How the process ends while it reads its command line. -/
inductive Exit where
  /-- It prints a text and ends with 0. -/
  | printed (text : Text)
  /-- `die`: it prints a message and ends with 1. -/
  | died (message : Text)
deriving DecidableEq

structure Options where
  token : Text
  port : JsNumber
  page : Text
  relays : List Text
deriving DecidableEq

/-- What the client is when it starts. -/
structure Program where
  version : Text
  /-- `PAGE`. -/
  page : Text
  /-- `randomBytes(12).toString('hex')`. -/
  randomToken : Text

/-- The words that are flags. -/
inductive FlagName where
  | token
  | port
  | page
  | relay
deriving DecidableEq

def FlagName.word : FlagName → Text
  | .token => "--token".toList
  | .port => "--port".toList
  | .page => "--page".toList
  | .relay => "--relay".toList

def helpText (version : Text) : Text :=
  "\n  quackhole ".toList ++ version ++
    ("\n\n  Serve this machine's DuckDB to a browser, over an encrypted peer-to-peer\n" ++
      "  connection. Prints a link that opens the workbench already connecting.\n\n" ++
      "    npx quackhole\n\n" ++
      "    --token <t>   Shared token. A fresh random one by default\n" ++
      "    --port <n>    Quack's local port (default 9494)\n" ++
      "    --page <url>  Aim the printed link at another workbench\n" ++
      "    --relay <url> Home on your own iroh relay instead of n0's. Repeatable\n" ++
      "    --version     Print the version and exit\n" ++
      "    --help        This\n\n" ++
      "  The link carries the token, so treat it like one: anyone holding it can query\n" ++
      "  this database until you stop. Ctrl-C stops it and removes the sample data.\n").toList

/-- A relay URL, refusing the empty one. -/
def relayValue (value : Text) : Except Exit Text :=
  if trimSpace value = [] then
    .error (.died
      "--relay needs a relay URL. Leave it out entirely for n0's public relays.".toList)
  else .ok (trimSpace value)

/-- The number is a port. -/
def isPort : JsNumber → Bool
  | .finite value => decide (value.isInt = true ∧ 1 ≤ value ∧ value ≤ 65535)
  | _ => false

/-- What a flag does with its value. -/
def assign (options : Options) (name : FlagName) (value : Text) : Except Exit Options :=
  match name with
  | .token => .ok { options with token := value }
  | .port => .ok { options with port := .ofText value }
  | .page => .ok { options with page := value }
  | .relay => (relayValue value).map fun relay =>
      { options with relays := options.relays ++ [relay] }

/-- The flag a word is. -/
def flagName (word : Text) : Option FlagName :=
  if word = FlagName.token.word then some .token
  else if word = FlagName.port.word then some .port
  else if word = FlagName.page.word then some .page
  else if word = FlagName.relay.word then some .relay
  else none

section Parse

variable (program : Program)

/-- The loop of `parseArgs`. -/
def parseFrom : List Text → Options → Except Exit Options
  | [], options => .ok options
  | arg :: rest, options =>
      if arg = "--help".toList ∨ arg = "-h".toList then
        .error (.printed (helpText program.version))
      else if arg = "--version".toList ∨ arg = "-v".toList then
        .error (.printed program.version)
      else
        match flagName arg with
        | none => .error (.died ("Unknown option ".toList ++ arg ++ ". Try --help.".toList))
        | some name =>
            match rest with
            | [] => .error (.died (arg ++ " needs a value.".toList))
            | value :: rest =>
                match assign options name value with
                | .error exit => .error exit
                | .ok options => parseFrom rest options

def Options.initial : Options where
  token := program.randomToken
  port := .finite 9494
  page := program.page
  relays := []

def parseArgs (argv : List Text) : Except Exit Options :=
  (parseFrom program argv (.initial program)).bind fun options =>
    if isPort options.port then .ok options
    else .error (.died ("--port ".toList ++ options.port.printed ++ " is not a port.".toList))

end Parse

/-! ## What is accepted -/

/-- The words a flag is given with. -/
def words (flag : FlagName × Text) : List Text :=
  [flag.1.word, flag.2]

/-- The values a flag is given, in order. -/
def values (name : FlagName) (flags : List (FlagName × Text)) : List Text :=
  flags.filterMap fun flag => if flag.1 = name then some flag.2 else none

/-- The last value of a flag counts, but for relays, of which each does. -/
def Options.given (options : Options) (flags : List (FlagName × Text)) : Options where
  token := (values .token flags).getLast?.getD options.token
  port := ((values .port flags).map JsNumber.ofText).getLast?.getD options.port
  page := (values .page flags).getLast?.getD options.page
  relays := options.relays ++ (values .relay flags).map trimSpace

theorem flagName_word (name : FlagName) : flagName name.word = some name := by
  cases name <;> decide

theorem word_of_flagName {word : Text} {name : FlagName} (flag : flagName word = some name) :
    word = name.word := by
  unfold flagName at flag
  split_ifs at flag with token port page relay <;> cases flag <;> assumption

/-- No flag asks for help or for the version. -/
theorem word_ne (name : FlagName) :
    ¬ (name.word = "--help".toList ∨ name.word = "-h".toList) ∧
      ¬ (name.word = "--version".toList ∨ name.word = "-v".toList) := by
  cases name <;> decide

section Accepted

variable {program : Program}

theorem parseFrom_words (name : FlagName) (value : Text) (rest : List Text) (options : Options) :
    parseFrom program (words (name, value) ++ rest) options =
      (assign options name value).bind (parseFrom program rest) := by
  rw [words, List.cons_append, List.cons_append, List.nil_append, parseFrom,
    if_neg (word_ne name).1, if_neg (word_ne name).2]
  dsimp only
  rw [flagName_word]
  dsimp only
  cases assign options name value <;> rfl

theorem assign_eq_ok_iff {options result : Options} {name : FlagName} {value : Text} :
    assign options name value = .ok result ↔
      (name = .relay → trimSpace value ≠ []) ∧ result = options.given [(name, value)] := by
  cases name with
  | relay =>
      unfold assign relayValue
      by_cases blank : trimSpace value = []
      · simp [blank, Except.map]
      · simp only [blank, if_false, Except.map, Except.ok.injEq, ne_eq, not_false_eq_true,
          implies_true, true_and]
        exact eq_comm
  | _ =>
      simp only [assign, Except.ok.injEq, reduceCtorEq, false_implies, true_and, Options.given,
        values, List.filterMap_cons, if_true, if_false, List.filterMap_nil, List.map_nil,
        List.map_cons, List.append_nil, List.getLast?_singleton, List.getLast?_nil,
        Option.getD_some, Option.getD_none]
      exact eq_comm

theorem values_cons (name : FlagName) (flag : FlagName × Text) (flags : List (FlagName × Text)) :
    values name (flag :: flags) = values name [flag] ++ values name flags := by
  rw [values, values, values, ← List.filterMap_append]
  rfl

theorem forall_values_cons (name : FlagName) (value : Text) (flags : List (FlagName × Text)) :
    (∀ relay ∈ values .relay ((name, value) :: flags), trimSpace relay ≠ []) ↔
      (name = .relay → trimSpace value ≠ []) ∧
        ∀ relay ∈ values .relay flags, trimSpace relay ≠ [] := by
  rw [values_cons, List.forall_mem_append]
  apply and_congr_left'
  cases name <;> simp [values]

theorem given_nil (options : Options) : options.given [] = options := by
  simp [Options.given, values]

theorem given_cons (options : Options) (flag : FlagName × Text)
    (flags : List (FlagName × Text)) :
    options.given (flag :: flags) =
      (options.given [flag]).given flags := by
  have last {α : Type} (first second : List α) (default : α) :
      (first ++ second).getLast?.getD default =
        second.getLast?.getD (first.getLast?.getD default) := by
    rw [List.getLast?_append]
    cases second.getLast? <;> rfl
  simp only [Options.given, values_cons _ flag flags, List.map_append, last, List.append_assoc]

/-- What is accepted is a flag and its value, and so on. -/
theorem parseFrom_eq_ok_iff {argv : List Text} {options result : Options} :
    parseFrom program argv options = .ok result ↔
      ∃ flags : List (FlagName × Text), argv = flags.flatMap words ∧
        (∀ value ∈ values .relay flags, trimSpace value ≠ []) ∧
          result = options.given flags := by
  constructor
  · intro read
    induction argv, options using parseFrom.induct with
    | case1 options =>
        obtain rfl := Except.ok.inj read
        exact ⟨[], rfl, fun _ member => absurd member List.not_mem_nil, (given_nil options).symm⟩
    | case2 arg rest options help =>
        rw [parseFrom, if_pos help] at read
        cases read
    | case3 arg rest options help version =>
        rw [parseFrom, if_neg help, if_pos version] at read
        cases read
    | case4 arg rest options help version unknown =>
        simp only [parseFrom, if_neg help, if_neg version, unknown] at read
        cases read
    | case5 arg options help version name flag =>
        simp only [parseFrom, if_neg help, if_neg version, flag] at read
        cases read
    | case6 arg options help version name flag value rest exit assigned =>
        simp only [parseFrom, if_neg help, if_neg version, flag, assigned] at read
        cases read
    | case7 arg options help version name flag value rest middle assigned ih =>
        simp only [parseFrom, if_neg help, if_neg version, flag, assigned] at read
        rcases ih read with ⟨flags, rfl, filled, rfl⟩
        rcases assign_eq_ok_iff.mp assigned with ⟨relay, rfl⟩
        obtain rfl := word_of_flagName flag
        refine ⟨(name, value) :: flags, rfl, ?_, (given_cons _ _ _).symm⟩
        exact (forall_values_cons _ _ _).mpr ⟨relay, filled⟩
  · rintro ⟨flags, rfl, filled, rfl⟩
    induction flags generalizing options with
    | nil => exact congrArg Except.ok (given_nil options).symm
    | cons flag flags ih =>
        rcases flag with ⟨name, value⟩
        rcases (forall_values_cons _ _ _).mp filled with ⟨relay, rest⟩
        rw [List.flatMap_cons, parseFrom_words, given_cons, assign_eq_ok_iff.mpr ⟨relay, rfl⟩]
        exact ih rest

/-- What was read is accepted if its port is one. -/
theorem parseArgs_eq_ok {argv : List Text} {options : Options} :
    parseArgs program argv = .ok options ↔
      parseFrom program argv (.initial program) = .ok options ∧ isPort options.port = true := by
  rw [parseArgs]
  cases parseFrom program argv (.initial program) with
  | error exit => exact iff_of_false nofun fun both => nomatch both.1
  | ok given =>
      change (if _ then _ else _) = _ ↔ _
      split
      · rename_i port
        rw [Except.ok.injEq]
        exact ⟨fun same => ⟨same, same ▸ port⟩, And.left⟩
      · rename_i port
        refine iff_of_false nofun fun both => port ?_
        rw [Except.ok.inj both.1]
        exact both.2

/-- The command line is accepted exactly where it is flags with a value each, whatever the value
looks like, of which every relay names something and the last port is a port; the last
value of a flag counts, and each relay does. -/
theorem parseArgs_eq_ok_iff {argv : List Text} {options : Options} :
    parseArgs program argv = .ok options ↔
      ∃ flags : List (FlagName × Text), argv = flags.flatMap words ∧
        (∀ value ∈ values .relay flags, trimSpace value ≠ []) ∧
          options = (Options.initial program).given flags ∧ isPort options.port = true := by
  rw [parseArgs_eq_ok, parseFrom_eq_ok_iff]
  constructor
  · rintro ⟨⟨flags, whole, filled, rfl⟩, port⟩
    exact ⟨flags, whole, filled, rfl, port⟩
  · rintro ⟨flags, whole, filled, rfl, port⟩
    exact ⟨⟨flags, whole, filled, rfl⟩, port⟩

theorem isPort_natCast {n : ℕ} : isPort (.finite n) = true ↔ 1 ≤ n ∧ n ≤ 65535 := by
  have whole : (n : ℚ).isInt = true := beq_iff_eq.mpr (Rat.den_natCast n)
  rw [isPort, decide_eq_true_iff, whole]
  simp only [true_and]
  norm_cast

/-- A port is a natural number, and is written as one. -/
theorem printed_of_isPort {number : JsNumber} (port : isPort number = true) :
    ∃ n : ℕ, 1 ≤ n ∧ n ≤ 65535 ∧ number = .finite n ∧ number.printed = decimal n := by
  cases number with
  | nan => cases port
  | infinite negative => cases port
  | finite value =>
      obtain ⟨whole, least, most⟩ := of_decide_eq_true port
      obtain ⟨n, rfl⟩ : ∃ n : ℕ, value = n := by
        have positive : 0 ≤ value.num := Rat.num_nonneg.mpr (zero_le_one.trans least)
        refine ⟨value.num.toNat, ?_⟩
        rw [← Int.cast_natCast, Int.toNat_of_nonneg positive]
        exact (Rat.den_eq_one_iff value).mp (beq_iff_eq.mp whole) |>.symm
      have low : 1 ≤ n := by exact_mod_cast least
      have high : n ≤ 65535 := by exact_mod_cast most
      exact ⟨n, low, high, rfl, printed_natCast low (by omega)⟩

/-- A port that is given in decimal digits is taken as it is. -/
theorem parseArgs_port {n : ℕ} (low : 1 ≤ n) (high : n ≤ 65535) :
    parseArgs program (words (.port, decimal n)) =
      .ok { Options.initial program with port := .finite n } := by
  have read := @parseFrom_words program .port (decimal n) [] (.initial program)
  rw [List.append_nil, assign, ofText_decimal (by omega)] at read
  exact parseArgs_eq_ok.mpr ⟨read, isPort_natCast.mpr ⟨low, high⟩⟩

end Accepted

end Quackhole.Npm
