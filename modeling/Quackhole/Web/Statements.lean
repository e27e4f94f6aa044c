import Quackhole.Web.Interleaving
import Quackhole.Word.Literal

/-!
# The statements of a session as texts

A session puts tokens and addresses into its statements as literals, and the names
of catalogs and secrets as they are.  A database that goes by the text reads the
statement that was meant, in every run of calls that overlap in any way: the names
are made by the session, and need no quotes.
-/

namespace Quackhole.Web.Remotes

open Quackhole.Word Quackhole.Word.Sql Quackhole.Ticket Quackhole.Transition

namespace Statement

/-- What `conn.query` is handed. -/
def text : Statement → Text
  | .createSecret name token scope =>
      "CREATE SECRET ".toList ++ name ++ " (TYPE quack, TOKEN ".toList ++ quoted token ++
        ", SCOPE ".toList ++ quoted scope ++ ")".toList
  | .attach path name => "ATTACH ".toList ++ quoted path ++ " AS ".toList ++ name
  | .detach name => "DETACH ".toList ++ name
  | .dropSecret name => "DROP SECRET IF EXISTS ".toList ++ name
  | .databaseNames => "SELECT database_name FROM duckdb_databases()".toList

/-- What a text is read as. -/
def written : Statement → List Piece
  | .createSecret name token scope =>
      runs ["CREATE", "SECRET"] ++ .run name none :: runs ["(TYPE", "quack,", "TOKEN"] ++
        value token :: runs [",", "SCOPE"] ++ value scope :: runs [")"]
  | .attach path name => runs ["ATTACH"] ++ value path :: runs ["AS"] ++ [.run name none]
  | .detach name => runs ["DETACH"] ++ [.run name none]
  | .dropSecret name => runs ["DROP", "SECRET", "IF", "EXISTS"] ++ [.run name none]
  | .databaseNames => runs ["SELECT", "database_name", "FROM", "duckdb_databases()"]

/-- The statement in the pieces of a text, for the forms a session uses: keywords, a
name and literals where they belong. -/
def ofPieces : List Piece → Option Statement
  | [k₁, k₂, .run name none, k₃, k₄, k₅, .literal (.quote .single) token, k₆, k₇,
      .literal (.quote .single) scope, k₈] =>
      if [k₁, k₂, k₃, k₄, k₅, k₆, k₇, k₈] =
          runs ["CREATE", "SECRET", "(TYPE", "quack,", "TOKEN", ",", "SCOPE", ")"] ∧
          isIdentifier name then
        some (.createSecret name (undoubled token) (undoubled scope))
      else none
  | [k₁, .literal (.quote .single) path, k₂, .run name none] =>
      if [k₁, k₂] = runs ["ATTACH", "AS"] ∧ isIdentifier name then
        some (.attach (undoubled path) name)
      else none
  | [k₁, .run name none] =>
      if [k₁] = runs ["DETACH"] ∧ isIdentifier name then some (.detach name) else none
  | [k₁, k₂, k₃, k₄, .run name none] =>
      if [k₁, k₂, k₃, k₄] = runs ["DROP", "SECRET", "IF", "EXISTS"] ∧ isIdentifier name then
        some (.dropSecret name)
      else none
  | [k₁, k₂, k₃, k₄] =>
      if [k₁, k₂, k₃, k₄] =
          runs ["SELECT", "database_name", "FROM", "duckdb_databases()"] then
        some .databaseNames
      else none
  | _ => none

/-- What a database that goes by the text takes it for. -/
def read (text : Text) : Option Statement :=
  (pieces text).bind ofPieces

/-- The name in a statement. -/
def name : Statement → Option Text
  | .createSecret name _ _ | .attach _ name | .detach name | .dropSecret name => some name
  | .databaseNames => none

/-- The name needs no quotes. -/
def Plain (statement : Statement) : Prop :=
  ∀ name, statement.name = some name → isIdentifier name = true

theorem ofPieces_written {statement : Statement} (plain : statement.Plain) :
    ofPieces statement.written = some statement := by
  cases statement with
  | createSecret name token scope =>
      have identifier := plain name rfl
      simp [written, runs, value, ofPieces, identifier]
  | attach path name =>
      have identifier := plain name rfl
      simp [written, runs, value, ofPieces, identifier]
  | detach name =>
      have identifier := plain name rfl
      simp [written, runs, ofPieces, identifier]
  | dropSecret name =>
      have identifier := plain name rfl
      simp [written, runs, ofPieces, identifier]
  | databaseNames => rfl

/-! ## The text of a statement -/

section Codes

variable {name : Text} (identifier : isIdentifier name = true)

include identifier in
/-- Words, a name, and words. -/
theorem foldl_name {before after : Text} {front rear : List Piece} {run : Text}
    (read : before.foldl step .start = ⟨front, .code []⟩)
    (rest : after.foldl step .start = ⟨rear, .code run⟩) :
    (before ++ name ++ ' ' :: after).foldl step .start =
      ⟨front ++ .run name none :: rear, .code run⟩ := by
  rw [List.foldl_append, List.foldl_append, read,
    foldl_word (isWordChar_of_isIdentifier identifier), List.nil_append, foldl_space, rest,
    flush_of_ne_nil (ne_nil_of_isIdentifier identifier), Reader.behind, List.append_assoc]
  rfl

include identifier in
/-- Words, and a name. -/
theorem foldl_last {before : Text} {front : List Piece}
    (read : before.foldl step .start = ⟨front, .code []⟩) :
    (before ++ name).foldl step .start = ⟨front, .code name⟩ := by
  rw [List.foldl_append, read, foldl_word (isWordChar_of_isIdentifier identifier)]
  rfl

include identifier in
theorem pieces_last {before : Text} {front : List Piece}
    (read : before.foldl step .start = ⟨front, .code []⟩) :
    pieces (before ++ name) = some (front ++ [.run name none]) := by
  rw [pieces, foldl_last identifier read]
  exact congrArg some (flush_of_ne_nil (ne_nil_of_isIdentifier identifier) _ _)

theorem begins_create : Begins "CREATE SECRET ".toList :=
  begins_of_beginsCode (by decide)

/-- `CREATE SECRET … (TYPE quack, TOKEN `. -/
def createCode : Opener where
  text := "CREATE SECRET ".toList ++ name ++ " (TYPE quack, TOKEN ".toList
  pieces := runs ["CREATE", "SECRET"] ++ .run name none :: runs ["(TYPE", "quack,", "TOKEN"]
  run := []
  reads := @foldl_name _ identifier _ "(TYPE quack, TOKEN ".toList _ _ _ rfl rfl
  begins := (begins_create.append name).append _
  plain := isEscapePrefix_nil

/-- `, SCOPE `. -/
def scopeCode : Opener :=
  .ofWords ", SCOPE ".toList [",", "SCOPE"] (by decide) (by rfl)

theorem reads_close : ")".toList.foldl step .start = ⟨[], .code ")".toList⟩ := by
  rfl

theorem begins_close : Begins ")".toList :=
  begins_of_beginsCode (by decide)

/-- `)`. -/
def closeCode : Code where
  text := ")".toList
  pieces := []
  run := ")".toList
  reads := reads_close
  begins := begins_close

/-- `ATTACH `. -/
def attachCode : Opener :=
  .ofWords "ATTACH ".toList ["ATTACH"] (by decide) (by rfl)

/-- ` AS …`. -/
def asCode : Code where
  text := " AS ".toList ++ name
  pieces := runs ["AS"]
  run := name
  reads := foldl_last identifier rfl
  begins := (begins_of_beginsCode (by decide)).append name

end Codes

/-- The text is read as it was meant, whatever the token and the address are. -/
theorem pieces_text {statement : Statement} (plain : statement.Plain) :
    pieces statement.text = some statement.written := by
  cases statement with
  | createSecret name token scope =>
      have identifier := plain name rfl
      have template : text (.createSecret name token scope) =
          Template.text [(createCode identifier, token), (scopeCode, scope)] ++ closeCode.text := by
        rw [Template.text_pair]
        rfl
      rw [template, Template.pieces_text_append]
      rfl
  | attach path name =>
      have identifier := plain name rfl
      have template : text (.attach path name) =
          Template.text [(attachCode, path)] ++ (asCode identifier).text := by
        rw [Template.text_single]
        exact List.append_assoc _ _ _
      have closed : (asCode identifier).closed none = runs ["AS"] ++ [.run name none] :=
        flush_of_ne_nil (ne_nil_of_isIdentifier identifier) _ _
      rw [template, Template.pieces_text_append, closed]
      rfl
  | detach name => exact pieces_last (plain name rfl) rfl
  | dropSecret name => exact pieces_last (plain name rfl) rfl
  | databaseNames => rfl

/-- A text that names are not quoted in is read back. -/
theorem read_text {statement : Statement} (plain : statement.Plain) :
    read statement.text = some statement := by
  rw [read, pieces_text plain, Option.bind_some, ofPieces_written plain]

end Statement

/-! ## The names a session makes -/

theorem isWordChar_decimal (n : Nat) : ∀ c ∈ decimal n, isWordChar c = true := by
  intro c member
  rw [isWordChar, Char.isAlphanum, isDigit_of_mem_decimal member, Bool.or_true, Bool.true_or]

theorem exists_firstFree (taken : List Text) (base : Text) (fuel n : Nat) :
    ∃ k, firstFree taken base fuel n = base ++ decimal k := by
  induction fuel generalizing n with
  | zero => exact ⟨n, rfl⟩
  | succ fuel ih =>
      rw [firstFree]
      split
      · exact ⟨n, rfl⟩
      · exact ih (n + 1)

theorem isIdentifier_uniqueName {base : Text} (identifier : isIdentifier base = true)
    (taken : List Text) : isIdentifier (uniqueName taken base) = true := by
  rw [uniqueName]
  split
  · exact identifier
  · rcases exists_firstFree taken base taken.length 2 with ⟨k, made⟩
    rw [made]
    exact isIdentifier_append identifier (isWordChar_decimal k)

/-- The names in a record need no quotes. -/
structure Record.Plain (record : Record) : Prop where
  name : isIdentifier record.name = true
  secretName : isIdentifier record.secretName = true

theorem isIdentifier_secretName {peer : Peer} (word : ∀ c ∈ peer.endpointId, isWordChar c = true) :
    isIdentifier peer.secretName = true := by
  have marker : isIdentifier secretMarker = true := by decide
  exact isIdentifier_append marker word

theorem plain_recordOf {peer : Peer} (word : ∀ c ∈ peer.endpointId, isWordChar c = true)
    {name : Text} (identifier : isIdentifier name = true) (names : List Text) :
    (recordOf names peer name).Plain :=
  ⟨isIdentifier_uniqueName identifier names, isIdentifier_secretName word⟩

namespace Phase

/-- The record a call is about needs no quotes. -/
def Plain : Phase → Prop
  | .creating _ record | .attaching _ record | .cleaning record _ | .detaching record
  | .dropping record | .ended (.ok (some record)) => record.Plain
  | _ => True

theorem Plain.after {phase : Phase} (plain : phase.Plain) (reply : Option Reply) :
    (phase.after reply).Plain := by
  cases phase with
  | creating peer record | attaching peer record => cases reply <;> exact plain
  | cleaning record failed => trivial
  | detaching record => exact plain
  | dropping record => trivial
  | selecting => trivial
  | typing name => cases reply <;> trivial
  | parsing => trivial
  | ended result => exact plain

theorem plain_opened {record : Record} (plain : record.Plain) (peer : Peer) :
    (opened peer record).Plain := by
  rw [opened]
  split <;> exact plain

/-- What a call issues needs no quotes, unless it was typed. -/
theorem Plain.statement {phase : Phase} (plain : phase.Plain) {statement : Statement}
    (issued : phase.statement = some statement) (untyped : ∀ name, phase ≠ .typing name) :
    statement.Plain := by
  cases phase with
  | creating peer record =>
      cases issued
      rintro name ⟨⟩
      exact plain.secretName
  | attaching peer record =>
      cases issued
      rintro name ⟨⟩
      exact plain.name
  | cleaning record failed | dropping record =>
      cases issued
      rintro name ⟨⟩
      exact plain.secretName
  | detaching record =>
      cases issued
      rintro name ⟨⟩
      exact plain.name
  | selecting =>
      cases issued
      rintro name ⟨⟩
  | typing name => exact absurd rfl (untyped name)
  | parsing | ended result => cases issued

end Phase

namespace World

/-- Names are asked for that need no quotes, and what is detached was attached. -/
def Proper : Event → World → Prop
  | .call (.attach _ name), _ => isIdentifier name = true
  | .call (.detach object), world =>
      ∃ task ∈ world.tasks, task.phase = .ended (.ok (some object.2))
  | _, _ => True

/-- Every call is about a record that needs no quotes, and asks for a name that does not
either. -/
structure Spelled (world : World) : Prop where
  phases : ∀ task ∈ world.tasks, task.phase.Plain
  asked : ∀ task ∈ world.tasks, ∀ ticket name, task.call = .attach ticket name →
    isIdentifier name = true

section Steps

variable {Id Url : Type} {iroh : Iroh Id Url} {codec : TicketCodec} {world : World}

theorem Spelled.set (spelled : world.Spelled) {index : Nat} {old : Task} (task : Task)
    (plain : task.phase.Plain) (found : world.tasks[index]? = some old)
    (same : task.call = old.call) {later : World} (tasks : later.tasks = world.tasks.set index task) :
    later.Spelled := by
  have inside : old ∈ world.tasks := List.mem_of_getElem? found
  constructor
  · intro other member
    rw [tasks] at member
    rcases List.mem_or_eq_of_mem_set member with before | rfl
    · exact spelled.phases other before
    · exact plain
  · intro other member ticket name called
    rw [tasks] at member
    rcases List.mem_or_eq_of_mem_set member with before | rfl
    · exact spelled.asked other before ticket name called
    · exact spelled.asked old inside ticket name (same.symm.trans called)

theorem Spelled.spawn (spelled : world.Spelled) {call : Call (Nat × Record)}
    (proper : Proper (.call call) world) : (world.spawn call).Spelled := by
  constructor
  · intro task member
    rcases List.mem_append.mp member with before | new
    · exact spelled.phases task before
    · obtain rfl := List.mem_singleton.mp new
      cases call with
      | attach ticket name => trivial
      | detach object =>
          rcases proper with ⟨made, before, ended⟩
          have plain := spelled.phases made before
          rw [ended] at plain
          exact plain
      | reconcile => trivial
      | typed name => trivial
  · intro task member ticket name called
    rcases List.mem_append.mp member with before | new
    · exact spelled.asked task before ticket name called
    · obtain rfl := List.mem_singleton.mp new
      obtain rfl := called
      exact proper

/-- What an attach opens with needs no quotes. -/
theorem plain_of_opening (word : ∀ endpointId, ∀ c ∈ iroh.toZ32 endpointId, isWordChar c = true)
    {ticket name : Text} (identifier : isIdentifier name = true) {peer : Peer} {record : Record}
    (opens : world.opening iroh codec ticket name = .ok (peer, record)) : record.Plain := by
  rw [opening] at opens
  split at opens
  · cases opens
  · rename_i read
    split at opens
    · cases opens
    · obtain ⟨rfl, rfl⟩ := Prod.mk.inj (Except.ok.inj opens)
      rcases exists_of_parseTicket read with ⟨endpointId, relay, printed, -⟩
      apply plain_recordOf _ identifier
      rw [printed]
      exact word endpointId

theorem Spelled.next (word : ∀ endpointId, ∀ c ∈ iroh.toZ32 endpointId, isWordChar c = true)
    (spelled : world.Spelled) {event : Event} {later : World} (proper : Proper event world)
    (stepped : next iroh codec event world = some later) : later.Spelled := by
  cases event with
  | call call =>
      obtain rfl := Option.some.inj stepped
      exact spelled.spawn proper
  | parsed index failure =>
      obtain ⟨task, found, stepped⟩ := Option.bind_eq_some_iff.mp stepped
      split at stepped
      · rename_i ticket name phase called
        obtain rfl := Option.some.inj stepped
        cases failure with
        | some message =>
            exact spelled.set ⟨task.call, .ended (.error (.message message)), none⟩ trivial found
              rfl rfl
        | none =>
            rw [World.parsed]
            split
            · rename_i thrown _
              exact spelled.set ⟨task.call, .ended (.error thrown), none⟩ trivial found rfl rfl
            · rename_i peer record opens
              have identifier := spelled.asked task (List.mem_of_getElem? found) ticket name called
              have plain := plain_of_opening word identifier opens
              exact spelled.set ⟨task.call, .opened peer record, none⟩
                (Phase.plain_opened plain peer) found rfl rfl
      · cases stepped
  | execute accepts =>
      obtain ⟨index, -, stepped⟩ := Option.bind_eq_some_iff.mp stepped
      obtain ⟨task, found, stepped⟩ := Option.bind_eq_some_iff.mp stepped
      obtain ⟨statement, -, rfl⟩ := Option.map_eq_some_iff.mp stepped
      exact spelled.set { task with reply := some _ }
        (spelled.phases task (List.mem_of_getElem? found)) found rfl rfl
  | resume index =>
      obtain ⟨task, found, stepped⟩ := Option.bind_eq_some_iff.mp stepped
      obtain ⟨statement, -, stepped⟩ := Option.bind_eq_some_iff.mp stepped
      obtain ⟨reply, -, rfl⟩ := Option.map_eq_some_iff.mp stepped
      exact spelled.set ⟨task.call, task.phase.after reply, none⟩
        ((spelled.phases task (List.mem_of_getElem? found)).after reply) found rfl rfl

/-- Every statement the session issues, in any run, is read from its text as what it
is, whatever the tokens in the tickets are. -/
theorem issued_reads_back
    (word : ∀ endpointId, ∀ c ∈ iroh.toZ32 endpointId, isWordChar c = true) {start : World}
    (unused : start.tasks = []) (run : Run (World.next iroh codec) Proper start world) {task : Task}
    (made : task ∈ world.tasks) (untyped : ∀ name, task.phase ≠ .typing name)
    {statement : Statement} (issued : task.phase.statement = some statement) :
    Statement.read statement.text = some statement := by
  have initial : start.Spelled := by
    constructor <;> rw [unused] <;> rintro _ ⟨⟩
  have spelled : world.Spelled := by
    apply run.invariant Spelled initial
    intro event world later proper spelled stepped
    exact spelled.next word proper stepped
  exact Statement.read_text ((spelled.phases task made).statement issued untyped)

end Steps

/-- The token of the ticket has a quote in it. -/
def quotedAttach : Call (Nat × Record) :=
  pairAttach false "it's; DROP".toList "remote".toList

/-- The peer of the ticket. -/
def quotedPeer : Peer :=
  pairPeer false "it's; DROP".toList

/-- The attach issues its CREATE SECRET. -/
def quotedTask : Task where
  call := quotedAttach
  phase := .creating quotedPeer (pairRemote false "remote".toList)

theorem next_quotedAttach :
    World.next pairIroh .json (.parsed 0 none) (blankWorld.spawn quotedAttach) =
      some { blankWorld with tasks := [quotedTask], queue := [0] } := by
  have read : Peer.parseTicket pairIroh .json (pairTicket false "it's; DROP".toList) =
      .ok quotedPeer := by
    decide +kernel
  have opens : (blankWorld.spawn quotedAttach).opening pairIroh .json
      (pairTicket false "it's; DROP".toList) "remote".toList =
        .ok (quotedPeer, pairRemote false "remote".toList) := by
    rw [opening, read]
    rfl
  have found : (blankWorld.spawn quotedAttach).tasks[0]? =
      some { call := quotedAttach, phase := .parsing } := rfl
  have parsed : (blankWorld.spawn quotedAttach).parsed pairIroh .json 0 quotedAttach
      (pairTicket false "it's; DROP".toList) "remote".toList none =
        { blankWorld with tasks := [quotedTask], queue := [0] } := by
    rw [World.parsed, opens]
    rfl
  rw [World.next, found, Option.bind_some]
  exact congrArg some parsed

theorem issued_quotedAttach :
    ∃ world, Run (World.next pairIroh .json) Proper blankWorld world ∧ quotedTask ∈ world.tasks ∧
      Statement.read
          (createStatement quotedPeer (pairRemote false "remote".toList)).text =
        some (createStatement quotedPeer (pairRemote false "remote".toList)) := by
  have run : Run (World.next pairIroh .json) Proper blankWorld
      { blankWorld with tasks := [quotedTask], queue := [0] } := by
    have asked : isIdentifier "remote".toList = true := by decide
    have first : Run (World.next pairIroh .json) Proper blankWorld (blankWorld.spawn quotedAttach) :=
      @Run.single _ _ _ _ _ _ (.call quotedAttach) asked rfl
    exact @Run.tail _ _ _ _ _ _ _ (.parsed 0 none) first trivial next_quotedAttach
  have word : ∀ second, ∀ c ∈ pairIroh.toZ32 second, isWordChar c = true := by
    intro second
    have all : (pairId second).all isWordChar = true := by cases second <;> decide +kernel
    exact List.all_eq_true.mp all
  exact ⟨_, run, List.mem_cons_self,
    issued_reads_back word rfl run List.mem_cons_self (by rintro _ ⟨⟩) rfl⟩

end World

end Quackhole.Web.Remotes
