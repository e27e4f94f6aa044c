import Quackhole.Site.Shell

/-!
# Whose outcome a call is given

There is never more than one waiter.  It is settled by the text of a query alone,
so a call is given the outcome of another query of the same text when such a query
is in flight as the call types, or is started by somebody else while it waits.
Those are the only ways.
-/

namespace Quackhole.Site

open Quackhole.Word Quackhole.Transition

variable {σ Answer : Type}

/-! ## What is typed -/

/-- The first statement a shell makes of what it is handed. -/
def Shell.statement (shell : Shell σ) : σ → List Input → Option Text
  | _, [] => none
  | line, input :: inputs =>
      match shell.read line input with
      | (_, some text) => some text
      | (line, none) => shell.statement line inputs

/-- The statement that is run when the terminal is handed something now. -/
def Page.submitted (shell : Shell σ) (page : Page σ Answer) (inputs : List Input) : Option Text :=
  match page.inFlight with
  | some _ => none
  | none => shell.statement page.line inputs

@[simp]
theorem showing_showing (page : Page σ Answer) (promptLen promptLen' : Nat) (line line' : σ) :
    (page.showing promptLen line).showing promptLen' line' = page.showing promptLen' line' :=
  rfl

theorem start_showing (page : Page σ Answer) (promptLen : Nat) (line : σ) (typist : Typist)
    (text : Option Text) :
    (page.showing promptLen line).start typist text =
      (page.start typist text).showing promptLen line := by
  cases text <;> rfl

theorem submitted_of_inFlight (shell : Shell σ) (page : Page σ Answer) (inputs : List Input)
    {execution : Nat} (flight : page.inFlight = some execution) :
    page.submitted shell inputs = none := by
  rw [Page.submitted, flight]

theorem submitted_of_idle (shell : Shell σ) (page : Page σ Answer) (inputs : List Input)
    (idle : page.inFlight = none) :
    page.submitted shell inputs = shell.statement page.line inputs := by
  rw [Page.submitted, idle]

/-- Typing starts one query at most, and changes nothing else but the line. -/
theorem hand_all_eq (shell : Shell σ) (typist : Typist) (inputs : List Input)
    (page : Page σ Answer) :
    ∃ promptLen line, inputs.foldl (Page.hand shell typist) page =
      (page.start typist (page.submitted shell inputs)).showing promptLen line := by
  induction inputs generalizing page with
  | nil =>
      refine ⟨page.promptLen, page.line, ?_⟩
      have nothing : page.submitted shell [] = none := by
        rw [Page.submitted]
        split <;> rfl
      rw [nothing]
      rfl
  | cons input inputs ih =>
      obtain ⟨promptLen, line, rest⟩ := ih (page.hand shell typist input)
      refine ⟨promptLen, line, ?_⟩
      rw [List.foldl_cons, rest]
      cases flight : page.inFlight with
      | some execution =>
          rw [submitted_of_inFlight shell page _ flight, Page.hand, flight]
          dsimp only
          rw [submitted_of_inFlight shell (page.showing (watchPrompt page.promptLen input) _) _
            flight, start_showing, showing_showing]
      | none =>
          rw [submitted_of_idle shell page _ flight, Page.hand, flight, Shell.statement]
          dsimp only
          rcases shell.read page.line input with ⟨line', _ | text⟩
          · dsimp only
            rw [submitted_of_idle shell ((page.start typist none).showing _ line') _ flight,
              start_showing, showing_showing]
            rfl
          · dsimp only
            rw [submitted_of_inFlight shell ((page.start typist (some text)).showing _ line') _ rfl,
              start_showing, showing_showing]
            rfl

/-- What a press of keys by somebody else than a call makes the shell run. -/
def Page.submits (shell : Shell σ) (page : Page σ Answer) : Happening Answer → Option Text
  | .visitor input => page.submitted shell [input]
  | .page mounted sql =>
      if promptBusy page.promptLen then none
      else if mounted then page.submitted shell ((presses sql).map .keydown) else none
  | _ => none

/-- The statement a call types. -/
def Page.types (page : Page σ Answer) : Happening Answer → Option Text
  | .begin mounted =>
      match page.turn, page.inTurn with
      | none, call :: _ =>
          if promptBusy page.promptLen then none
          else if mounted then (typedStatement call.sql).toOption else none
      | _, _ => none
  | _ => none

/-- A call is waiting for a query of this text. -/
def Page.Awaits (page : Page σ Answer) (text : Text) : Prop :=
  ∃ turn, page.turn = some turn ∧ turn.outcome = none ∧ turn.statement = text

/-- A query of this text is in flight. -/
def Page.Runs (page : Page σ Answer) (text : Text) : Prop :=
  ∃ execution started, page.inFlight = some execution ∧
    page.executions[execution]? = some started ∧ started.text = text

/-- Nobody else runs what a call is waiting for, and no call types what is running. -/
def Apart (shell : Shell σ) (happening : Happening Answer) (page : Page σ Answer) : Prop :=
  (∀ text, page.submits shell happening = some text → ¬ page.Awaits text) ∧
    ∀ text, page.types happening = some text → ¬ page.Runs text

/-! ## Steps -/

/-- The page as it types the statement of the call whose turn it is. -/
def Page.waiting (page : Page σ Answer) (inTurn : List Call) (statement : Text)
    (timeoutMs : Nat) : Page σ Answer :=
  { page with
    inTurn
    begun := page.begun + 1
    pending := register statement page.begun page.pending
    turn := some ⟨page.begun, statement, timeoutMs, none⟩ }

/-- What can become of the page. -/
inductive Change (shell : Shell σ) (page : Page σ Answer) :
    Happening Answer → Page σ Answer → Prop
  | called (sql : Option Text) (timeoutMs : Nat) (inTurn : List Call) :
      Change shell page (.runInShell sql timeoutMs) { page with inTurn }
  | refused {mounted : Bool} {inTurn : List Call} {message : Text} {pending : List (Text × Nat)}
      (idle : page.turn = none) (kept : page.pending = [] → pending = [])
      (silent : page.types (.begin mounted) = none) :
      Change shell page (.begin mounted)
        ({ page with inTurn, begun := page.begun + 1, pending }.finish page.begun (.threw message))
  | typed {mounted : Bool} {inTurn : List Call} {statement : Text} {timeoutMs promptLen : Nat}
      {line : σ} (idle : page.turn = none) (types : page.types (.begin mounted) = some statement) :
      Change shell page (.begin mounted)
        (((page.waiting inTurn statement timeoutMs).start (.call page.begun)
          (page.submitted shell ((presses statement).map .keydown))).showing promptLen line)
  | expired {turn : Turn Answer} (current : page.turn = some turn) :
      Change shell page .expire
        { page with turn := some (turn.settle (.threw (expiredMessage turn.timeoutMs))) }
  | returned {turn : Turn Answer} {outcome : Outcome Answer} (current : page.turn = some turn)
      (decided : turn.outcome = some outcome) :
      Change shell page .settled
        ({ page with pending := forget turn.statement turn.call page.pending }.finish turn.call
          outcome)
  | handed {happening : Happening Answer} {typist : Typist} {promptLen : Nat} {line : σ}
      (other : ∀ call, typist ≠ .call call) (silent : page.types happening = none) :
      Change shell page happening
        ((page.start typist (page.submits shell happening)).showing promptLen line)
  | answered {execution : Nat} {started : Execution} (answer : Answer)
      (flight : page.inFlight = some execution)
      (execute : page.executions[execution]? = some started) :
      Change shell page (.answer answer)
        ({ page with inFlight := none }.settle started.text (.settled execution answer))

theorem forget_register {statement : Text} {call : Nat} :
    forget statement call (register statement call []) = [] := by
  simp [forget, register, unregister]

/-- A call that has its turn is refused, or types its statement. -/
theorem change_of_begin {shell : Shell σ} {page : Page σ Answer} {call : Call}
    {inTurn : List Call} (mounted : Bool) (idle : page.turn = none)
    (queue : page.inTurn = call :: inTurn) :
    Change shell page (.begin mounted)
      ({ page with inTurn, begun := page.begun + 1 }.typeAtPrompt shell mounted page.begun
        call) := by
  have types : page.types (.begin mounted) =
      if promptBusy page.promptLen then none
      else if mounted then (typedStatement call.sql).toOption else none := by
    rw [Page.types, idle, queue]
  rw [Page.typeAtPrompt]
  cases typed : typedStatement call.sql with
  | error message =>
      have silent : page.types (.begin mounted) = none := by
        rw [types, typed]
        split_ifs <;> rfl
      exact .refused idle id silent
  | ok statement =>
      rw [typed] at types
      dsimp only
      rw [Page.typeIntoShell]
      split_ifs at types ⊢
      · exact .refused idle id types
      · obtain ⟨promptLen, line, all⟩ := hand_all_eq shell (.call page.begun)
          ((presses statement).map .keydown) (page.waiting inTurn statement call.timeoutMs)
        rw [Page.waiting] at all
        rw [all]
        exact .typed idle types
      · refine .refused idle (fun empty => ?_) types
        rw [empty]
        exact forget_register

theorem change_of_next {shell : Shell σ} {happening : Happening Answer}
    {page page' : Page σ Answer} (step : nextPage shell happening page = some page') :
    Change shell page happening page' := by
  cases happening with
  | runInShell sql timeoutMs =>
      obtain rfl := Option.some.inj step
      exact .called sql timeoutMs _
  | begin mounted =>
      rw [nextPage] at step
      split at step
      · rename_i idle queue
        obtain rfl := Option.some.inj step
        exact change_of_begin mounted idle queue
      · cases step
  | expire =>
      obtain ⟨turn, current, rfl⟩ := Option.map_eq_some_iff.mp step
      exact .expired current
  | settled =>
      rw [nextPage] at step
      split at step
      · rename_i current
        obtain rfl := Option.some.inj step
        exact .returned current rfl
      · cases step
  | visitor input =>
      obtain rfl := Option.some.inj step
      obtain ⟨promptLen, line, all⟩ := hand_all_eq shell .visitor [input] page
      rw [List.foldl_cons, List.foldl_nil] at all
      rw [all]
      exact .handed nofun rfl
  | page mounted sql =>
      obtain rfl := Option.some.inj step
      have submits : page.submits shell (.page mounted sql) =
          if promptBusy page.promptLen then none
          else if mounted then page.submitted shell ((presses sql).map .keydown) else none :=
        rfl
      have silent (nothing : page.submits shell (.page mounted sql) = none) :
          Change shell page (.page mounted sql) page := by
        have change : Change shell page (.page mounted sql)
            ((page.start .page (page.submits shell (.page mounted sql))).showing page.promptLen
              page.line) := .handed nofun rfl
        rwa [nothing] at change
      rw [Page.typeIntoShell]
      split_ifs at submits ⊢
      · exact silent submits
      · obtain ⟨promptLen, line, all⟩ :=
          hand_all_eq shell .page ((presses sql).map .keydown) page
        rw [Option.getD_some, all, ← submits]
        exact .handed nofun rfl
      · exact silent submits
  | answer answer =>
      rw [nextPage] at step
      split at step
      · cases step
      · rename_i execution flight
        obtain ⟨started, execute, rfl⟩ := Option.map_eq_some_iff.mp step
        exact .answered answer flight execute

/-! ## One waiter -/

/-- The only waiter there can be is that of the call whose turn it is, and it is there
until the call is settled. -/
structure Page.Orderly (page : Page σ Answer) : Prop where
  nobody : page.turn = none → page.pending = []
  somebody : ∀ turn, page.turn = some turn →
    page.pending = [(turn.statement, turn.call)] ∨ (page.pending = [] ∧ turn.outcome ≠ none)
  begun : ∀ turn, page.turn = some turn → turn.call < page.begun
  typists : ∀ started ∈ page.executions, ∀ call, started.typist = .call call →
    call < page.begun

theorem orderly_opened (shell : Shell σ) : (Page.opened shell : Page σ Answer).Orderly :=
  ⟨fun _ => rfl, nofun, nofun, nofun⟩

theorem Page.Orderly.length_pending {page : Page σ Answer} (orderly : page.Orderly) :
    page.pending.length ≤ 1 := by
  cases current : page.turn with
  | none => simp [orderly.nobody current]
  | some turn =>
      rcases orderly.somebody turn current with waiter | ⟨empty, -⟩
      · simp [waiter]
      · simp [empty]

@[simp]
theorem forget_nil (statement : Text) (call : Nat) : forget statement call [] = [] :=
  rfl

@[simp]
theorem forget_singleton (statement : Text) (call : Nat) :
    forget statement call [(statement, call)] = [] := by
  simp [forget, unregister]

theorem outcome_settle_ne_none (turn : Turn Answer) (outcome : Outcome Answer) :
    (turn.settle outcome).outcome ≠ none := by
  rw [Turn.settle]
  cases turn.outcome <;> nofun

/-- The end of a query settles the call that waits for its text, if there is one. -/
theorem settle_cases {page : Page σ Answer} (orderly : page.Orderly) (text : Text)
    (outcome : Outcome Answer) :
    (page.settle text outcome = page ∧ ¬ page.Awaits text) ∨
      ∃ turn, page.turn = some turn ∧ turn.statement = text ∧
        page.settle text outcome =
          { page with pending := [], turn := some (turn.settle outcome) } := by
  have deaf (empty : page.pending = []) : page.settle text outcome = page := by
    rw [Page.settle, empty]
    rfl
  cases current : page.turn with
  | none =>
      refine Or.inl ⟨deaf (orderly.nobody current), ?_⟩
      rintro ⟨turn, other, -⟩
      cases current.symm.trans other
  | some turn =>
      have same {turn' : Turn Answer} (other : page.turn = some turn') : turn' = turn :=
        Option.some.inj (other.symm.trans current)
      rcases orderly.somebody turn current with waiter | ⟨empty, decided⟩
      · by_cases own : turn.statement = text
        · refine Or.inr ⟨turn, rfl, own, ?_⟩
          simp [Page.settle, waiter, own, current, unregister]
        · refine Or.inl ⟨?_, ?_⟩
          · have missed : (text == turn.statement) = false := beq_false_of_ne (Ne.symm own)
            rw [Page.settle, waiter, List.lookup_cons, missed]
            rfl
          · rintro ⟨turn', other, -, rfl⟩
            exact own (congrArg _ (same other).symm)
      · refine Or.inl ⟨deaf empty, ?_⟩
        rintro ⟨turn', other, open', -⟩
        exact decided (same other ▸ open')

section Start

variable (page : Page σ Answer) (typist : Typist) (text : Option Text)

@[simp]
theorem start_pending : (page.start typist text).pending = page.pending := by
  cases text <;> rfl

@[simp]
theorem start_turn : (page.start typist text).turn = page.turn := by
  cases text <;> rfl

@[simp]
theorem start_begun : (page.start typist text).begun = page.begun := by
  cases text <;> rfl

@[simp]
theorem start_results : (page.start typist text).results = page.results := by
  cases text <;> rfl

end Start

theorem mem_executions_start {page : Page σ Answer} {typist : Typist} {text : Option Text}
    {started : Execution} (member : started ∈ (page.start typist text).executions) :
    started ∈ page.executions ∨ started.typist = typist := by
  cases text with
  | none => exact Or.inl member
  | some text =>
      rcases List.mem_append.mp member with before | new
      · exact Or.inl before
      · rw [List.mem_singleton.mp new]
        exact Or.inr rfl

theorem Page.Orderly.start {page : Page σ Answer} (orderly : page.Orderly) {typist : Typist}
    (before : ∀ call, typist = .call call → call < page.begun) (text : Option Text) :
    (page.start typist text).Orderly where
  nobody := by simpa using orderly.nobody
  somebody := by simpa using orderly.somebody
  begun := by simpa using orderly.begun
  typists := by
    intro started member call typed
    rw [start_begun]
    rcases mem_executions_start member with old | new
    · exact orderly.typists started old call typed
    · exact before call (new.symm.trans typed)

theorem Page.Orderly.showing {page : Page σ Answer} (orderly : page.Orderly) (promptLen : Nat)
    (line : σ) : (page.showing promptLen line).Orderly :=
  ⟨orderly.nobody, orderly.somebody, orderly.begun, orderly.typists⟩

theorem Page.Orderly.land {page : Page σ Answer} (orderly : page.Orderly) :
    { page with inFlight := none }.Orderly :=
  ⟨orderly.nobody, orderly.somebody, orderly.begun, orderly.typists⟩

theorem Page.Orderly.settle {page : Page σ Answer} (orderly : page.Orderly) (text : Text)
    (outcome : Outcome Answer) : (page.settle text outcome).Orderly := by
  rcases settle_cases orderly text outcome with ⟨same, -⟩ | ⟨turn, current, -, settled⟩
  · rwa [same]
  · rw [settled]
    exact {
      nobody := fun _ => rfl
      somebody := by
        rintro _ ⟨⟩
        exact Or.inr ⟨rfl, outcome_settle_ne_none turn outcome⟩
      begun := by
        rintro _ ⟨⟩
        have before := orderly.begun turn current
        exact before
      typists := orderly.typists }

theorem Page.Orderly.change {shell : Shell σ} {happening : Happening Answer}
    {page page' : Page σ Answer} (orderly : page.Orderly)
    (change : Change shell page happening page') : page'.Orderly := by
  have older {started : Execution} (member : started ∈ page.executions) {call : Nat}
      (typed : started.typist = .call call) : call < page.begun + 1 :=
    Nat.lt_succ_of_lt (orderly.typists started member call typed)
  cases change with
  | called sql timeoutMs inTurn =>
      exact ⟨orderly.nobody, orderly.somebody, orderly.begun, orderly.typists⟩
  | refused idle kept silent =>
      exact {
        nobody := fun _ => kept (orderly.nobody idle)
        somebody := nofun
        begun := nofun
        typists := fun started member call => older member }
  | @typed mounted inTurn statement timeoutMs promptLen line idle types =>
      refine Page.Orderly.showing (Page.Orderly.start ?_ ?_ _) promptLen line
      · exact {
          nobody := nofun
          somebody := by
            rintro _ ⟨⟩
            rw [Page.waiting, orderly.nobody idle]
            exact Or.inl rfl
          begun := by
            rintro _ ⟨⟩
            exact Nat.lt_succ_self page.begun
          typists := fun started member call => older member }
      · rintro _ ⟨⟩
        exact Nat.lt_succ_self page.begun
  | @expired turn current =>
      exact {
        nobody := nofun
        somebody := by
          rintro _ ⟨⟩
          rcases orderly.somebody turn current with waiter | ⟨empty, -⟩
          · exact Or.inl waiter
          · exact Or.inr ⟨empty, outcome_settle_ne_none turn _⟩
        begun := by
          rintro _ ⟨⟩
          have before := orderly.begun turn current
          exact before
        typists := orderly.typists }
  | @returned turn outcome current decided =>
      exact {
        nobody := fun _ => by
          rcases orderly.somebody turn current with waiter | ⟨empty, -⟩
          · exact (congrArg _ waiter).trans (forget_singleton _ _)
          · exact (congrArg _ empty).trans (forget_nil _ _)
        somebody := nofun
        begun := nofun
        typists := orderly.typists }
  | handed other silent =>
      exact (orderly.start (fun call same => absurd same (other call)) _).showing _ _
  | answered answer flight execute => exact orderly.land.settle _ _

theorem orderly_of_reachable {shell : Shell σ} {page : Page σ Answer}
    (reachable : Reachable (nextPage shell) (Page.opened shell) page) : page.Orderly :=
  reachable.invariant Page.Orderly (orderly_opened shell) fun _ _ _ _ orderly step =>
    orderly.change (change_of_next step)

/-! ## Own outcomes -/

/-- An outcome that is a call's own: its keys started the query, or there was none. -/
def Outcome.Of (executions : List Execution) (call : Nat) : Outcome Answer → Prop
  | .settled execution _ =>
      ∃ started, executions[execution]? = some started ∧ started.typist = .call call
  | .threw _ => True

/-- Every outcome a call was given is its own. -/
def Page.Honest (page : Page σ Answer) : Prop :=
  ∀ call outcome, (call, outcome) ∈ page.results → outcome.Of page.executions call

/-- The outcome that a call will be given is its own as well, and so is a query in
flight that the call would take for its own. -/
structure Page.Fair (page : Page σ Answer) : Prop where
  honest : page.Honest
  decided : ∀ turn, page.turn = some turn → ∀ outcome, turn.outcome = some outcome →
    outcome.Of page.executions turn.call
  own : ∀ turn, page.turn = some turn → turn.outcome = none → ∀ execution started,
    page.inFlight = some execution → page.executions[execution]? = some started →
      started.text = turn.statement → started.typist = .call turn.call

theorem fair_opened (shell : Shell σ) : (Page.opened shell : Page σ Answer).Fair :=
  ⟨nofun, nofun, nofun⟩

theorem getElem?_executions_start {page : Page σ Answer} {execution : Nat} {started : Execution}
    (execute : page.executions[execution]? = some started) (typist : Typist)
    (text : Option Text) : (page.start typist text).executions[execution]? = some started := by
  cases text with
  | none => exact execute
  | some text =>
      have bound := (List.getElem?_eq_some_iff.mp execute).1
      exact (List.getElem?_append_left bound).trans execute

theorem Outcome.Of.start {page : Page σ Answer} {call : Nat} {outcome : Outcome Answer}
    (own : outcome.Of page.executions call) (typist : Typist) (text : Option Text) :
    outcome.Of (page.start typist text).executions call := by
  cases outcome with
  | settled execution answer =>
      obtain ⟨started, execute, typed⟩ := own
      exact ⟨started, getElem?_executions_start execute typist text, typed⟩
  | threw message => trivial

theorem Page.Honest.start {page : Page σ Answer} (honest : page.Honest) (typist : Typist)
    (text : Option Text) : (page.start typist text).Honest := by
  intro call outcome member
  rw [start_results] at member
  exact (honest call outcome member).start typist text

theorem Page.Honest.finish {page : Page σ Answer} (honest : page.Honest) {call : Nat}
    {outcome : Outcome Answer} (own : outcome.Of page.executions call) :
    (page.finish call outcome).Honest := by
  intro call' outcome' member
  rcases List.mem_append.mp member with before | new
  · exact honest call' outcome' before
  · obtain ⟨rfl, rfl⟩ := Prod.mk.inj (List.mem_singleton.mp new)
    exact own

theorem of_settle {executions : List Execution} {turn : Turn Answer} {outcome : Outcome Answer}
    (decided : ∀ before, turn.outcome = some before → before.Of executions turn.call)
    (own : turn.outcome = none → outcome.Of executions turn.call) {given : Outcome Answer}
    (settled : (turn.settle outcome).outcome = some given) : given.Of executions turn.call := by
  rw [Turn.settle] at settled
  cases before : turn.outcome with
  | none =>
      rw [before] at settled
      exact Option.some.inj settled ▸ own before
  | some first =>
      rw [before] at settled
      exact Option.some.inj settled ▸ decided first before

/-- The query in flight is the one before, or the one that was started. -/
theorem inFlight_start {page : Page σ Answer} {typist : Typist} {text : Option Text}
    {execution : Nat} {started : Execution}
    (flight : (page.start typist text).inFlight = some execution)
    (execute : (page.start typist text).executions[execution]? = some started) :
    (text = none ∧ page.inFlight = some execution ∧
        page.executions[execution]? = some started) ∨
      (text = some started.text ∧ started.typist = typist) := by
  cases text with
  | none => exact Or.inl ⟨rfl, flight, execute⟩
  | some text =>
      obtain rfl : page.executions.length = execution := Option.some.inj flight
      have new : (page.executions ++ [⟨text, typist⟩])[page.executions.length]? =
          some ⟨text, typist⟩ := List.getElem?_concat_length
      obtain rfl := Option.some.inj (new.symm.trans execute)
      exact Or.inr ⟨rfl, rfl⟩

theorem turn_waiting {page : Page σ Answer} {inTurn : List Call} {statement : Text}
    {timeoutMs : Nat} {typist : Typist} {text : Option Text} {turn : Turn Answer}
    (current : ((page.waiting inTurn statement timeoutMs).start typist text).turn = some turn) :
    turn = ⟨page.begun, statement, timeoutMs, none⟩ :=
  (Option.some.inj ((start_turn _ _ _).symm.trans current)).symm

theorem Page.Fair.change {shell : Shell σ} {happening : Happening Answer}
    {page page' : Page σ Answer} (fair : page.Fair) (orderly : page.Orderly)
    (apart : Apart shell happening page) (change : Change shell page happening page') :
    page'.Fair := by
  cases change with
  | called sql timeoutMs inTurn => exact ⟨fair.honest, fair.decided, fair.own⟩
  | refused idle kept silent => exact ⟨fair.honest.finish trivial, nofun, nofun⟩
  | @typed mounted inTurn statement timeoutMs promptLen line idle types =>
      have honest : (page.waiting inTurn statement timeoutMs).Honest := fair.honest
      refine ⟨honest.start _ _, ?_, ?_⟩
      · intro turn current outcome decided
        obtain rfl := turn_waiting current
        cases decided
      · intro turn current undecided execution started flight execute same
        obtain rfl := turn_waiting current
        -- A query that was in flight already has another text, and a new one is the call's.
        rcases inFlight_start flight execute with ⟨-, running, executing⟩ | ⟨-, own⟩
        · exact absurd ⟨execution, started, running, executing, same⟩ (apart.2 statement types)
        · exact own
  | @expired turn current =>
      have threw : (Outcome.threw (expiredMessage turn.timeoutMs) : Outcome Answer).Of
          page.executions turn.call := trivial
      refine ⟨fair.honest, ?_, ?_⟩
      · rintro _ ⟨⟩ outcome settled
        exact of_settle (fair.decided turn current) (fun _ => threw) settled
      · rintro _ ⟨⟩ undecided
        exact absurd undecided (outcome_settle_ne_none turn _)
  | @returned turn outcome current decided =>
      exact ⟨fair.honest.finish (fair.decided turn current outcome decided), nofun, nofun⟩
  | @handed happening typist promptLen line other silent =>
      refine ⟨fair.honest.start typist _, ?_, ?_⟩
      · intro turn current outcome decided
        exact (fair.decided turn ((start_turn _ _ _).symm.trans current) outcome decided).start
          typist _
      · intro turn current undecided execution started flight execute same
        have before : page.turn = some turn := (start_turn _ _ _).symm.trans current
        rcases inFlight_start flight execute with ⟨-, running, executing⟩ | ⟨submits, -⟩
        · exact fair.own turn before undecided execution started running executing same
        · exact absurd ⟨turn, before, undecided, same.symm⟩ (apart.1 started.text submits)
  | @answered execution started answer flight execute =>
      rcases settle_cases orderly.land started.text (.settled execution answer) with
        ⟨same, -⟩ | ⟨turn, current, same, settled⟩
      · rw [same]
        exact ⟨fair.honest, fair.decided, nofun⟩
      · rw [settled]
        -- The waiter is that of the turn, and of a query of that text the turn is the owner.
        refine ⟨fair.honest, ?_, ?_⟩
        · rintro _ ⟨⟩ outcome given
          refine of_settle (fair.decided turn current) (fun undecided => ?_) given
          exact ⟨started, execute,
            fair.own turn current undecided execution started flight execute same.symm⟩
        · rintro _ ⟨⟩ undecided
          exact absurd undecided (outcome_settle_ne_none turn _)

/-! ## The outcome of another -/

/-- A call waits for a query in flight that its keys did not start. -/
def Page.Misled (page : Page σ Answer) : Prop :=
  ∃ turn execution started, page.turn = some turn ∧ turn.outcome = none ∧
    page.inFlight = some execution ∧ page.executions[execution]? = some started ∧
      started.text = turn.statement ∧ started.typist ≠ .call turn.call

theorem misled_of_change {shell : Shell σ} {happening : Happening Answer}
    {page page' : Page σ Answer} (orderly : page.Orderly)
    (close : ¬ Apart shell happening page) (change : Change shell page happening page') :
    page'.Misled := by
  have silent (types : page.types happening = none) :
      ∃ text, page.submits shell happening = some text ∧ page.Awaits text := by
    by_contra nobody
    push Not at nobody
    exact close ⟨nobody, fun text typed => nomatch types.symm.trans typed⟩
  cases change with
  | called _ _ _ | expired _ | returned _ _ | answered _ _ _ =>
      obtain ⟨text, submits, -⟩ := silent rfl
      cases submits
  | refused idle kept quiet =>
      obtain ⟨text, submits, -⟩ := silent quiet
      cases submits
  | @typed mounted inTurn statement timeoutMs promptLen line idle types =>
      have running : page.Runs statement := by
        by_contra still
        refine close ⟨nofun, fun text typed => ?_⟩
        obtain rfl := Option.some.inj (types.symm.trans typed)
        exact still
      obtain ⟨execution, started, flight, execute, same⟩ := running
      refine ⟨⟨page.begun, statement, timeoutMs, none⟩, execution, started, ?_⟩
      rw [submitted_of_inFlight shell page _ flight]
      refine ⟨rfl, rfl, flight, execute, same, fun own => ?_⟩
      exact lt_irrefl page.begun
        (orderly.typists started (List.mem_of_getElem? execute) page.begun own)
  | @handed _ typist promptLen line other quiet =>
      obtain ⟨text, submits, turn, current, undecided, same⟩ := silent quiet
      rw [submits]
      refine ⟨turn, page.executions.length, ⟨text, typist⟩, current, undecided, rfl, ?_,
        same.symm, other turn.call⟩
      exact List.getElem?_concat_length

/-- The end of that query is given to the call. -/
theorem exec_of_misled {page : Page σ Answer} (shell : Shell σ) (orderly : page.Orderly)
    (misled : page.Misled) (answer : Answer) :
    ∃ final, exec (nextPage shell) [.answer answer, .settled] page = some final ∧
      ¬ final.Honest := by
  obtain ⟨⟨call, statement, timeoutMs, undecided⟩, execution, started, current, rfl, flight,
    execute, rfl, other⟩ := misled
  rcases settle_cases orderly.land started.text (.settled execution answer) with
    ⟨-, deaf⟩ | ⟨turn, again, -, settled⟩
  · exact absurd ⟨_, current, rfl, rfl⟩ deaf
  · obtain rfl := Option.some.inj (current.symm.trans again)
    have first : nextPage shell (.answer answer) page =
        some ({ page with inFlight := none }.settle started.text (.settled execution answer)) := by
      rw [nextPage, flight]
      dsimp only
      rw [execute, Option.map_some]
    rw [exec_cons, first, settled]
    refine ⟨_, rfl, fun honest => ?_⟩
    obtain ⟨executed, found, own⟩ := honest call (.settled execution answer)
      (List.mem_append_right _ (List.mem_singleton_self _))
    obtain rfl := Option.some.inj (execute.symm.trans found)
    exact other own

theorem fair_of_run {shell : Shell σ} {page : Page σ Answer}
    (run : Run (nextPage shell) (Apart shell) (Page.opened shell) page) : page.Fair := by
  induction run with
  | refl => exact fair_opened shell
  | tail before apart step ih =>
      exact ih.change (orderly_of_reachable before.reachable) apart (change_of_next step)

/-- A shell with as little to it as can be: it reads up to a semicolon and Enter. -/
def plainShell : Shell Text where
  prompt := []
  read line
    | .keydown (.character c) => (line ++ [c], none)
    | .keydown .backspace => (line.dropLast, none)
    | .keydown .enter =>
        if line.getLast? = some ';' then ([], some line) else (line ++ ['\n'], none)
    | .keydown (.named _) => (line, none)
    | .paste text => (line ++ text, none)

/-- A step at which nobody but a call makes the shell run anything, and a call types only
while nothing runs. -/
def alone (shell : Shell σ) (happening : Happening Answer) (page : Page σ Answer) : Bool :=
  (page.submits shell happening).isNone &&
    ((page.types happening).isNone || page.inFlight.isNone)

theorem apart_of_alone {shell : Shell σ} {happening : Happening Answer} {page : Page σ Answer}
    (test : alone shell happening page = true) : Apart shell happening page := by
  rw [alone, Bool.and_eq_true, Bool.or_eq_true, Option.isNone_iff_eq_none,
    Option.isNone_iff_eq_none, Option.isNone_iff_eq_none] at test
  obtain ⟨silent, quiet⟩ := test
  constructor
  · intro text submits
    cases silent.symm.trans submits
  · rintro text types ⟨execution, started, flight, -⟩
    rcases quiet with nothing | idle
    · cases nothing.symm.trans types
    · cases idle.symm.trans flight

/-- There is one waiter at most.  As long as nobody else runs what a call is waiting for
and no call types what is running, every outcome a call is given is its own; once one of
these happens, a call is given the outcome of another as soon as that query ends. -/
theorem outcomes_own (shell : Shell σ) :
    (∀ page : Page σ Answer, Reachable (nextPage shell) (Page.opened shell) page →
      page.pending.length ≤ 1) ∧
    (∀ page : Page σ Answer, Run (nextPage shell) (Apart shell) (Page.opened shell) page →
      page.Honest) ∧
    ∀ (page page' : Page σ Answer) (happening : Happening Answer),
      Reachable (nextPage shell) (Page.opened shell) page →
        nextPage shell happening page = some page' → ¬ Apart shell happening page →
          ∀ answer, ∃ final,
            exec (nextPage shell) [.answer answer, .settled] page' = some final ∧
              ¬ final.Honest := by
  refine ⟨fun page reachable => (orderly_of_reachable reachable).length_pending,
    fun page run => (fair_of_run run).honest, ?_⟩
  intro page page' happening reachable step close
  have orderly := orderly_of_reachable reachable
  have change := change_of_next step
  exact exec_of_misled shell (orderly.change change) (misled_of_change orderly close change)

theorem outcomes_own_answered :
    ∃ page : Page Text Nat,
      Run (nextPage plainShell) (Apart plainShell) (Page.opened plainShell) page ∧
        page.results = [(0, .settled 0 42)] ∧ page.pending.length ≤ 1 ∧ page.Honest := by
  have executed : (execWhile (nextPage plainShell) (alone plainShell)
      [.runInShell (some "SELECT 42".toList) 60000, .begin true, .answer 42, .settled]
      (Page.opened plainShell)).map (fun page => page.results) = some [(0, .settled 0 42)] := by
    decide +kernel
  obtain ⟨page, steps, results⟩ := Option.map_eq_some_iff.mp executed
  have run := run_of_execWhile (fun _ _ => apart_of_alone) steps
  have own := @outcomes_own Text Nat plainShell
  exact ⟨page, run, results, own.1 page run.reachable, own.2.1 page run⟩

/-- A call whose time was up leaves its query running, and the next call with that text is
given what comes of it, without having run anything. -/
theorem expired_outcome_reused :
    ∃ page : Page Text Nat,
      Reachable (nextPage plainShell) (Page.opened plainShell) page ∧
        page.results.getLast? = some (1, .settled 0 42) ∧
        page.executions.map Execution.typist = [.call 0] ∧ ¬ page.Honest := by
  have executed : (exec (nextPage plainShell)
      [.runInShell (some "SELECT 42".toList) 1000, .begin true, .expire, .settled,
        .runInShell (some "SELECT 42".toList) 60000, .begin true, .answer 42, .settled]
      (Page.opened plainShell)).map (fun page => (page.results, page.executions)) =
        some ([(0, .threw (expiredMessage 1000)), (1, .settled 0 42)],
          [⟨"SELECT 42;".toList, .call 0⟩]) := by
    decide +kernel
  obtain ⟨page, steps, fields⟩ := Option.map_eq_some_iff.mp executed
  obtain ⟨results, executions⟩ := Prod.mk.inj fields
  refine ⟨page, reachable_of_exec steps, ?_, ?_, fun honest => ?_⟩
  · rw [results]
    rfl
  · rw [executions]
    rfl
  · have given : (1, .settled 0 42) ∈ page.results := by simp [results]
    obtain ⟨started, execute, typed⟩ := honest 1 _ given
    rw [executions] at execute
    obtain rfl := Option.some.inj execute
    cases typed

end Quackhole.Site
