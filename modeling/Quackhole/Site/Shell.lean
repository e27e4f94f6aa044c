import Quackhole.Site.Statement
import Quackhole.Transition.Labelled

/-!
# Statements typed on somebody else's behalf

`runInShell` queues its callers, types the statement of one of them at a time at
the visitor's own prompt, and waits for a query of that text to end or for the
time to be up.  The visitor goes on using the terminal, the page types at it as
well, and a query that was given up keeps running.  What the shell makes of what
it is handed is a parameter; it ignores it while a query is in flight.
-/

namespace Quackhole.Site

open Quackhole.Word Quackhole.Transition

/-- A shell that reads a line.  What it is handed changes the line, and may complete a
statement, which is then run. -/
structure Shell (σ : Type) where
  prompt : σ
  read : σ → Input → σ × Option Text

/-- Who handed the terminal a statement: the visitor, the page itself, or a call. -/
inductive Typist where
  | visitor
  | page
  | call (call : Nat)
  deriving DecidableEq, Repr

/-- A run of `runQuery`. -/
structure Execution where
  text : Text
  typist : Typist
  deriving DecidableEq, Repr

/-- What a call comes back with: the answer to a query, or an error of its own. -/
inductive Outcome (Answer : Type) where
  | settled (execution : Nat) (answer : Answer)
  | threw (message : Text)
  deriving DecidableEq, Repr

/-- A call of `runInShell` that waits for its turn. -/
structure Call where
  sql : Option Text
  timeoutMs : Nat
  deriving DecidableEq, Repr

/-- The call whose statement is at the prompt, and what `Promise.race` settled on. -/
structure Turn (Answer : Type) where
  call : Nat
  statement : Text
  timeoutMs : Nat
  outcome : Option (Outcome Answer)
  deriving DecidableEq, Repr

/-- The page.  Calls are numbered in the order they are made, which is the order of
their turns, and executions in the order they are started. -/
structure Page (σ Answer : Type) where
  inTurn : List Call
  begun : Nat
  turn : Option (Turn Answer)
  pending : List (Text × Nat)
  promptLen : Nat
  line : σ
  executions : List Execution
  inFlight : Option Nat
  results : List (Nat × Outcome Answer)

variable {σ Answer : Type}

/-- The page before anything is typed. -/
def Page.opened (shell : Shell σ) : Page σ Answer where
  inTurn := []
  begun := 0
  turn := none
  pending := []
  promptLen := 0
  line := shell.prompt
  executions := []
  inFlight := none
  results := []

/-! ## At the terminal -/

/-- The shell hands the line it read to `runQuery`. -/
def Page.start (page : Page σ Answer) (typist : Typist) : Option Text → Page σ Answer
  | none => page
  | some text =>
      { page with
        executions := page.executions ++ [⟨text, typist⟩]
        inFlight := some page.executions.length }

/-- The page with another line at the prompt. -/
def Page.showing (page : Page σ Answer) (promptLen : Nat) (line : σ) : Page σ Answer :=
  { page with promptLen, line }

/-- The terminal is handed something. -/
def Page.hand (shell : Shell σ) (typist : Typist) (page : Page σ Answer) (input : Input) :
    Page σ Answer :=
  let promptLen := watchPrompt page.promptLen input
  match page.inFlight with
  | some _ => page.showing promptLen page.line
  | none =>
      let read := shell.read page.line input
      (page.start typist read.2).showing promptLen read.1

/-- Type a statement and Enter, unless there is a line at the prompt or no terminal. -/
def Page.typeIntoShell (shell : Shell σ) (typist : Typist) (mounted : Bool) (page : Page σ Answer)
    (sql : Text) : Option (Page σ Answer) :=
  if promptBusy page.promptLen then none
  else if mounted then
    some (((presses sql).map .keydown).foldl (Page.hand shell typist) page)
  else none

/-! ## Waiters -/

/-- `pending.set`; nothing reads the order of the entries. -/
def register (statement : Text) (call : Nat) (pending : List (Text × Nat)) : List (Text × Nat) :=
  pending.filter (fun waiter => waiter.1 ≠ statement) ++ [(statement, call)]

/-- `pending.delete`. -/
def unregister (statement : Text) (pending : List (Text × Nat)) : List (Text × Nat) :=
  pending.filter fun waiter => waiter.1 ≠ statement

/-- Remove the registration if it is still this call's own. -/
def forget (statement : Text) (call : Nat) (pending : List (Text × Nat)) : List (Text × Nat) :=
  if pending.lookup statement = some call then unregister statement pending else pending

/-- The first of the two promises that race settles the call. -/
def Turn.settle (turn : Turn Answer) (outcome : Outcome Answer) : Turn Answer :=
  { turn with outcome := turn.outcome.or (some outcome) }

/-- Hand a typed statement's outcome back to whoever typed it. -/
def Page.settle (page : Page σ Answer) (text : Text) (outcome : Outcome Answer) : Page σ Answer :=
  match page.pending.lookup text with
  | none => page
  | some call =>
      { page with
        pending := unregister text page.pending
        turn := page.turn.map fun turn => if turn.call = call then turn.settle outcome else turn }

/-! ## Calls -/

def busyMessage : Text :=
  ("Something is already typed at the terminal, so this statement was not sent -- it would have" ++
    " run joined onto whatever is there. Ask whoever is at the keyboard to finish or clear the" ++
    " line, then send it again. Nothing ran.").toList

def notReadyMessage : Text :=
  "The terminal is not ready to take a statement. Nothing ran.".toList

/-- The time is given in seconds, rounded. -/
def expiredMessage (timeoutMs : Nat) : Text :=
  "The statement did not finish within ".toList ++ decimal ((timeoutMs + 500) / 1000) ++
    ("s. It is either still running or it never reached the prompt -- the terminal shows which." ++
      " Do not send it again without looking: it may already have reached the machine.").toList

/-- A call comes back. -/
def Page.finish (page : Page σ Answer) (call : Nat) (outcome : Outcome Answer) : Page σ Answer :=
  { page with turn := none, results := page.results ++ [(call, outcome)] }

/-- A call has its turn: what `typeAtPrompt` does before it waits. -/
def Page.typeAtPrompt (shell : Shell σ) (mounted : Bool) (page : Page σ Answer) (number : Nat)
    (call : Call) : Page σ Answer :=
  match typedStatement call.sql with
  | .error message => page.finish number (.threw message)
  | .ok statement =>
      if promptBusy page.promptLen then page.finish number (.threw busyMessage)
      else
        let waiting :=
          { page with
            pending := register statement number page.pending
            turn := some ⟨number, statement, call.timeoutMs, none⟩ }
        match waiting.typeIntoShell shell (.call number) mounted statement with
        | some typed => typed
        | none =>
            { waiting with pending := forget statement number waiting.pending }.finish number
              (.threw notReadyMessage)

/-- What can happen next. -/
inductive Happening (Answer : Type) where
  | runInShell (sql : Option Text) (timeoutMs : Nat)
  /-- The next call has its turn; the terminal is there or not. -/
  | begin (mounted : Bool)
  /-- The call's time is up. -/
  | expire
  /-- The call lets go of its waiter and comes back. -/
  | settled
  | visitor (input : Input)
  /-- `greet` or `announce` types a statement. -/
  | page (mounted : Bool) (sql : Text)
  /-- The query in flight ends. -/
  | answer (answer : Answer)

def nextPage (shell : Shell σ) : LStep (Happening Answer) (Page σ Answer)
  | .runInShell sql timeoutMs, page =>
      some { page with inTurn := page.inTurn ++ [⟨sql, timeoutMs⟩] }
  | .begin mounted, page =>
      match page.turn, page.inTurn with
      | none, call :: inTurn =>
          some ({ page with inTurn, begun := page.begun + 1 }.typeAtPrompt shell mounted page.begun
            call)
      | _, _ => none
  | .expire, page =>
      page.turn.map fun turn =>
        { page with turn := some (turn.settle (.threw (expiredMessage turn.timeoutMs))) }
  | .settled, page =>
      match page.turn with
      | some ⟨call, statement, _, some outcome⟩ =>
          some ({ page with pending := forget statement call page.pending }.finish call outcome)
      | _ => none
  | .visitor input, page => some (page.hand shell .visitor input)
  | .page mounted sql, page => some ((page.typeIntoShell shell .page mounted sql).getD page)
  | .answer answer, page =>
      match page.inFlight with
      | none => none
      | some execution =>
          page.executions[execution]?.map fun started =>
            { page with inFlight := none }.settle started.text (.settled execution answer)

end Quackhole.Site
