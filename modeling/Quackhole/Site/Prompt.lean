import Quackhole.Word.Utf8
import Mathlib.Data.List.Basic

/-!
# The prompt

The page types at a terminal it cannot read.  It counts the keys the terminal is
handed to tell whether somebody is part-way through a line, and types a line as
one key for each character and Enter.
-/

namespace Quackhole.Site

open Quackhole.Word

/-- The `key` of a `keydown`. -/
inductive Key where
  | enter
  | backspace
  | character (c : Char)
  /-- An arrow, a modifier: a key whose name is longer than one letter. -/
  | named (name : String)
  deriving DecidableEq, Repr

/-- What the terminal is handed. -/
inductive Input where
  | keydown (key : Key)
  | paste (text : Text)
  deriving DecidableEq, Repr

/-- What `watchPrompt` makes of it.  A character outside of the basic plane is two code
units, so it does not count, and a paste counts for one. -/
def watchPrompt (promptLen : Nat) : Input → Nat
  | .keydown .enter => 0
  | .keydown .backspace => promptLen - 1
  | .keydown (.character c) => if c.toNat < 0x10000 then promptLen + 1 else promptLen
  | .keydown (.named _) => promptLen
  | .paste _ => promptLen + 1

/-- Is somebody part-way through a line at the prompt? -/
def promptBusy (promptLen : Nat) : Bool :=
  0 < promptLen

/-- The keys `typeIntoShell` presses. -/
def presses (sql : Text) : List Key :=
  sql.map .character ++ [.enter]

/-- The character a key puts into the line. -/
def Key.character? : Key → Option Char
  | .character c => some c
  | _ => none

/-- The line that a prompt at which nothing was typed has read when Enter comes. -/
def entered (keys : List Key) : Text :=
  (keys.takeWhile (· ≠ .enter)).filterMap Key.character?

/-- The line that is typed is the line that is entered. -/
theorem entered_presses (sql : Text) : entered (presses sql) = sql := by
  have letters : ∀ key ∈ sql.map Key.character, decide (key ≠ .enter) = true := by
    intro key member
    obtain ⟨c, -, rfl⟩ := List.mem_map.mp member
    rfl
  rw [entered, presses, List.takeWhile_append_of_pos letters, List.filterMap_append,
    List.filterMap_map]
  exact (List.append_nil _).trans List.filterMap_some

end Quackhole.Site
