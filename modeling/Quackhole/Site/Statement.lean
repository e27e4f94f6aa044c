import Quackhole.Site.Prompt
import Quackhole.Word.Continuation
import Quackhole.Word.Json

/-!
# The statement that is typed

`typeAtPrompt` puts a statement on one line before it types it: it squeezes the
white space and adds the semicolon the shell waits for.  It refuses what the
terminal cannot take and line comments, but it does not know where a literal
begins and ends, nor that a string goes on after a newline.
-/

namespace Quackhole.Site

open Quackhole.Word Quackhole.Word.Sql

def nothingToRun : Text :=
  "There is no statement to run.".toList

def strayMessage (stray : Char) : Text :=
  "The terminal only takes printable ASCII, and this statement holds ".toList ++
    Json.quote [stray] ++ ['.']

def commentMessage : Text :=
  ("A -- comment cannot be used here: the statement is typed as one line, so everything " ++
    "after it would be commented out, including the terminator. Use /* */ instead.").toList

/-- A statement is finished only when it ends in a semicolon. -/
def terminated (text : Text) : Text :=
  if text.getLast? = some ';' then text else text ++ [';']

/-- The statement `typeAtPrompt` types for a text, or what it throws. -/
def typedStatement (sql : Option Text) : Except Text Text :=
  let text := trimSpace (squeeze (sql.getD []))
  if text.isEmpty then .error nothingToRun
  else
    match text.find? fun c => c < ' ' || '~' < c with
    | some stray => .error (strayMessage stray)
    | none =>
        if (findWord ['-', '-'] text).isSome then .error commentMessage
        else .ok (terminated text)

/-- What is typed was squeezed and trimmed, and has no line comment. -/
theorem eq_terminated_of_typedStatement {sql : Option Text} {statement : Text}
    (accepted : typedStatement sql = .ok statement) :
    statement = terminated (trimSpace (squeeze (sql.getD []))) ∧
      ¬ ['-', '-'] <:+: trimSpace (squeeze (sql.getD [])) := by
  rw [typedStatement] at accepted
  split at accepted
  · cases accepted
  · split at accepted
    · cases accepted
    · split at accepted
      · cases accepted
      · rename_i absent
        rw [Bool.not_eq_true, Option.isSome_eq_false_iff, Option.isNone_iff_eq_none,
          findWord_eq_none_iff (List.cons_ne_nil _ _)] at absent
        exact ⟨(Except.ok.inj accepted).symm, absent⟩

variable {W : Type}

/-- Two texts have the same tokens, but for a semicolon at the end of one. -/
def SameTokens (first second : Option (List (Token W))) : Prop :=
  first = second ∨ first = second.map (· ++ [.semicolon]) ∨
    second = first.map (· ++ [.semicolon])

instance [DecidableEq W] (first second : Option (List (Token W))) :
    Decidable (SameTokens first second) :=
  inferInstanceAs (Decidable (_ ∨ _ ∨ _))

/-- White space in the literals of a text is single spaces. -/
def SingleSpaced (tokens : List (Token W)) : Prop :=
  ∀ mark content, .literal mark content ∈ tokens → squeeze content = content

theorem map_squeezed_eq_self_iff {tokens : List (Token W)} :
    tokens.map Token.squeezed = tokens ↔ SingleSpaced tokens := by
  have fixed : tokens.map Token.squeezed = tokens ↔
      ∀ token ∈ tokens, token.squeezed = token := by
    conv_lhs => rhs; rw [← List.map_id tokens]
    exact List.map_inj_left
  rw [fixed]
  constructor
  · intro same mark content member
    exact (Token.literal.inj (same _ member)).2
  · rintro single (spelled | ⟨mark, content⟩ | _) member
    · rfl
    · exact congrArg _ (single mark content member)
    · rfl

/-- Squeezed tokens are the given ones, with or without a semicolon after them, when
nothing in a literal is squeezed. -/
theorem sameTokens_squeezed_iff {typed : Option (List (Token W))} {tokens : List (Token W)}
    (line : typed = some (tokens.map Token.squeezed) ∨
      typed = some (tokens.map Token.squeezed ++ [.semicolon])) :
    SameTokens typed (some tokens) ↔ SingleSpaced tokens := by
  rw [← map_squeezed_eq_self_iff]
  have long : (tokens.map Token.squeezed).length = tokens.length := List.length_map _
  generalize tokens.map Token.squeezed = squeezed at line long ⊢
  constructor
  · rintro (same | same | same) <;> rcases line with rfl | rfl
    · exact Option.some.inj same
    · have count := congrArg List.length (Option.some.inj same)
      simp [long] at count
    · have count := congrArg List.length (Option.some.inj same)
      simp [long] at count
    · exact List.append_cancel_right (Option.some.inj same)
    · have count := congrArg List.length (Option.some.inj same)
      simp [long] at count
    · have count := congrArg List.length (Option.some.inj same)
      simp [long] at count
  · rintro rfl
    rcases line with rfl | rfl
    · exact Or.inl rfl
    · exact Or.inr (Or.inl rfl)

/-- What is typed is the squeezed text, with a semicolon where it had none. -/
theorem lex_typedStatement (words : Text → Option Mark → List W) {sql : Option Text}
    {statement : Text} (accepted : typedStatement sql = .ok statement) :
    ¬ ['-', '-'] <:+: sql.getD [] ∧
      (lex words statement = lex words (squeeze (sql.getD [])) ∨
        lex words statement = (lex words (squeeze (sql.getD []))).map (· ++ [.semicolon])) := by
  obtain ⟨rfl, quiet⟩ := eq_terminated_of_typedStatement accepted
  refine ⟨fun inside => quiet (infix_trimSpace rfl rfl (infix_squeeze rfl rfl inside)), ?_⟩
  rw [← lex_trimSpace words (squeeze _), terminated]
  split
  · exact Or.inl rfl
  · exact Or.inr (lex_append_semicolon words quiet)

/-- The same tokens have the same literals among them. -/
theorem SameTokens.literals {first second : List (Token W)}
    (same : SameTokens (some first) (some second)) :
    first.filterMap Token.asLiteral = second.filterMap Token.asLiteral := by
  have ended (tokens : List (Token W)) :
      (tokens ++ [Token.semicolon]).filterMap Token.asLiteral = tokens.filterMap Token.asLiteral := by
    rw [List.filterMap_append]
    exact List.append_nil _
  rcases same with same | same | same
  · rw [Option.some.inj same]
  · rw [Option.some.inj same, ended]
  · rw [Option.some.inj same, ended]

/-- A text in which a string goes on after a newline is typed as one with other literals. -/
theorem not_sameTokens_of_continues (words : Text → Option Mark → List W) {sql : Option Text}
    {statement : Text} (accepted : typedStatement sql = .ok statement)
    (on : Continues (sql.getD [])) {tokens : List (Token W)}
    (given : lex words (sql.getD []) = some tokens) :
    ¬ SameTokens (lex words statement) (some tokens) := by
  obtain ⟨quiet, line⟩ := lex_typedStatement words accepted
  intro same
  cases typed : lex words (squeeze (sql.getD [])) with
  | none =>
      rw [typed] at line
      rw [line.elim id id] at same
      rcases same with same | same | same <;> cases same
  | some squeezed =>
      apply lex_squeeze_ne words quiet on given typed
      rw [typed] at line
      rcases line with line | line
      · rw [line] at same
        exact same.literals.symm
      · rw [line] at same
        have told := same.literals
        rw [List.filterMap_append] at told
        exact told.symm.trans (List.append_nil _)

end Quackhole.Site
