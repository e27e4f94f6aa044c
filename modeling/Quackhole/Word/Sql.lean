import Quackhole.Word.Spaces

/-!
# Reading SQL

A reader of SQL that goes through a text character by character.  It knows the
things white space can stand in: string literals, escape strings, quoted names,
dollar-quoted strings, comments that nest, and the rest.  How a run of the rest
falls into keywords, names, numbers and operators is the dialect's business.

A string literal goes on after white space with a newline in it where another one begins:
the two are one.  A comment between them is not looked through: a block comment parts
them, and line comments do not come into what follows.

White space that is squeezed is the same to the reader outside of literals, and
squeezes their contents, as long as no line comment is in the way and no literal goes on
after a newline.
-/

namespace Quackhole.Word.Sql

open Quackhole.Word

/-- What stands around a quoted text. -/
inductive Quote where
  | single
  | escape
  | double
  deriving DecidableEq, Repr

/-- What a literal or a quoted name is delimited by. -/
inductive Mark where
  | quote (quote : Quote)
  | dollar (tag : Text)
  deriving DecidableEq, Repr

/-- A part of a text between white space and comments: a run of plain characters
and the delimiter that follows it directly, if one does, a literal with what is
between its delimiters, or the end of a statement. -/
inductive Piece where
  | run (text : Text) (next : Option Mark)
  | literal (mark : Mark) (content : Text)
  | semicolon
  deriving DecidableEq, Repr

/-- What the reader is in the middle of. -/
inductive Mode where
  | code (run : Text)
  | dash (run : Text)
  | slash (run : Text)
  | opening (run letters : Text)
  | lineComment
  | block (depth : Nat)
  | blockStar (depth : Nat)
  | blockSlash (depth : Nat)
  | quoted (quote : Quote) (content : Text)
  | escaped (content : Text)
  | closing (quote : Quote) (content : Text)
  /-- In the white space after a string, which has a newline in it or not. -/
  | continuing (quote : Quote) (content : Text) (newline : Bool)
  /-- `seen` is what was in front of the last `$`, and the letters since. -/
  | dollar (tag content : Text) (seen : Option (Text × Text))
  deriving DecidableEq, Repr

/-- The pieces read so far, and what is being read. -/
structure Reader where
  pieces : List Piece
  mode : Mode
  deriving DecidableEq, Repr

/-- Nothing has been read. -/
def Reader.start : Reader :=
  ⟨[], .code []⟩

/-- The single quote. -/
def apostrophe : Char :=
  Char.ofNat 0x27

def Quote.char : Quote → Char
  | .single | .escape => apostrophe
  | .double => '"'

/-- The end of a line. -/
def isNewline (c : Char) : Bool :=
  c == '\n' || c == '\r'

/-- A character that a name may begin with. -/
def isNameStart (c : Char) : Bool :=
  c.isAlpha || c == '_' || 0x80 ≤ c.toNat

/-- A character that a name may go on with. -/
def isNameChar (c : Char) : Bool :=
  isNameStart c || c.isDigit || c == '$'

/-- The last character is part of a name. -/
def endsInName (run : Text) : Bool :=
  (run.getLast?.map isNameChar).getD false

/-- The run is an `E` that makes the string after it an escape string. -/
def isEscapePrefix (run : Text) : Bool :=
  (run.getLast?.map fun c => c == 'e' || c == 'E').getD false && !endsInName run.dropLast

/-- A character that the tag of a dollar quote may go on with. -/
def isTagChar (letters : Text) (c : Char) : Bool :=
  !isSpace c && (isNameStart c || (c.isDigit && !letters.isEmpty))

/-- Close a run. -/
def flush (pieces : List Piece) (run : Text) (next : Option Mark) : List Piece :=
  if run.isEmpty then pieces else pieces ++ [.run run next]

/-- The quote that a single quote after a run opens. -/
def singleQuote (run : Text) : Quote :=
  if isEscapePrefix run then .escape else .single

/-- Read a character outside of everything, after a run. -/
def readCode (pieces : List Piece) (run : Text) (c : Char) : Reader :=
  if isSpace c then ⟨flush pieces run none, .code []⟩
  else if c = ';' then ⟨flush pieces run none ++ [.semicolon], .code []⟩
  else if c = apostrophe then
    ⟨flush pieces run (some (.quote (singleQuote run))), .quoted (singleQuote run) []⟩
  else if c = '"' then ⟨flush pieces run (some (.quote .double)), .quoted .double []⟩
  else if c = '-' then ⟨pieces, .dash run⟩
  else if c = '/' then ⟨pieces, .slash run⟩
  else if c = '$' ∧ ¬ endsInName run then ⟨pieces, .opening run []⟩
  else ⟨pieces, .code (run ++ [c])⟩

/-- Read a character of a dollar-quoted string.  The string ends where its
delimiter comes again, which is then no part of it. -/
def readDollar (pieces : List Piece) (tag content : Text) (seen : Option (Text × Text))
    (c : Char) : Reader :=
  if c = '$' then
    match seen with
    | some (before, letters) =>
        if letters = tag then ⟨pieces ++ [.literal (.dollar tag) before], .code []⟩
        else ⟨pieces, .dollar tag (content ++ [c]) (some (content, []))⟩
    | none => ⟨pieces, .dollar tag (content ++ [c]) (some (content, []))⟩
  else if isSpace c then ⟨pieces, .dollar tag (content ++ [c]) none⟩
  else ⟨pieces, .dollar tag (content ++ [c]) (seen.map fun s => (s.1, s.2 ++ [c]))⟩

/-- Read one character. -/
def step (reader : Reader) (c : Char) : Reader :=
  let pieces := reader.pieces
  match reader.mode with
  | .code run => readCode pieces run c
  | .dash run =>
      if c = '-' then ⟨flush pieces run none, .lineComment⟩ else readCode pieces (run ++ ['-']) c
  | .slash run =>
      if c = '*' then ⟨flush pieces run none, .block 0⟩ else readCode pieces (run ++ ['/']) c
  | .opening run letters =>
      if c = '$' then ⟨flush pieces run (some (.dollar letters)), .dollar letters [] none⟩
      else if isTagChar letters c then ⟨pieces, .opening run (letters ++ [c])⟩
      else readCode pieces (run ++ '$' :: letters) c
  | .lineComment =>
      if isNewline c then ⟨pieces, .code []⟩ else ⟨pieces, .lineComment⟩
  | .block depth =>
      if c = '*' then ⟨pieces, .blockStar depth⟩
      else if c = '/' then ⟨pieces, .blockSlash depth⟩
      else ⟨pieces, .block depth⟩
  | .blockStar depth =>
      if c = '/' then
        match depth with
        | 0 => ⟨pieces, .code []⟩
        | depth + 1 => ⟨pieces, .block depth⟩
      else if c = '*' then ⟨pieces, .blockStar depth⟩
      else ⟨pieces, .block depth⟩
  | .blockSlash depth =>
      if c = '*' then ⟨pieces, .block (depth + 1)⟩
      else if c = '/' then ⟨pieces, .blockSlash depth⟩
      else ⟨pieces, .block depth⟩
  | .quoted quote content =>
      if c = quote.char then ⟨pieces, .closing quote content⟩
      else if quote = .escape ∧ c = '\\' then ⟨pieces, .escaped (content ++ [c])⟩
      else ⟨pieces, .quoted quote (content ++ [c])⟩
  | .escaped content => ⟨pieces, .quoted .escape (content ++ [c])⟩
  | .closing quote content =>
      -- a quote that is doubled stands for itself
      if c = quote.char then ⟨pieces, .quoted quote (content ++ [c, c])⟩
      else if isSpace c ∧ quote ≠ .double then ⟨pieces, .continuing quote content (isNewline c)⟩
      else readCode (pieces ++ [.literal (.quote quote) content]) [] c
  | .continuing quote content newline =>
      if isSpace c then ⟨pieces, .continuing quote content (newline || isNewline c)⟩
      else if newline ∧ c = apostrophe then ⟨pieces, .quoted quote content⟩
      else readCode (pieces ++ [.literal (.quote quote) content]) [] c
  | .dollar tag content seen => readDollar pieces tag content seen c

/-- The pieces at the end of a text, unless a literal or a comment is still open. -/
def Reader.finish (reader : Reader) : Option (List Piece) :=
  match reader.mode with
  | .code run => some (flush reader.pieces run none)
  | .dash run => some (flush reader.pieces (run ++ ['-']) none)
  | .slash run => some (flush reader.pieces (run ++ ['/']) none)
  | .opening run letters => some (flush reader.pieces (run ++ '$' :: letters) none)
  | .lineComment => some reader.pieces
  | .closing quote content | .continuing quote content _ =>
      some (reader.pieces ++ [.literal (.quote quote) content])
  | .block _ | .blockStar _ | .blockSlash _ | .quoted _ _ | .escaped _ | .dollar _ _ _ => none

/-- A token, with what the dialect calls a word. -/
inductive Token (W : Type) where
  | word (word : W)
  | literal (mark : Mark) (content : Text)
  | semicolon
  deriving DecidableEq, Repr

variable {W : Type}

/-- The tokens of a piece, in a dialect that knows the words of a run. -/
def Piece.tokens (words : Text → Option Mark → List W) : Piece → List (Token W)
  | .run text next => (words text next).map .word
  | .literal mark content => [.literal mark content]
  | .semicolon => [.semicolon]

/-- The tokens of a text, unless it ends within a literal or a comment. -/
def lex (words : Text → Option Mark → List W) (text : Text) : Option (List (Token W)) :=
  (text.foldl step .start).finish.map fun pieces => pieces.flatMap (Piece.tokens words)

/-! ## Squeezing what is read -/

/-- The same piece with its content squeezed. -/
def Piece.squeezed : Piece → Piece
  | .literal mark content => .literal mark (squeeze content)
  | .run text next => .run text next
  | .semicolon => .semicolon

/-- The same mode with the content so far squeezed. -/
def Mode.squeezed : Mode → Mode
  | .quoted quote content => .quoted quote (squeeze content)
  | .escaped content => .escaped (squeeze content)
  | .closing quote content => .closing quote (squeeze content)
  | .continuing quote content _ => .continuing quote (squeeze content) false
  | .dollar tag content seen =>
      .dollar tag (squeeze content) (seen.map fun s => (squeeze s.1, s.2))
  | mode => mode

def Reader.squeezed (reader : Reader) : Reader :=
  ⟨reader.pieces.map Piece.squeezed, reader.mode.squeezed⟩

theorem flush_squeezed (pieces : List Piece) (run : Text) (next : Option Mark) :
    (flush pieces run next).map Piece.squeezed = flush (pieces.map Piece.squeezed) run next := by
  rw [flush, flush]
  split
  · rfl
  · rw [List.map_append]
    rfl

theorem readCode_of_isSpace {c : Char} (space : isSpace c = true) (pieces : List Piece)
    (run : Text) : readCode pieces run c = ⟨flush pieces run none, .code []⟩ :=
  if_pos space

theorem readCode_squeezed (pieces : List Piece) (run : Text) (c : Char) :
    (readCode pieces run c).squeezed = readCode (pieces.map Piece.squeezed) run c := by
  unfold readCode
  split_ifs <;> simp [Reader.squeezed, Mode.squeezed, Piece.squeezed, flush_squeezed]

theorem readDollar_squeezed {c : Char} (filled : isSpace c = false) (pieces : List Piece)
    (tag content : Text) (seen : Option (Text × Text)) :
    (readDollar pieces tag content seen c).squeezed =
      readDollar (pieces.map Piece.squeezed) tag (squeeze content)
        (seen.map fun s => (squeeze s.1, s.2)) c := by
  unfold readDollar
  cases seen with
  | none => split_ifs <;> simp [Reader.squeezed, Mode.squeezed, squeeze_concat_filled filled]
  | some seen =>
      dsimp only [Option.map_some]
      split_ifs <;>
        simp [Reader.squeezed, Mode.squeezed, Piece.squeezed, squeeze_concat_filled filled]

/-- The character goes on with a string that was closed on an earlier line. -/
def goesOn (reader : Reader) (c : Char) : Bool :=
  match reader.mode with
  | .continuing _ _ true => c == apostrophe
  | _ => false

/-- A string goes on after a newline somewhere in the rest of a text. -/
def continuesFrom : Reader → Text → Bool
  | _, [] => false
  | reader, c :: rest => goesOn reader c || continuesFrom (step reader c) rest

/-- What is not white space is read in the same way, whether the contents are
squeezed or not, unless it goes on with a string. -/
theorem step_squeezed {c : Char} (filled : isSpace c = false) {reader : Reader}
    (ends : goesOn reader c = false) : (step reader c).squeezed = step reader.squeezed c := by
  rcases reader with ⟨pieces, mode⟩
  cases mode with
  | code run => exact readCode_squeezed pieces run c
  | dash run =>
      simp only [step, Reader.squeezed, Mode.squeezed]
      split_ifs
      · simp [flush_squeezed]
      · exact readCode_squeezed pieces _ c
  | slash run =>
      simp only [step, Reader.squeezed, Mode.squeezed]
      split_ifs
      · simp [flush_squeezed]
      · exact readCode_squeezed pieces _ c
  | opening run letters =>
      simp only [step, Reader.squeezed, Mode.squeezed]
      split_ifs
      · simp [flush_squeezed]
      · rfl
      · exact readCode_squeezed pieces _ c
  | lineComment =>
      simp only [step, Reader.squeezed, Mode.squeezed]
      split_ifs <;> rfl
  | block depth =>
      simp only [step, Reader.squeezed, Mode.squeezed]
      split_ifs <;> rfl
  | blockStar depth =>
      cases depth <;> simp only [step, Reader.squeezed, Mode.squeezed] <;> split_ifs <;> rfl
  | blockSlash depth =>
      simp only [step, Reader.squeezed, Mode.squeezed]
      split_ifs <;> rfl
  | quoted quote content =>
      simp only [step, Reader.squeezed, Mode.squeezed]
      split_ifs <;> simp [squeeze_concat_filled filled]
  | escaped content => simp [step, Reader.squeezed, Mode.squeezed, squeeze_concat_filled filled]
  | closing quote content =>
      simp only [step, Reader.squeezed, Mode.squeezed]
      split_ifs
      · have doubled : squeeze (content ++ [c, c]) = squeeze content ++ [c, c] := by
          rw [List.append_cons, squeeze_concat_filled filled, squeeze_concat_filled filled,
            List.append_assoc]
          rfl
        simp only [doubled]
      · rename_i space
        cases filled.symm.trans space.1
      · refine (readCode_squeezed _ [] c).trans ?_
        rw [List.map_append]
        rfl
  | continuing quote content newline =>
      have closed : ¬ (newline = true ∧ c = apostrophe) := by
        rintro ⟨rfl, rfl⟩
        cases ends
      simp only [step, Reader.squeezed, Mode.squeezed, filled, Bool.false_eq_true, if_false,
        if_neg closed, false_and]
      refine (readCode_squeezed _ [] c).trans ?_
      rw [List.map_append]
      rfl
  | dollar tag content seen => exact readDollar_squeezed filled pieces tag content seen

/-! ## White space -/

/-- What is read when white space is. -/
def readSpace (reader : Reader) (c : Char) : Reader :=
  let pieces := reader.pieces
  match reader.mode with
  | .code run => ⟨flush pieces run none, .code []⟩
  | .dash run => ⟨flush pieces (run ++ ['-']) none, .code []⟩
  | .slash run => ⟨flush pieces (run ++ ['/']) none, .code []⟩
  | .opening run letters => ⟨flush pieces (run ++ '$' :: letters) none, .code []⟩
  | .lineComment =>
      if isNewline c then ⟨pieces, .code []⟩ else ⟨pieces, .lineComment⟩
  | .block depth | .blockStar depth | .blockSlash depth => ⟨pieces, .block depth⟩
  | .quoted quote content => ⟨pieces, .quoted quote (content ++ [c])⟩
  | .escaped content => ⟨pieces, .quoted .escape (content ++ [c])⟩
  | .closing .double content => ⟨pieces ++ [.literal (.quote .double) content], .code []⟩
  | .closing quote content => ⟨pieces, .continuing quote content (isNewline c)⟩
  | .continuing quote content newline =>
      ⟨pieces, .continuing quote content (newline || isNewline c)⟩
  | .dollar tag content _ => ⟨pieces, .dollar tag (content ++ [c]) none⟩

theorem isSpace_quote (quote : Quote) : isSpace quote.char = false := by
  cases quote <;> decide

theorem not_isTagChar {c : Char} (space : isSpace c = true) (letters : Text) :
    isTagChar letters c = false := by
  rw [isTagChar, space]
  rfl

theorem step_of_isSpace {c : Char} (space : isSpace c = true) (reader : Reader) :
    step reader c = readSpace reader c := by
  have ne {d : Char} (filled : isSpace d = false) : c ≠ d := ne_of_isSpace space filled
  rcases reader with ⟨pieces, mode⟩
  cases mode with
  | code run => exact readCode_of_isSpace space pieces run
  | dash run => exact (if_neg (ne rfl)).trans (readCode_of_isSpace space pieces _)
  | slash run => exact (if_neg (ne rfl)).trans (readCode_of_isSpace space pieces _)
  | opening run letters =>
      rw [step, readSpace]
      simp only [if_neg (ne (d := '$') rfl), not_isTagChar space letters]
      exact readCode_of_isSpace space pieces _
  | lineComment => rfl
  | block depth => exact (if_neg (ne rfl)).trans (if_neg (ne rfl))
  | blockStar depth => exact (if_neg (ne rfl)).trans (if_neg (ne rfl))
  | blockSlash depth => exact (if_neg (ne rfl)).trans (if_neg (ne rfl))
  | quoted quote content =>
      have plain : ¬ (quote = .escape ∧ c = '\\') := fun both => ne rfl both.2
      exact (if_neg (ne (isSpace_quote quote))).trans (if_neg plain)
  | escaped content => rfl
  | closing quote content =>
      refine (if_neg (ne (isSpace_quote quote))).trans ?_
      cases quote with
      | double => exact (if_neg fun both => both.2 rfl).trans (readCode_of_isSpace space _ [])
      | single | escape => exact if_pos ⟨space, nofun⟩
  | continuing quote content newline => exact if_pos space
  | dollar tag content seen => exact (if_neg (ne rfl)).trans (if_pos space)

/-- The reader is past white space: another blank has nothing to add but to the run
of blanks a literal ends in. -/
def Mode.Blank : Mode → Prop
  | .code run => run = []
  | .block _ | .continuing _ _ _ => True
  | .quoted _ content | .dollar _ content none => endsWhite false content = true
  | _ => False

/-- No literal that is being read ends in white space. -/
def Mode.Filled : Mode → Prop
  | .quoted _ content | .escaped content | .dollar _ content _ => endsWhite false content = false
  | _ => True

/-- White space begins with a space once it is squeezed. -/
theorem readSpace_squeezed {c : Char} (space : isSpace c = true) {reader : Reader}
    (filled : reader.mode.Filled) (quiet : reader.mode ≠ .lineComment) :
    (readSpace reader c).squeezed = readSpace reader.squeezed ' ' := by
  rcases reader with ⟨pieces, mode⟩
  cases mode with
  | lineComment => exact absurd rfl quiet
  | quoted quote content | escaped content | dollar tag content seen =>
      simp [readSpace, Reader.squeezed, Mode.squeezed, squeeze_concat_space space filled]
  | closing quote content =>
      cases quote <;> simp [readSpace, Reader.squeezed, Mode.squeezed, Piece.squeezed, isNewline]
  | continuing quote content newline =>
      simp [readSpace, Reader.squeezed, Mode.squeezed, isNewline]
  | _ => simp [readSpace, Reader.squeezed, Mode.squeezed, flush_squeezed]

/-- The rest of it is gone. -/
theorem readSpace_squeezed_again {c : Char} (space : isSpace c = true) {reader : Reader}
    (blank : reader.mode.Blank) : (readSpace reader c).squeezed = reader.squeezed := by
  rcases reader with ⟨pieces, mode⟩
  cases mode with
  | code run =>
      cases blank
      rfl
  | block depth => rfl
  | continuing quote content newline => rfl
  | quoted quote content =>
      simp [readSpace, Reader.squeezed, Mode.squeezed, squeeze_concat_again space blank]
  | dollar tag content seen =>
      cases seen with
      | none => simp [readSpace, Reader.squeezed, Mode.squeezed, squeeze_concat_again space blank]
      | some seen => cases blank
  | _ => cases blank

theorem blank_readSpace {c : Char} (space : isSpace c = true) {reader : Reader}
    (quiet : reader.mode ≠ .lineComment) : (readSpace reader c).mode.Blank := by
  rcases reader with ⟨pieces, mode⟩
  cases mode with
  | lineComment => exact absurd rfl quiet
  | quoted quote content | escaped content | dollar tag content seen =>
      exact (endsWhite_append_singleton false content c).trans space
  | block depth | blockStar depth | blockSlash depth => trivial
  | closing quote content => cases quote <;> trivial
  | continuing quote content newline => trivial
  | _ => rfl

/-! ## Line comments -/

/-- The dashes the reader has not made up its mind about. -/
def Mode.dashes : Mode → Text
  | .dash _ => ['-']
  | _ => []

/-- There is no line comment, and none is to come. -/
def Quiet (mode : Mode) (rest : Text) : Prop :=
  mode ≠ .lineComment ∧ ¬ ['-', '-'] <:+: mode.dashes ++ rest

/-- What a reader can be in the middle of after a character, where no line comment
begins: it is in doubt about a dash only, and a literal that goes on ends in the
character. -/
def Mode.Fresh (c : Char) : Mode → Prop
  | .lineComment => False
  | .dash _ => c = '-'
  | .quoted _ content | .escaped content | .dollar _ content _ =>
      content = [] ∨ endsWhite false content = isSpace c
  | _ => True

theorem Mode.Fresh.filled {c : Char} {mode : Mode} (fresh : mode.Fresh c)
    (filled : isSpace c = false) : mode.Filled := by
  cases mode with
  | quoted _ content | escaped content | dollar _ content _ =>
      rcases fresh with rfl | ends
      · rfl
      · exact ends.trans filled
  | _ => trivial

theorem fresh_readCode (pieces : List Piece) (run : Text) (c : Char) :
    (readCode pieces run c).mode.Fresh c := by
  unfold readCode
  split_ifs <;> first | assumption | trivial | exact Or.inl rfl

theorem fresh_readDollar (pieces : List Piece) (tag content : Text)
    (seen : Option (Text × Text)) (c : Char) :
    (readDollar pieces tag content seen c).mode.Fresh c := by
  have grown := endsWhite_append_singleton false content c
  unfold readDollar
  cases seen with
  | none => split_ifs <;> exact Or.inr grown
  | some seen =>
      dsimp only
      split_ifs <;> first | exact Or.inr grown | trivial

/-- What goes on with a string is read as part of it. -/
theorem step_of_goesOn {reader : Reader} {c : Char} (on : goesOn reader c = true) :
    ∃ quote content, reader.mode = .continuing quote content true ∧ c = apostrophe ∧
      step reader c = ⟨reader.pieces, .quoted quote content⟩ := by
  rcases reader with ⟨pieces, mode⟩
  rw [goesOn] at on
  split at on
  · rename_i quote content here
    obtain rfl : mode = .continuing quote content true := here
    obtain rfl := beq_iff_eq.mp on
    exact ⟨quote, content, rfl, rfl, rfl⟩
  · cases on

/-- A line comment begins with two dashes, and nothing else gets out of step but a string
that goes on. -/
theorem fresh_step {reader : Reader} {c : Char} (code : reader.mode ≠ .lineComment)
    (single : reader.mode.dashes = ['-'] → c ≠ '-') (ends : goesOn reader c = false) :
    (step reader c).mode.Fresh c := by
  rcases reader with ⟨pieces, mode⟩
  cases mode with
  | lineComment => exact absurd rfl code
  | code run => exact fresh_readCode pieces run c
  | dash run =>
      rw [step]
      dsimp only
      rw [if_neg (single rfl)]
      exact fresh_readCode pieces _ c
  | slash run =>
      rw [step]
      dsimp only
      split_ifs
      · trivial
      · exact fresh_readCode pieces _ c
  | opening run letters =>
      rw [step]
      dsimp only
      split_ifs
      · exact Or.inl rfl
      · trivial
      · exact fresh_readCode pieces _ c
  | block depth | blockSlash depth =>
      rw [step]
      dsimp only
      split_ifs <;> trivial
  | blockStar depth => cases depth <;> rw [step] <;> dsimp only <;> split_ifs <;> trivial
  | quoted quote content =>
      have grown := endsWhite_append_singleton false content c
      rw [step]
      dsimp only
      split_ifs
      · trivial
      · exact Or.inr grown
      · exact Or.inr grown
  | escaped content => exact Or.inr (endsWhite_append_singleton false content c)
  | closing quote content =>
      rw [step]
      dsimp only
      split_ifs
      · rw [List.append_cons]
        exact Or.inr (endsWhite_append_singleton false _ c)
      · trivial
      · exact fresh_readCode _ [] c
  | continuing quote content newline =>
      rw [step]
      dsimp only
      split_ifs with _ on
      · trivial
      · obtain ⟨rfl, rfl⟩ := on
        cases ends
      · exact fresh_readCode _ [] c
  | dollar tag content seen => exact fresh_readDollar pieces tag content seen c

/-- With a quiet rest in front of it, no line comment begins. -/
theorem Quiet.fresh {reader : Reader} {c : Char} {rest : Text}
    (quiet : Quiet reader.mode (c :: rest)) (ends : goesOn reader c = false) :
    (Sql.step reader c).mode.Fresh c := by
  refine fresh_step quiet.1 ?_ ends
  rintro dash rfl
  apply quiet.2
  rw [dash]
  exact ⟨[], rest, rfl⟩

theorem Quiet.step {reader : Reader} {c : Char} {rest : Text}
    (quiet : Quiet reader.mode (c :: rest)) : Quiet (step reader c).mode rest := by
  have shorter : ¬ ['-', '-'] <:+: c :: rest := fun inside =>
    quiet.2 (inside.trans (List.suffix_append _ _).isInfix)
  cases ends : goesOn reader c with
  | true =>
      obtain ⟨quote, content, -, -, read⟩ := step_of_goesOn ends
      rw [read]
      exact ⟨nofun, fun inside => shorter (List.infix_cons inside)⟩
  | false =>
      have fresh := quiet.fresh ends
      constructor
      · intro comment
        rwa [comment] at fresh
      · cases mode : (Sql.step reader c).mode with
        | dash run =>
            rw [mode] at fresh
            obtain rfl : c = '-' := fresh
            exact shorter
        | _ => exact fun inside => shorter (List.infix_cons inside)

/-! ## Squeezing a text -/

/-- A reader goes through a text as it does through the squeezed one, but for the
contents of literals, if none goes on after a newline. -/
theorem foldl_squeezeAfter (text : Text) {reader : Reader} {white : Bool}
    (blank : white = true → reader.mode.Blank) (filled : white = false → reader.mode.Filled)
    (quiet : Quiet reader.mode text) (whole : continuesFrom reader text = false) :
    (squeezeAfter white text).foldl step reader.squeezed = (text.foldl step reader).squeezed := by
  induction text generalizing reader white with
  | nil => rfl
  | cons c text ih =>
      obtain ⟨ends, onward⟩ := Bool.or_eq_false_iff.mp whole
      rw [List.foldl_cons, squeezeAfter]
      cases space : isSpace c with
      | false =>
          rw [if_neg Bool.false_ne_true, List.foldl_cons, ← step_squeezed space ends]
          exact ih (by rintro ⟨⟩) (fun _ => (quiet.fresh ends).filled space) quiet.step onward
      | true =>
          -- Whatever becomes of this blank, the reader is past white space after it.
          have next : ∀ {middle}, middle = (step reader c).squeezed →
              (squeezeAfter true text).foldl step middle =
                (text.foldl step (step reader c)).squeezed := by
            rintro _ rfl
            refine ih (fun _ => ?_) (by rintro ⟨⟩) quiet.step onward
            rw [step_of_isSpace space]
            exact blank_readSpace space quiet.1
          rw [step_of_isSpace space] at next ⊢
          cases white with
          | false =>
              apply next
              rw [readSpace_squeezed space (filled rfl) quiet.1, step_of_isSpace rfl]
          | true => exact next (readSpace_squeezed_again space (blank rfl)).symm

/-- A string of the text goes on after a newline. -/
def Continues (text : Text) : Prop :=
  continuesFrom .start text = true

instance (text : Text) : Decidable (Continues text) :=
  inferInstanceAs (Decidable (_ = true))

theorem foldl_squeeze {text : Text} (quiet : ¬ ['-', '-'] <:+: text) (whole : ¬ Continues text) :
    (squeeze text).foldl step .start = (text.foldl step .start).squeezed := by
  have fresh : Reader.start.mode.Filled := trivial
  have calm : Quiet Reader.start.mode text := ⟨nofun, quiet⟩
  calc (squeeze text).foldl step .start
      = (squeezeAfter false text).foldl step Reader.start.squeezed := rfl
    _ = (text.foldl step .start).squeezed :=
        foldl_squeezeAfter text nofun (fun _ => fresh) calm (Bool.eq_false_iff.mpr whole)

theorem finish_squeezed (reader : Reader) :
    reader.squeezed.finish = reader.finish.map (List.map Piece.squeezed) := by
  rcases reader with ⟨pieces, mode⟩
  cases mode <;>
    simp [Reader.squeezed, Mode.squeezed, Reader.finish, Piece.squeezed, flush_squeezed]

/-- The same token with its content squeezed. -/
def Token.squeezed : Token W → Token W
  | .literal mark content => .literal mark (squeeze content)
  | .word spelled => .word spelled
  | .semicolon => .semicolon

theorem tokens_squeezed (words : Text → Option Mark → List W) (piece : Piece) :
    piece.squeezed.tokens words = (piece.tokens words).map Token.squeezed := by
  cases piece with
  | run text next =>
      rw [Piece.squeezed, Piece.tokens, List.map_map]
      rfl
  | literal mark content => rfl
  | semicolon => rfl

/-- Squeezing a text squeezes its literals and leaves the other tokens. -/
theorem lex_squeeze (words : Text → Option Mark → List W) {text : Text}
    (quiet : ¬ ['-', '-'] <:+: text) (whole : ¬ Continues text) :
    lex words (squeeze text) = (lex words text).map (List.map Token.squeezed) := by
  rw [lex, foldl_squeeze quiet whole, finish_squeezed, lex, Option.map_map, Option.map_map]
  congr 1
  funext pieces
  simp only [Function.comp_apply, List.flatMap_map, List.map_flatMap, tokens_squeezed]

/-! ## The ends of a text -/

theorem foldl_blank {blanks : Text} (blank : ∀ c ∈ blanks, isSpace c = true) :
    blanks.foldl step .start = .start := by
  induction blanks with
  | nil => rfl
  | cons c blanks ih =>
      rw [List.foldl_cons, step_of_isSpace (blank c List.mem_cons_self)]
      exact ih fun d member => blank d (List.mem_cons_of_mem c member)

theorem finish_readSpace (reader : Reader) (c : Char) :
    (readSpace reader c).finish = reader.finish := by
  rcases reader with ⟨pieces, mode⟩
  cases mode with
  | lineComment =>
      rw [readSpace]
      dsimp only
      split <;> rfl
  | closing quote content => cases quote <;> rfl
  | _ => rfl

theorem finish_foldl_blank {blanks : Text} (blank : ∀ c ∈ blanks, isSpace c = true)
    (reader : Reader) : (blanks.foldl step reader).finish = reader.finish := by
  induction blanks generalizing reader with
  | nil => rfl
  | cons c blanks ih =>
      rw [List.foldl_cons, ih fun d member => blank d (List.mem_cons_of_mem c member),
        step_of_isSpace (blank c List.mem_cons_self), finish_readSpace]

/-- White space around a text says nothing. -/
theorem lex_trimSpace (words : Text → Option Mark → List W) (text : Text) :
    lex words (trimSpace text) = lex words text := by
  obtain ⟨before, after, blankBefore, blankAfter, whole⟩ := exists_eq_trimSpace text
  conv_rhs => rw [lex, whole]
  rw [List.foldl_append, List.foldl_append, foldl_blank blankBefore,
    finish_foldl_blank blankAfter, lex]

theorem Quiet.foldl {text : Text} {reader : Reader} (quiet : Quiet reader.mode text) :
    (text.foldl Sql.step reader).mode ≠ .lineComment := by
  induction text generalizing reader with
  | nil => exact quiet.1
  | cons c text ih => exact ih quiet.step

theorem finish_semicolon {reader : Reader} (code : reader.mode ≠ .lineComment) :
    (step reader ';').finish = reader.finish.map (· ++ [.semicolon]) := by
  rcases reader with ⟨pieces, mode⟩
  cases mode with
  | lineComment => exact absurd rfl code
  | quoted quote content => cases quote <;> rfl
  | closing quote content => cases quote <;> rfl
  | continuing quote content newline => cases newline <;> rfl
  | blockStar depth => rfl
  | _ => rfl

/-- A semicolon at the end of a text is one more token. -/
theorem lex_append_semicolon (words : Text → Option Mark → List W) {text : Text}
    (quiet : ¬ ['-', '-'] <:+: text) :
    lex words (text ++ [';']) = (lex words text).map (· ++ [.semicolon]) := by
  have code : (text.foldl step .start).mode ≠ .lineComment := Quiet.foldl ⟨nofun, quiet⟩
  rw [lex, List.foldl_append, List.foldl_cons, List.foldl_nil, finish_semicolon code, lex,
    Option.map_map, Option.map_map]
  congr 1
  funext pieces
  simp only [Function.comp_apply, List.flatMap_append]
  rfl

end Quackhole.Word.Sql
