import Quackhole.Word.Sql

/-!
# Values in SQL

A value is put into a statement between single quotes, with the quotes inside it
doubled.  Whatever the value is, the reader takes it for one literal, and goes on
with the code after it as if it had just begun.
-/

namespace Quackhole.Word.Sql

open Quackhole.Word

/-- The parts a text is read as, unless a literal or a comment is still open. -/
def pieces (text : Text) : Option (List Piece) :=
  (text.foldl step .start).finish

/-- Each single quote is doubled. -/
def doubled : Text → Text
  | [] => []
  | c :: text => if c = apostrophe then c :: c :: doubled text else c :: doubled text

/-- A value as a literal. -/
def quoted (text : Text) : Text :=
  apostrophe :: (doubled text ++ [apostrophe])

/-- What the content of a literal stands for. -/
def undoubled : Text → Text
  | [] => []
  | [c] => [c]
  | c :: d :: text =>
      if c = apostrophe ∧ d = apostrophe then c :: undoubled text else c :: undoubled (d :: text)

theorem undoubled_cons_of_ne {c : Char} (plain : c ≠ apostrophe) (text : Text) :
    undoubled (c :: text) = c :: undoubled text := by
  cases text with
  | nil => rfl
  | cons d text => exact if_neg fun both => plain both.1

/-- A literal stands for the value that was quoted. -/
@[simp]
theorem undoubled_doubled (text : Text) : undoubled (doubled text) = text := by
  induction text with
  | nil => rfl
  | cons c text ih =>
      rw [doubled]
      split
      · rename_i quote
        rw [undoubled, if_pos ⟨quote, quote⟩, ih]
      · rename_i plain
        rw [undoubled_cons_of_ne plain, ih]

/-! ## What was read before -/

/-- The reader with pieces in front of its own. -/
def Reader.behind (front : List Piece) (reader : Reader) : Reader :=
  ⟨front ++ reader.pieces, reader.mode⟩

theorem flush_append (front pieces : List Piece) (run : Text) (next : Option Mark) :
    flush (front ++ pieces) run next = front ++ flush pieces run next := by
  rw [flush, flush]
  split
  · rfl
  · exact List.append_assoc _ _ _

theorem flush_of_ne_nil {run : Text} (nonempty : run ≠ []) (pieces : List Piece)
    (next : Option Mark) : flush pieces run next = pieces ++ [.run run next] := by
  rw [flush, if_neg]
  exact fun empty => nonempty (List.isEmpty_iff.mp empty)

theorem readCode_behind (front pieces : List Piece) (run : Text) (c : Char) :
    readCode (front ++ pieces) run c = (readCode pieces run c).behind front := by
  unfold readCode
  split_ifs <;> simp [Reader.behind, flush_append]

theorem readDollar_behind (front pieces : List Piece) (tag content : Text)
    (seen : Option (Text × Text)) (c : Char) :
    readDollar (front ++ pieces) tag content seen c =
      (readDollar pieces tag content seen c).behind front := by
  unfold readDollar
  cases seen with
  | none => split_ifs <;> rfl
  | some seen =>
      dsimp only
      split_ifs <;> simp [Reader.behind]

/-- What was read before does not matter. -/
theorem step_behind (front : List Piece) (reader : Reader) (c : Char) :
    step (reader.behind front) c = (step reader c).behind front := by
  rcases reader with ⟨pieces, mode⟩
  cases mode with
  | code run => exact readCode_behind front pieces run c
  | dash run =>
      simp only [step, Reader.behind]
      split_ifs
      · rw [flush_append]
      · exact readCode_behind front pieces _ c
  | slash run =>
      simp only [step, Reader.behind]
      split_ifs
      · rw [flush_append]
      · exact readCode_behind front pieces _ c
  | opening run letters =>
      simp only [step, Reader.behind]
      split_ifs
      · rw [flush_append]
      · rfl
      · exact readCode_behind front pieces _ c
  | lineComment | block depth | blockSlash depth =>
      simp only [step, Reader.behind]
      split_ifs <;> rfl
  | blockStar depth => cases depth <;> simp only [step, Reader.behind] <;> split_ifs <;> rfl
  | quoted quote content =>
      simp only [step, Reader.behind]
      split_ifs <;> rfl
  | escaped content => rfl
  | closing quote content =>
      simp only [step, Reader.behind]
      split_ifs
      · rfl
      · rfl
      · rw [List.append_assoc]
        exact readCode_behind front _ [] c
  | continuing quote content newline =>
      simp only [step, Reader.behind]
      split_ifs
      · rfl
      · rfl
      · rw [List.append_assoc]
        exact readCode_behind front _ [] c
  | dollar tag content seen => exact readDollar_behind front pieces tag content seen c

theorem foldl_behind (front : List Piece) (text : Text) (reader : Reader) :
    text.foldl step (reader.behind front) = (text.foldl step reader).behind front := by
  induction text generalizing reader with
  | nil => rfl
  | cons c text ih => rw [List.foldl_cons, List.foldl_cons, step_behind, ih]

/-- Code that begins is read as it is at the start. -/
theorem foldl_code (front : List Piece) (text : Text) :
    text.foldl step ⟨front, .code []⟩ = (text.foldl step .start).behind front := by
  rw [← foldl_behind, Reader.behind, Reader.start, List.append_nil]

/-! ## A literal -/

/-- The content of a literal, to the end of the value. -/
theorem foldl_doubled (pieces : List Piece) (content text : Text) :
    (doubled text).foldl step ⟨pieces, .quoted .single content⟩ =
      ⟨pieces, .quoted .single (content ++ doubled text)⟩ := by
  induction text generalizing content with
  | nil => simp [doubled]
  | cons c text ih =>
      rw [doubled]
      split
      · rename_i quote
        have twice : [c, c].foldl step ⟨pieces, .quoted .single content⟩ =
            ⟨pieces, .quoted .single (content ++ [c, c])⟩ := by
          simp [step, Quote.char, quote]
        calc (c :: c :: doubled text).foldl step ⟨pieces, .quoted .single content⟩
            = (doubled text).foldl step ([c, c].foldl step ⟨pieces, .quoted .single content⟩) := rfl
          _ = ⟨pieces, .quoted .single (content ++ c :: c :: doubled text)⟩ := by
              rw [twice, ih, List.append_assoc]
              rfl
      · rename_i plain
        have once : step ⟨pieces, .quoted .single content⟩ c =
            ⟨pieces, .quoted .single (content ++ [c])⟩ := by
          simp [step, Quote.char, plain]
        rw [List.foldl_cons, once, ih, List.append_assoc]
        rfl

theorem step_quoted_close {quote : Quote} {c : Char} (closes : c = quote.char)
    (pieces : List Piece) (content : Text) :
    step ⟨pieces, .quoted quote content⟩ c = ⟨pieces, .closing quote content⟩ :=
  if_pos closes

/-- Code directly after a literal. -/
theorem step_closing_code {quote : Quote} {c : Char} (other : c ≠ quote.char)
    (solid : isSpace c = false) (pieces : List Piece) (content : Text) :
    step ⟨pieces, .closing quote content⟩ c =
      readCode (pieces ++ [.literal (.quote quote) content]) [] c := by
  have unspaced : ¬ (isSpace c = true ∧ quote ≠ .double) := fun both =>
    Bool.noConfusion (solid.symm.trans both.1)
  exact (if_neg other).trans (if_neg unspaced)

/-- Code after a literal and white space. -/
theorem step_continuing_code {newline : Bool} {c : Char} (solid : isSpace c = false)
    (ends : ¬ (newline = true ∧ c = apostrophe)) (pieces : List Piece) (quote : Quote)
    (content : Text) :
    step ⟨pieces, .continuing quote content newline⟩ c =
      readCode (pieces ++ [.literal (.quote quote) content]) [] c := by
  have unspaced : ¬ isSpace c = true := Bool.eq_false_iff.mp solid
  exact (if_neg unspaced).trans (if_neg ends)

/-- The text begins with something that is no quote, after white space or at once. -/
def Begins (text : Text) : Prop :=
  ∃ blanks c rest, text = blanks ++ c :: rest ∧ (∀ blank ∈ blanks, isSpace blank = true) ∧
    isSpace c = false ∧ c ≠ apostrophe

/-- `Begins`, to be computed. -/
def beginsCode : Text → Bool
  | [] => false
  | c :: rest => if isSpace c then beginsCode rest else c != apostrophe

theorem begins_of_beginsCode {text : Text} (code : beginsCode text = true) : Begins text := by
  induction text with
  | nil => cases code
  | cons c rest ih =>
      rw [beginsCode] at code
      split at code
      · rename_i blank
        obtain ⟨blanks, d, more, rfl, others, other⟩ := ih code
        exact ⟨c :: blanks, d, more, rfl, List.forall_mem_cons.mpr ⟨blank, others⟩, other⟩
      · rename_i filled
        exact ⟨[], c, rest, rfl, nofun, Bool.not_eq_true _ ▸ filled, bne_iff_ne.mp code⟩

theorem Begins.append {text : Text} (begins : Begins text) (more : Text) :
    Begins (text ++ more) := by
  obtain ⟨blanks, c, rest, rfl, blank, other⟩ := begins
  exact ⟨blanks, c, rest ++ more, List.append_assoc _ _ _, blank, other⟩

/-- A reader that goes through a text that begins so as it would at a fresh start. -/
def Reader.Fresh (reader : Reader) (front : List Piece) : Prop :=
  reader.finish = some front ∧
    ∀ text, Begins text → text.foldl step reader = text.foldl step ⟨front, .code []⟩

theorem fresh_code (front : List Piece) : Reader.Fresh ⟨front, .code []⟩ front :=
  ⟨rfl, fun _ _ => rfl⟩

/-- White space after a literal leaves it open to be gone on with. -/
theorem foldl_blank_continuing {blanks : Text} (blank : ∀ c ∈ blanks, isSpace c = true)
    (pieces : List Piece) (content : Text) (newline : Bool) :
    ∃ newline', blanks.foldl step ⟨pieces, .continuing .single content newline⟩ =
      ⟨pieces, .continuing .single content newline'⟩ := by
  induction blanks generalizing newline with
  | nil => exact ⟨newline, rfl⟩
  | cons c blanks ih =>
      rw [List.foldl_cons, step_of_isSpace (blank c List.mem_cons_self)]
      exact ih (fun d member => blank d (List.mem_cons_of_mem c member)) _

theorem foldl_blank_code {blanks : Text} (blank : ∀ c ∈ blanks, isSpace c = true)
    (pieces : List Piece) :
    blanks.foldl step ⟨pieces, .code []⟩ = ⟨pieces, .code []⟩ := by
  induction blanks with
  | nil => rfl
  | cons c blanks ih =>
      rw [List.foldl_cons, step_of_isSpace (blank c List.mem_cons_self)]
      exact ih fun d member => blank d (List.mem_cons_of_mem c member)

theorem fresh_closing (pieces : List Piece) (content : Text) :
    Reader.Fresh ⟨pieces, .closing .single content⟩
      (pieces ++ [.literal (.quote .single) content]) := by
  refine ⟨rfl, ?_⟩
  rintro _ ⟨blanks, c, rest, rfl, blank, filled, plain⟩
  rw [List.foldl_append, List.foldl_append, foldl_blank_code blank, List.foldl_cons,
    List.foldl_cons]
  congr 1
  cases blanks with
  | nil => exact step_closing_code plain filled pieces content
  | cons d blanks =>
      rw [List.foldl_cons, step_of_isSpace (blank d List.mem_cons_self)]
      obtain ⟨newline, read⟩ := foldl_blank_continuing
        (fun e member => blank e (List.mem_cons_of_mem d member)) pieces content (isNewline d)
      exact (congrArg (step · c) read).trans
        (step_continuing_code filled (fun both => plain both.2) pieces .single content)

/-- A literal after code that does not make it an escape string. -/
theorem foldl_quoted {run : Text} (plain : isEscapePrefix run = false) (pieces : List Piece)
    (text : Text) :
    (quoted text).foldl step ⟨pieces, .code run⟩ =
      ⟨flush pieces run (some (.quote .single)), .closing .single (doubled text)⟩ := by
  have opens : step ⟨pieces, .code run⟩ apostrophe =
      ⟨flush pieces run (some (.quote .single)), .quoted .single []⟩ := by
    have single : singleQuote run = .single := by rw [singleQuote, plain]; rfl
    simp only [step, readCode, single]
    rfl
  rw [quoted, List.foldl_cons, opens, List.foldl_append, foldl_doubled]
  rfl

/-! ## Code with values in it -/

/-- Words that stand alone. -/
def runs (words : List String) : List Piece :=
  words.map fun word => .run word.toList none

/-- A value in single quotes. -/
def value (text : Text) : Piece :=
  .literal (.quote .single) (doubled text)

/-- Code that is read to its end. -/
structure Code where
  text : Text
  pieces : List Piece
  run : Text
  reads : text.foldl step .start = ⟨pieces, .code run⟩
  begins : Begins text

/-- Code after which a single quote begins a literal. -/
structure Opener extends Code where
  plain : isEscapePrefix run = false

theorem isEscapePrefix_nil : isEscapePrefix [] = false := by
  rfl

/-- Words with white space after each. -/
def Opener.ofWords (text : Text) (words : List String)
    (begins : beginsCode text = true)
    (reads : text.foldl step .start = ⟨runs words, .code []⟩) : Opener where
  text := text
  pieces := runs words
  run := []
  reads := reads
  begins := begins_of_beginsCode begins
  plain := isEscapePrefix_nil

namespace Code

variable (code : Code)

/-- The pieces of the code, with what delimits the text after it. -/
def closed (next : Option Mark) : List Piece :=
  flush code.pieces code.run next

theorem foldl_text {reader : Reader} {front : List Piece} (fresh : reader.Fresh front) :
    code.text.foldl step reader = ⟨front ++ code.pieces, .code code.run⟩ := by
  calc code.text.foldl step reader
      = code.text.foldl step ⟨front, .code []⟩ := fresh.2 _ code.begins
    _ = ⟨front ++ code.pieces, .code code.run⟩ := by rw [foldl_code, code.reads, Reader.behind]

end Code

/-- Code with a value after it, and so on. -/
abbrev Template := List (Opener × Text)

namespace Template

variable (template : Template)

/-- The text with the values quoted. -/
def text : Text :=
  template.flatMap fun part => part.1.text ++ quoted part.2

/-- What it should be read as. -/
def pieces : List Piece :=
  template.flatMap fun part =>
    part.1.closed (some (.quote .single)) ++ [.literal (.quote .single) (doubled part.2)]

@[simp]
theorem text_nil : text [] = [] :=
  rfl

theorem text_cons (opener : Opener) (value : Text) :
    text ((opener, value) :: template) = opener.text ++ quoted value ++ text template :=
  rfl

theorem text_single (opener : Opener) (value : Text) :
    text [(opener, value)] = opener.text ++ quoted value := by
  rw [text_cons, text_nil, List.append_nil]

theorem text_pair (first second : Opener) (value value' : Text) :
    text [(first, value), (second, value')] =
      first.text ++ quoted value ++ second.text ++ quoted value' := by
  rw [text_cons, text_single, ← List.append_assoc]

@[simp]
theorem pieces_nil : pieces [] = [] :=
  rfl

theorem pieces_cons (opener : Opener) (value : Text) :
    pieces ((opener, value) :: template) =
      opener.closed (some (.quote .single)) ++ [.literal (.quote .single) (doubled value)] ++
        pieces template :=
  rfl

/-- The values stay in their literals. -/
theorem fresh_foldl {reader : Reader} {front : List Piece} (fresh : reader.Fresh front) :
    (template.text.foldl step reader).Fresh (front ++ template.pieces) := by
  induction template generalizing reader front with
  | nil =>
      rw [pieces_nil, List.append_nil]
      exact fresh
  | cons part template ih =>
      obtain ⟨code, value⟩ := part
      have read : (code.text ++ quoted value).foldl step reader =
          ⟨front ++ code.closed (some (.quote .single)), .closing .single (doubled value)⟩ := by
        rw [List.foldl_append, code.foldl_text fresh, foldl_quoted code.plain, flush_append]
        rfl
      have rest := ih (fresh_closing (front ++ code.closed (some (.quote .single))) (doubled value))
      rw [← read, List.append_assoc, List.append_assoc] at rest
      rw [text_cons, List.foldl_append, pieces_cons, List.append_assoc]
      exact rest

/-- A text that ends in a literal. -/
theorem pieces_text : Sql.pieces template.text = some template.pieces :=
  (template.fresh_foldl (fresh_code [])).1

/-- A text that ends in code. -/
theorem pieces_text_append (code : Code) :
    Sql.pieces (template.text ++ code.text) = some (template.pieces ++ code.closed none) := by
  have read := code.foldl_text (template.fresh_foldl (fresh_code []))
  rw [Sql.pieces, List.foldl_append]
  exact (congrArg Reader.finish read).trans (congrArg some (flush_append _ _ _ _))

end Template

/-! ## Names in code -/

/-- The characters of a name that need no quotes, whatever the case of its letters. -/
def isWordChar (c : Char) : Bool :=
  c.isAlphanum || c == '_'

/-- A name that needs no quotes. -/
def isIdentifier : Text → Bool
  | [] => false
  | c :: name => (c.isAlpha || c == '_') && name.all isWordChar

theorem isWordChar_of_isIdentifier {name : Text} (identifier : isIdentifier name = true) :
    ∀ c ∈ name, isWordChar c = true := by
  cases name with
  | nil => cases identifier
  | cons first name =>
      rw [isIdentifier, Bool.and_eq_true, Bool.or_eq_true] at identifier
      rintro c (_ | ⟨_, member⟩)
      · rw [isWordChar, Char.isAlphanum, Bool.or_eq_true, Bool.or_eq_true]
        exact identifier.1.imp_left Or.inl
      · exact List.all_eq_true.mp identifier.2 c member

theorem ne_nil_of_isIdentifier {name : Text} (identifier : isIdentifier name = true) :
    name ≠ [] := by
  rintro rfl
  cases identifier

/-- A name goes on with the characters of names. -/
theorem isIdentifier_append {name more : Text} (identifier : isIdentifier name = true)
    (word : ∀ c ∈ more, isWordChar c = true) : isIdentifier (name ++ more) = true := by
  cases name with
  | nil => cases identifier
  | cons first name =>
      rw [isIdentifier, Bool.and_eq_true] at identifier
      rw [List.cons_append, isIdentifier, List.all_append, identifier.1, identifier.2,
        List.all_eq_true.mpr word]
      rfl

theorem not_isSpace_wordChar {c : Char} (inside : isWordChar c = true) : isSpace c = false := by
  have bounds : 0x30 ≤ c.toNat ∧ c.toNat ≤ 0x7A := by
    rw [isWordChar] at inside
    delta Char.isAlphanum Char.isAlpha Char.isUpper Char.isLower Char.isDigit at inside
    simp only [Bool.or_eq_true, Bool.and_eq_true, beq_iff_eq, decide_eq_true_eq, ge_iff_le,
      UInt32.le_iff_toNat_le] at inside
    rcases inside with ((upper | lower) | digit) | rfl
    · exact ⟨le_trans (by decide) upper.1, le_trans upper.2 (by decide)⟩
    · exact ⟨le_trans (by decide) lower.1, le_trans lower.2 (by decide)⟩
    · exact ⟨le_trans (by decide) digit.1, le_trans digit.2 (by decide)⟩
    · exact ⟨by decide, by decide⟩
  simp only [isSpace, Bool.or_eq_false_iff, Bool.and_eq_false_iff, decide_eq_false_iff_not,
    beq_eq_false_iff_ne]
  omega

theorem step_wordChar {c : Char} (inside : isWordChar c = true) (pieces : List Piece)
    (run : Text) : step ⟨pieces, .code run⟩ c = ⟨pieces, .code (run ++ [c])⟩ := by
  have ne {d : Char} (other : isWordChar d = false) : c ≠ d := by
    rintro rfl
    rw [inside] at other
    cases other
  have dollar : ¬ (c = '$' ∧ ¬ endsInName run = true) := fun both => ne rfl both.1
  simp only [step, readCode, not_isSpace_wordChar inside, if_neg (ne (d := ';') rfl),
    if_neg (ne (d := apostrophe) rfl), if_neg (ne (d := '"') rfl), if_neg (ne (d := '-') rfl),
    if_neg (ne (d := '/') rfl), if_neg dollar, Bool.false_eq_true, if_false]

/-- A name is read as part of the run it stands in. -/
theorem foldl_word {name : Text} (word : ∀ c ∈ name, isWordChar c = true) (pieces : List Piece)
    (run : Text) : name.foldl step ⟨pieces, .code run⟩ = ⟨pieces, .code (run ++ name)⟩ := by
  induction name generalizing run with
  | nil => rw [List.append_nil]; rfl
  | cons c name ih =>
      rw [List.foldl_cons, step_wordChar (word c List.mem_cons_self),
        ih fun d member => word d (List.mem_cons_of_mem c member), List.append_assoc]
      rfl

/-- A space closes the run before it. -/
theorem foldl_space (pieces : List Piece) (run text : Text) :
    (' ' :: text).foldl step ⟨pieces, .code run⟩ =
      (text.foldl step .start).behind (flush pieces run none) := by
  rw [List.foldl_cons]
  exact foldl_code _ text

end Quackhole.Word.Sql
