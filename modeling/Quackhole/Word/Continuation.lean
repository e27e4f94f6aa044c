import Quackhole.Word.Literal

/-!
# Literals that go on after a newline

A string may go on after white space with a newline in it.  Squeezed, that white space is
a space, and what goes on is a literal of its own.  The reader of the squeezed text then
has another literal, or an empty one too many, and never makes up for it: what the rest
of the text is read as cannot bring the two lists of literals together again.
-/

namespace Quackhole.Word.Sql

open Quackhole.Word

/-! ## What will have been read -/

theorem finish_behind (front : List Piece) (reader : Reader) :
    (reader.behind front).finish = reader.finish.map (front ++ ·) := by
  rcases reader with ⟨pieces, mode⟩
  cases mode <;> simp [Reader.behind, Reader.finish, flush_append]

theorem behind_mode (reader : Reader) : Reader.behind reader.pieces ⟨[], reader.mode⟩ = reader := by
  rw [Reader.behind, List.append_nil]

/-- What has been read stays. -/
theorem exists_of_finish_foldl {rest : Text} {reader : Reader} {all : List Piece}
    (read : (rest.foldl step reader).finish = some all) : ∃ more, all = reader.pieces ++ more := by
  rw [← behind_mode reader, foldl_behind, finish_behind, Option.map_eq_some_iff] at read
  obtain ⟨more, -, rfl⟩ := read
  exact ⟨more, rfl⟩

/-- A string that begins with a content is being read. -/
def Mode.Holds (quote : Quote) (content : Text) : Mode → Prop
  | .quoted other read | .closing other read | .continuing other read _ =>
      other = quote ∧ content <+: read
  | .escaped read => quote = .escape ∧ content <+: read
  | _ => False

/-- Either it still is, or it has been read. -/
theorem step_of_holds {quote : Quote} {content : Text} {mode : Mode}
    (holds : mode.Holds quote content) (pieces : List Piece) (c : Char) :
    (∃ next : Mode, step ⟨pieces, mode⟩ c = ⟨pieces, next⟩ ∧ next.Holds quote content) ∨
      ∃ read next, content <+: read ∧
        step ⟨pieces, mode⟩ c =
          Reader.behind (pieces ++ [.literal (.quote quote) read]) next := by
  have closed (read : Text) :
      readCode (pieces ++ [.literal (.quote quote) read]) [] c =
        (readCode [] [] c).behind (pieces ++ [.literal (.quote quote) read]) := by
    rw [← readCode_behind, List.append_nil]
  cases mode with
  | quoted other read =>
      obtain ⟨rfl, begins⟩ := holds
      left
      simp only [step]
      split_ifs with _ escape
      · exact ⟨_, rfl, rfl, begins⟩
      · exact ⟨_, rfl, escape.1, begins.trans (List.prefix_append _ _)⟩
      · exact ⟨_, rfl, rfl, begins.trans (List.prefix_append _ _)⟩
  | escaped read =>
      obtain ⟨rfl, begins⟩ := holds
      exact Or.inl ⟨_, rfl, rfl, begins.trans (List.prefix_append _ _)⟩
  | closing other read =>
      obtain ⟨rfl, begins⟩ := holds
      simp only [step]
      split_ifs
      · exact Or.inl ⟨_, rfl, rfl, begins.trans (List.prefix_append _ _)⟩
      · exact Or.inl ⟨_, rfl, rfl, begins⟩
      · exact Or.inr ⟨read, _, begins, closed read⟩
  | continuing other read newline =>
      obtain ⟨rfl, begins⟩ := holds
      simp only [step]
      split_ifs
      · exact Or.inl ⟨_, rfl, rfl, begins⟩
      · exact Or.inl ⟨_, rfl, rfl, begins⟩
      · exact Or.inr ⟨read, _, begins, closed read⟩
  | _ => exact holds.elim

/-! ## Literals -/

/-- The literal that a part of a text is. -/
def Piece.asLiteral : Piece → Option (Mark × Text)
  | .literal mark content => some (mark, content)
  | .run _ _ | .semicolon => none

/-- The literals of a text. -/
def literals (pieces : List Piece) : List (Mark × Text) :=
  pieces.filterMap Piece.asLiteral

@[simp]
theorem literals_append (front back : List Piece) :
    literals (front ++ back) = literals front ++ literals back :=
  List.filterMap_append

@[simp]
theorem literals_literal (mark : Mark) (content : Text) :
    literals [.literal mark content] = [(mark, content)] :=
  rfl

theorem literals_squeezed (pieces : List Piece) :
    literals (pieces.map Piece.squeezed) = (literals pieces).map (Prod.map id squeeze) := by
  rw [literals, literals, List.filterMap_map, List.map_filterMap]
  congr 1
  funext piece
  cases piece <;> rfl

/-- A string that is being read becomes one of the literals. -/
theorem exists_literal_of_holds {rest : Text} {quote : Quote} {content : Text} {mode : Mode}
    (holds : mode.Holds quote content) {pieces all : List Piece}
    (read : (rest.foldl step ⟨pieces, mode⟩).finish = some all) :
    ∃ whole more, content <+: whole ∧
      literals all = literals pieces ++ (.quote quote, whole) :: more := by
  induction rest generalizing mode with
  | nil =>
      cases mode with
      | closing other whole | continuing other whole _ =>
          obtain ⟨rfl, begins⟩ := holds
          obtain rfl := Option.some.inj read
          exact ⟨whole, [], begins, literals_append _ _⟩
      | quoted | escaped => cases read
      | _ => exact holds.elim
  | cons c rest ih =>
      rw [List.foldl_cons] at read
      rcases step_of_holds holds pieces c with ⟨next, here, still⟩ | ⟨whole, next, begins, here⟩
      · rw [here] at read
        exact ih still read
      · rw [here] at read
        obtain ⟨more, rfl⟩ := exists_of_finish_foldl read
        refine ⟨whole, literals next.pieces ++ literals more, begins, ?_⟩
        rw [Reader.behind, literals_append, literals_append, literals_append, literals_literal,
          List.append_assoc, List.append_assoc, List.singleton_append]

/-- Whatever text the reader goes through, these literals are not the first it has read. -/
def Lost (reader : Reader) (others : List (Mark × Text)) : Prop :=
  ∀ (rest : Text) (all : List Piece), (rest.foldl step reader).finish = some all →
    ¬ others <+: literals all

theorem Lost.step {reader : Reader} {others : List (Mark × Text)} (lost : Lost reader others)
    (c : Char) : Lost (step reader c) others :=
  fun rest => lost (c :: rest)

theorem Lost.append {reader : Reader} {others : List (Mark × Text)} (lost : Lost reader others)
    (more : List (Mark × Text)) : Lost reader (others ++ more) :=
  fun rest all read begins => lost rest all read ((List.prefix_append _ _).trans begins)

/-- A reader that reads another literal, where another reader has one already. -/
theorem lost_of_holds {quote : Quote} {content : Text} {mode : Mode}
    (holds : mode.Holds quote content) {pieces : List Piece}
    {front back : List (Mark × Text)} {other : Mark × Text}
    (level : front.length = (literals pieces).length)
    (differs : ∀ whole, content <+: whole → other ≠ (.quote quote, whole)) :
    Lost ⟨pieces, mode⟩ (front ++ other :: back) := by
  rintro rest all read ⟨tail, same⟩
  obtain ⟨whole, more, begins, here⟩ := exists_literal_of_holds holds read
  rw [here, List.append_assoc, List.cons_append] at same
  exact differs whole begins (List.cons.inj (List.append_inj_right same level)).1

/-! ## Empty strings ahead -/

/-- The empty string. -/
def nothing : Mark × Text :=
  (.quote .single, [])

/-- The second list is ahead of the first by empty strings. -/
def Ahead (given typed : List (Mark × Text)) : Prop :=
  ∃ front count, typed = front ++ List.replicate (count + 1) nothing ∧
    front.length = given.length

theorem Ahead.length_lt {given typed : List (Mark × Text)} (ahead : Ahead given typed) :
    given.length < typed.length := by
  obtain ⟨front, count, rfl, level⟩ := ahead
  rw [List.length_append, List.length_replicate, level]
  omega

theorem Ahead.concat {given typed : List (Mark × Text)} (ahead : Ahead given typed) :
    Ahead given (typed ++ [nothing]) := by
  obtain ⟨front, count, rfl, level⟩ := ahead
  exact ⟨front, count + 1, by rw [List.append_assoc, ← List.replicate_succ'], level⟩

theorem Ahead.concat_both {given typed : List (Mark × Text)} (ahead : Ahead given typed) :
    Ahead (given ++ [nothing]) (typed ++ [nothing]) := by
  obtain ⟨front, count, rfl, level⟩ := ahead
  refine ⟨front ++ [nothing], count, ?_, by simp [level]⟩
  rw [List.append_assoc, ← List.replicate_succ', List.append_assoc, List.replicate_succ]
  rfl

/-- It stays ahead as long as empty strings are read, and is another list when anything
else is. -/
theorem Ahead.append {given typed : List (Mark × Text)} (ahead : Ahead given typed)
    (more : List (Mark × Text)) :
    Ahead (given ++ more) (typed ++ more.map (Prod.map id squeeze)) ∨
      ∀ rest, ¬ typed ++ more.map (Prod.map id squeeze) <+: given ++ more ++ rest := by
  induction more generalizing given typed with
  | nil => simpa using Or.inl ahead
  | cons literal more ih =>
      by_cases empty : literal = nothing
      · subst empty
        have onward := ih ahead.concat_both
        have fixed : Prod.map id squeeze nothing = nothing := rfl
        simpa only [List.map_cons, fixed, List.append_assoc, List.singleton_append] using onward
      · right
        rintro rest ⟨tail, same⟩
        obtain ⟨front, count, rfl, level⟩ := ahead
        simp only [List.append_assoc, List.replicate_succ, List.cons_append] at same
        exact empty (List.cons.inj (List.append_inj_right same level)).1.symm

/-! ## Two readers -/

/-- Both readers read the same, and the second one is ahead by empty strings. -/
structure Shifted (white : Bool) (given typed : Reader) : Prop where
  mode : typed.mode = given.mode.squeezed
  ahead : Ahead (literals given.pieces) (literals typed.pieces)
  blank : white = true → given.mode.Blank
  filled : white = false → given.mode.Filled

/-- The one reader is in a string with some content, the other in an empty one, at the
same place. -/
inductive Mode.Beside (quote : Quote) (content : Text) : Mode → Mode → Prop where
  | quoted : Beside quote content (.quoted quote content) (.quoted .single [])
  | closing : Beside quote content (.closing quote content) (.closing .single [])
  | continuing (newline : Bool) :
      Beside quote content (.continuing quote content newline) (.continuing .single [] false)

/-- The string that is being read was cut by the second reader, and nothing but empty
strings have come since. -/
structure Dangling (quote : Quote) (content : Text) (white : Bool) (given typed : Reader) :
    Prop where
  string : quote ≠ .double
  beside : given.mode.Beside quote content typed.mode
  blank : white = true → given.mode.Blank
  cut : ∃ front count, literals typed.pieces =
      front ++ (.quote quote, squeeze content) :: List.replicate count nothing ∧
    front.length = (literals given.pieces).length

/-- The literals of the two readers will not be the same. -/
inductive Drifted (white : Bool) (given typed : Reader) : Prop where
  | lost (lost : Lost given (literals typed.pieces))
  | shifted (shifted : Shifted white given typed)
  | dangling (quote : Quote) (content : Text) (dangling : Dangling quote content white given typed)

/-- What both readers read next, where the second one is ahead. -/
theorem drifted_behind {white : Bool} {given typed : List Piece}
    (ahead : Ahead (literals given) (literals typed)) {next : Reader}
    (blank : white = true → next.mode.Blank) (filled : white = false → next.mode.Filled) :
    Drifted white (next.behind given) (next.squeezed.behind typed) := by
  have told : literals (next.squeezed.behind typed).pieces =
      literals typed ++ (literals next.pieces).map (Prod.map id squeeze) :=
    (literals_append _ _).trans (congrArg _ (literals_squeezed _))
  rcases ahead.append (literals next.pieces) with still | other
  · refine .shifted ⟨rfl, ?_, blank, filled⟩
    rw [told, Reader.behind, literals_append]
    exact still
  · refine .lost fun rest all read => ?_
    obtain ⟨more, rfl⟩ := exists_of_finish_foldl read
    rw [told, Reader.behind, literals_append, literals_append]
    exact other _

/-- A literal that was read by the first reader, and the empty string the second one has
instead. -/
theorem ahead_of_cut {quote : Quote} {content : Text} {given typed : List Piece}
    (cut : ∃ front count, literals typed =
        front ++ (.quote quote, squeeze content) :: List.replicate count nothing ∧
      front.length = (literals given).length) :
    Ahead (literals (given ++ [.literal (.quote quote) content]))
      (literals (typed ++ [.literal (.quote .single) []])) := by
  obtain ⟨front, count, told, level⟩ := cut
  refine ⟨front ++ [(.quote quote, squeeze content)], count, ?_, by simp [level]⟩
  rw [literals_append, told, List.replicate_succ']
  simp [nothing]

theorem length_squeezeAfter_le (text : Text) (white : Bool) :
    (squeezeAfter white text).length ≤ text.length := by
  induction text generalizing white with
  | nil => exact le_rfl
  | cons c text ih =>
      rw [squeezeAfter]
      split_ifs
      · exact (ih true).trans (Nat.le_succ _)
      · exact Nat.succ_le_succ (ih true)
      · exact Nat.succ_le_succ (ih false)

/-- A content that has grown is not the squeezed one. -/
theorem squeeze_ne_of_concat {content whole : Text} {c : Char} (begins : content ++ [c] <+: whole) :
    squeeze content ≠ whole := by
  rintro rfl
  have longer := begins.length_le
  have shorter := length_squeezeAfter_le content false
  rw [List.length_append, List.length_singleton] at longer
  exact absurd (longer.trans shorter) (Nat.not_succ_le_self _)

/-- The string of the first reader has grown. -/
theorem Dangling.lost {quote : Quote} {content : Text} {white : Bool} {given typed : Reader}
    (dangling : Dangling quote content white given typed) {c : Char} {mode : Mode}
    (grown : mode.Holds quote (content ++ [c])) :
    Lost ⟨given.pieces, mode⟩ (literals typed.pieces) := by
  obtain ⟨front, count, told, level⟩ := dangling.cut
  rw [told]
  refine lost_of_holds grown level ?_
  rintro whole begins same
  exact squeeze_ne_of_concat begins (Prod.mk.inj same).2

theorem Reader.exists_step_pieces (reader : Reader) (c : Char) :
    ∃ more, (step reader c).pieces = reader.pieces ++ more := by
  have here := step_behind reader.pieces ⟨[], reader.mode⟩ c
  rw [behind_mode] at here
  exact ⟨_, congrArg Reader.pieces here⟩

/-- Whatever the second reader reads, the first is lost. -/
theorem Lost.drifted {white : Bool} {given typed : Reader}
    (lost : Lost given (literals typed.pieces)) (c : Char) :
    Drifted white given (Sql.step typed c) := by
  obtain ⟨more, here⟩ := typed.exists_step_pieces c
  refine .lost ?_
  rw [here, literals_append]
  exact lost.append _

theorem char_of_string {quote : Quote} (string : quote ≠ .double) : quote.char = apostrophe := by
  cases quote with
  | single | escape => rfl
  | double => exact absurd rfl string

/-! ## A character -/

/-- A string goes on, for the first reader.  For the second one its quote begins another. -/
theorem Shifted.step_goesOn {white : Bool} {given typed : Reader}
    (shifted : Shifted white given typed) {c : Char} (on : goesOn given c = true) :
    Drifted false (step given c) (step typed c) := by
  obtain ⟨typedPieces, typedMode⟩ := typed
  obtain rfl : typedMode = given.mode.squeezed := shifted.mode
  obtain ⟨quote, content, mode, rfl, read⟩ := step_of_goesOn on
  have cut : step ⟨typedPieces, given.mode.squeezed⟩ apostrophe =
      ⟨typedPieces ++ [.literal (.quote quote) (squeeze content)], .quoted .single []⟩ := by
    rw [mode]
    rfl
  rw [read, cut]
  have ahead := shifted.ahead
  by_cases empty : (Mark.quote quote, content) = nothing
  · obtain ⟨quoteEq, rfl⟩ := Prod.mk.inj empty
    obtain rfl := Mark.quote.inj quoteEq
    refine .shifted ⟨rfl, ?_, (absurd · Bool.false_ne_true), fun _ => rfl⟩
    rw [literals_append]
    exact ahead.concat
  · obtain ⟨front, count, told, level⟩ := ahead
    refine .lost ?_
    rw [literals_append, told, List.replicate_succ, List.append_assoc, List.cons_append]
    have holds : (Mode.quoted quote content).Holds quote content := ⟨rfl, List.prefix_refl _⟩
    refine lost_of_holds holds level ?_
    rintro whole begins same
    obtain ⟨quoteEq, rfl⟩ := Prod.mk.inj same
    rw [List.prefix_nil.mp begins, ← quoteEq] at empty
    exact empty rfl

/-- What is not white space, read by both. -/
theorem Shifted.step_filled {white : Bool} {given typed : Reader}
    (shifted : Shifted white given typed) {c : Char} {rest : Text}
    (quiet : Quiet given.mode (c :: rest)) (solid : isSpace c = false) :
    Drifted false (step given c) (step typed c) := by
  cases on : goesOn given c with
  | true => exact shifted.step_goesOn on
  | false =>
      obtain ⟨typedPieces, typedMode⟩ := typed
      obtain rfl : typedMode = given.mode.squeezed := shifted.mode
      have first : step given c = (step ⟨[], given.mode⟩ c).behind given.pieces := by
        rw [← step_behind, behind_mode]
      have alone : (step ⟨[], given.mode⟩ c).squeezed = step ⟨[], given.mode.squeezed⟩ c :=
        step_squeezed solid on
      have second : step ⟨typedPieces, given.mode.squeezed⟩ c =
          (step ⟨[], given.mode⟩ c).squeezed.behind typedPieces := by
        rw [alone, ← step_behind, Reader.behind, List.append_nil]
      have fresh := quiet.fresh on
      rw [first] at fresh ⊢
      rw [second]
      exact drifted_behind shifted.ahead (absurd · Bool.false_ne_true) fun _ => fresh.filled solid

/-- White space, of which the second reader reads the first character only. -/
theorem Shifted.step_space {white : Bool} {given typed : Reader}
    (shifted : Shifted white given typed) {c : Char} {rest : Text}
    (quiet : Quiet given.mode (c :: rest)) (space : isSpace c = true) :
    Drifted true (step given c) (if white then typed else step typed ' ') := by
  obtain ⟨typedPieces, typedMode⟩ := typed
  obtain rfl : typedMode = given.mode.squeezed := shifted.mode
  have first : step given c = (readSpace ⟨[], given.mode⟩ c).behind given.pieces := by
    rw [← step_of_isSpace space, ← step_behind, behind_mode]
  have second : (if white then ⟨typedPieces, given.mode.squeezed⟩
        else step ⟨typedPieces, given.mode.squeezed⟩ ' ') =
      (readSpace ⟨[], given.mode⟩ c).squeezed.behind typedPieces := by
    cases white with
    | false =>
        have begins : (readSpace ⟨[], given.mode⟩ c).squeezed =
            readSpace ⟨[], given.mode.squeezed⟩ ' ' :=
          readSpace_squeezed space (shifted.filled rfl) quiet.1
        rw [begins, ← step_of_isSpace rfl, ← step_behind, Reader.behind, List.append_nil]
        rfl
    | true =>
        have again : (readSpace ⟨[], given.mode⟩ c).squeezed = ⟨[], given.mode.squeezed⟩ :=
          readSpace_squeezed_again space (shifted.blank rfl)
        rw [again, Reader.behind, List.append_nil]
        rfl
  rw [first, second]
  exact drifted_behind shifted.ahead (fun _ => blank_readSpace space quiet.1)
    (absurd ·.symm Bool.false_ne_true)

/-- The string the second reader has cut is closed, and code follows. -/
theorem Dangling.closed {quote : Quote} {content : Text} {white : Bool} {given typed : Reader}
    (dangling : Dangling quote content white given typed) {c : Char} {rest : Text}
    (quiet : Quiet given.mode (c :: rest)) (solid : isSpace c = false) :
    Drifted false (readCode (given.pieces ++ [.literal (.quote quote) content]) [] c)
      (readCode (typed.pieces ++ [.literal (.quote .single) []]) [] c) := by
  have shifted : Shifted false ⟨given.pieces ++ [.literal (.quote quote) content], .code []⟩
      ⟨typed.pieces ++ [.literal (.quote .single) []], .code []⟩ :=
    ⟨rfl, ahead_of_cut dangling.cut, (absurd · Bool.false_ne_true), fun _ => trivial⟩
  have between : Quiet (.code []) (c :: rest) :=
    ⟨by decide, fun inside => quiet.2 (inside.trans (List.suffix_append _ _).isInfix)⟩
  exact shifted.step_filled between solid

theorem Dangling.step_filled {quote : Quote} {content : Text} {white : Bool}
    {given typed : Reader} (dangling : Dangling quote content white given typed) {c : Char}
    {rest : Text} (quiet : Quiet given.mode (c :: rest)) (solid : isSpace c = false) :
    Drifted false (step given c) (step typed c) := by
  have same := char_of_string dangling.string
  obtain ⟨givenPieces, givenMode⟩ := given
  obtain ⟨typedPieces, typedMode⟩ := typed
  obtain ⟨string, beside, blank, cut⟩ := dangling
  have dangling : Dangling quote content white ⟨givenPieces, givenMode⟩
      ⟨typedPieces, typedMode⟩ := ⟨string, beside, blank, cut⟩
  cases beside with
  | quoted =>
      by_cases closes : c = apostrophe
      · rw [step_quoted_close (closes.trans same.symm), step_quoted_close closes]
        exact .dangling quote content ⟨string, .closing, (absurd · Bool.false_ne_true), cut⟩
      · apply Lost.drifted
        rw [step]
        dsimp only
        rw [if_neg (by rwa [same])]
        split_ifs with escape
        · exact dangling.lost (c := c) ⟨escape.1, List.prefix_refl _⟩
        · exact dangling.lost (c := c) ⟨rfl, List.prefix_refl _⟩
  | closing =>
      by_cases twice : c = apostrophe
      · apply Lost.drifted
        rw [step]
        dsimp only
        rw [if_pos (twice.trans same.symm)]
        refine dangling.lost (c := c) ⟨rfl, ?_⟩
        rw [List.append_cons content c [c]]
        exact List.prefix_append _ _
      · rw [step_closing_code (by rwa [same]) solid, step_closing_code twice solid]
        exact dangling.closed quiet solid
  | continuing newline =>
      by_cases on : newline = true ∧ c = apostrophe
      · obtain ⟨rfl, rfl⟩ := on
        refine .dangling quote content ⟨string, .quoted, (absurd · Bool.false_ne_true), ?_⟩
        obtain ⟨front, count, told, level⟩ := cut
        refine ⟨front, count + 1, ?_, level⟩
        have cut : (step ⟨typedPieces, .continuing .single [] false⟩ apostrophe).pieces =
            typedPieces ++ [.literal (.quote .single) []] :=
          rfl
        rw [cut, literals_append, told, List.replicate_succ']
        simp [nothing]
      · rw [step_continuing_code solid on, step_continuing_code solid (by rintro ⟨⟨⟩, -⟩)]
        exact dangling.closed quiet solid

theorem Dangling.step_space {quote : Quote} {content : Text} {white : Bool}
    {given typed : Reader} (dangling : Dangling quote content white given typed) {c : Char}
    (space : isSpace c = true) :
    Drifted true (step given c) (if white then typed else step typed ' ') := by
  obtain ⟨givenPieces, givenMode⟩ := given
  obtain ⟨typedPieces, typedMode⟩ := typed
  obtain ⟨string, beside, blank, cut⟩ := dangling
  have dangling : Dangling quote content white ⟨givenPieces, givenMode⟩
      ⟨typedPieces, typedMode⟩ := ⟨string, beside, blank, cut⟩
  rw [step_of_isSpace space]
  cases beside with
  | quoted =>
      have grown : (Mode.quoted quote (content ++ [c])).Holds quote (content ++ [c]) :=
        ⟨rfl, List.prefix_refl _⟩
      have lost := dangling.lost grown
      cases white with
      | true => exact .lost lost
      | false => exact lost.drifted ' '
  | closing =>
      cases white with
      | true => exact (blank rfl).elim
      | false =>
          refine .dangling quote content ⟨string, ?_, fun _ => ?_, ?_⟩
          all_goals cases quote with
            | double => exact absurd rfl string
            | single | escape => first | exact .continuing _ | exact trivial | exact cut
  | continuing newline =>
      refine .dangling quote content ⟨string, ?_, fun _ => trivial, ?_⟩
      · cases white <;> exact .continuing _
      · cases white <;> exact cut

/-- Readers that have drifted apart stay apart. -/
theorem Drifted.foldl (text : Text) {white : Bool} {given typed : Reader}
    (drifted : Drifted white given typed) (quiet : Quiet given.mode text) :
    ∃ last, Drifted last (text.foldl step given) ((squeezeAfter white text).foldl step typed) := by
  induction text generalizing white given typed with
  | nil => exact ⟨white, drifted⟩
  | cons c text ih =>
      rw [List.foldl_cons, squeezeAfter]
      cases space : isSpace c with
      | false =>
          rw [if_neg Bool.false_ne_true, List.foldl_cons]
          refine ih ?_ quiet.step
          cases drifted with
          | lost lost => exact (lost.step c).drifted c
          | shifted shifted => exact shifted.step_filled quiet space
          | dangling quote content dangling => exact dangling.step_filled quiet space
      | true =>
          have onward : Drifted true (step given c) (if white then typed else step typed ' ') := by
            cases drifted with
            | lost lost =>
                cases white with
                | true => exact .lost (lost.step c)
                | false => exact (lost.step c).drifted ' '
            | shifted shifted => exact shifted.step_space quiet space
            | dangling quote content dangling => exact dangling.step_space space
          rw [if_pos rfl]
          cases white with
          | true => exact ih onward quiet.step
          | false => exact ih onward quiet.step

/-- At the end of the text the literals differ. -/
theorem Drifted.literals_ne {white : Bool} {given typed : Reader}
    (drifted : Drifted white given typed) {first second : List Piece}
    (givenRead : given.finish = some first) (typedRead : typed.finish = some second) :
    literals first ≠ literals second := by
  intro same
  cases drifted with
  | lost lost =>
      obtain ⟨more, rfl⟩ := @exists_of_finish_foldl [] typed second typedRead
      refine lost [] first givenRead ?_
      rw [same, literals_append]
      exact List.prefix_append _ _
  | shifted shifted =>
      obtain ⟨typedPieces, typedMode⟩ := typed
      obtain rfl : typedMode = given.mode.squeezed := shifted.mode
      have alone : Reader.finish ⟨[], given.mode.squeezed⟩ =
          (Reader.finish ⟨[], given.mode⟩).map (List.map Piece.squeezed) :=
        finish_squeezed ⟨[], given.mode⟩
      rw [← behind_mode given, finish_behind, Option.map_eq_some_iff] at givenRead
      obtain ⟨last, ends, rfl⟩ := givenRead
      rw [← behind_mode ⟨typedPieces, given.mode.squeezed⟩, finish_behind, alone, ends] at typedRead
      obtain rfl := Option.some.inj typedRead
      rw [literals_append, literals_append, literals_squeezed] at same
      rcases shifted.ahead.append (literals last) with ahead | other
      · exact absurd (congrArg List.length same) ahead.length_lt.ne
      · apply other []
        rw [List.append_nil, same]
  | dangling quote content dangling =>
      obtain ⟨givenPieces, givenMode⟩ := given
      obtain ⟨typedPieces, typedMode⟩ := typed
      obtain ⟨string, beside, -, cut⟩ := dangling
      have shorter := (ahead_of_cut cut).length_lt
      cases beside with
      | quoted => cases givenRead
      | closing | continuing =>
          obtain rfl := Option.some.inj givenRead
          obtain rfl := Option.some.inj typedRead
          exact absurd (congrArg List.length same) shorter.ne

/-! ## A text in which a string goes on -/

/-- No quoted name goes on. -/
def Mode.Stringy : Mode → Prop
  | .continuing quote _ _ => quote ≠ .double
  | _ => True

theorem stringy_readCode (pieces : List Piece) (run : Text) (c : Char) :
    (readCode pieces run c).mode.Stringy := by
  unfold readCode
  split_ifs <;> trivial

theorem stringy_step {reader : Reader} (stringy : reader.mode.Stringy) (c : Char) :
    (step reader c).mode.Stringy := by
  rcases reader with ⟨pieces, mode⟩
  cases mode with
  | code run => exact stringy_readCode pieces run c
  | dash run | slash run | opening run letters =>
      rw [step]
      dsimp only
      split_ifs <;> first | trivial | exact stringy_readCode _ _ c
  | closing quote content =>
      rw [step]
      dsimp only
      split_ifs with _ space
      · trivial
      · exact space.2
      · exact stringy_readCode _ [] c
  | continuing quote content newline =>
      rw [step]
      dsimp only
      split_ifs
      · exact stringy
      · trivial
      · exact stringy_readCode _ [] c
  | dollar tag content seen =>
      rw [step]
      dsimp only
      rw [readDollar.eq_def]
      cases seen <;> dsimp only <;> split_ifs <;> trivial
  | blockStar depth => cases depth <;> rw [step] <;> dsimp only <;> split_ifs <;> trivial
  | escaped content => trivial
  | _ =>
      rw [step]
      dsimp only
      split_ifs <;> trivial

theorem stringy_foldl {text : Text} {reader : Reader} (stringy : reader.mode.Stringy) :
    (text.foldl step reader).mode.Stringy := by
  induction text generalizing reader with
  | nil => exact stringy
  | cons c text ih => exact ih (stringy_step stringy c)

/-- The first place where a string goes on. -/
theorem exists_goesOn {text : Text} {reader : Reader} (on : continuesFrom reader text = true) :
    ∃ before c after, text = before ++ c :: after ∧ continuesFrom reader before = false ∧
      goesOn (before.foldl step reader) c = true := by
  induction text generalizing reader with
  | nil => cases on
  | cons d text ih =>
      cases here : goesOn reader d with
      | true => exact ⟨[], d, text, rfl, rfl, here⟩
      | false =>
          rw [continuesFrom, here, Bool.false_or] at on
          obtain ⟨before, c, after, rfl, whole, goes⟩ := ih on
          refine ⟨d :: before, c, after, rfl, ?_, goes⟩
          rw [continuesFrom, here, whole]
          rfl

theorem Quiet.foldl_append {before after : Text} {reader : Reader}
    (quiet : Quiet reader.mode (before ++ after)) :
    Quiet (before.foldl Sql.step reader).mode after := by
  induction before generalizing reader with
  | nil => exact quiet
  | cons c before ih => exact ih quiet.step

/-- Squeezed, the text has other literals. -/
theorem literals_squeeze_ne {text : Text} (quiet : ¬ ['-', '-'] <:+: text) (on : Continues text)
    {first second : List Piece} (givenRead : pieces text = some first)
    (typedRead : pieces (squeeze text) = some second) : literals first ≠ literals second := by
  obtain ⟨before, c, after, rfl, whole, goes⟩ := exists_goesOn on
  obtain ⟨quote, content, mode, rfl, goesRead⟩ := step_of_goesOn goes
  have calm : Quiet Reader.start.mode (before ++ apostrophe :: after) :=
    ⟨by decide, quiet⟩
  have rest : Quiet (before.foldl step .start).mode (apostrophe :: after) := calm.foldl_append
  have onward := rest.step
  have string : (before.foldl step .start).mode.Stringy := stringy_foldl trivial
  rw [goesRead] at onward
  rw [mode] at string
  -- to the place where the string goes on, both readers read the same
  have together : (squeeze before).foldl step .start = (before.foldl step .start).squeezed :=
    foldl_squeeze (fun inside => quiet (inside.trans (List.prefix_append _ _).isInfix))
      (Bool.eq_false_iff.mp whole)
  have cut : step (before.foldl step .start).squeezed apostrophe =
      ⟨(before.foldl step .start).pieces.map Piece.squeezed ++
        [.literal (.quote quote) (squeeze content)], .quoted .single []⟩ := by
    rw [Reader.squeezed, mode]
    rfl
  have drifted : Drifted false (step (before.foldl step .start) apostrophe)
      (step (before.foldl step .start).squeezed apostrophe) := by
    rw [goesRead, cut]
    refine .dangling quote content ⟨string, .quoted, (absurd · Bool.false_ne_true), ?_⟩
    refine ⟨(literals (before.foldl step .start).pieces).map (Prod.map id squeeze), 0, ?_, ?_⟩
    · rw [literals_append, literals_squeezed]
      rfl
    · exact List.length_map _
  obtain ⟨last, apart⟩ := drifted.foldl after (by rw [goesRead]; exact onward)
  refine apart.literals_ne ?_ ?_
  · rw [← givenRead, pieces, List.foldl_append, List.foldl_cons]
  · rw [← typedRead, pieces, squeeze_append, List.foldl_append, together]
    rfl

variable {W : Type}

/-- The literal that a token is. -/
def Token.asLiteral : Token W → Option (Mark × Text)
  | .literal mark content => some (mark, content)
  | .word _ | .semicolon => none

theorem filterMap_tokens (words : Text → Option Mark → List W) (pieces : List Piece) :
    (pieces.flatMap (Piece.tokens words)).filterMap Token.asLiteral = literals pieces := by
  induction pieces with
  | nil => rfl
  | cons piece pieces ih =>
      rw [List.flatMap_cons, List.filterMap_append, ih]
      cases piece with
      | run text next =>
          have none : ((words text next).map Token.word).filterMap Token.asLiteral = [] := by
            simp [List.filterMap_map, Function.comp_def, Token.asLiteral]
          exact congrArg (· ++ literals pieces) none
      | literal | semicolon => rfl

/-- Squeezed, the text has tokens with other literals among them, if any at all. -/
theorem lex_squeeze_ne (words : Text → Option Mark → List W) {text : Text}
    (quiet : ¬ ['-', '-'] <:+: text) (on : Continues text) {first second : List (Token W)}
    (givenRead : lex words text = some first) (typedRead : lex words (squeeze text) = some second) :
    first.filterMap Token.asLiteral ≠ second.filterMap Token.asLiteral := by
  obtain ⟨givenPieces, givenPieced, rfl⟩ := Option.map_eq_some_iff.mp givenRead
  obtain ⟨typedPieces, typedPieced, rfl⟩ := Option.map_eq_some_iff.mp typedRead
  rw [filterMap_tokens, filterMap_tokens]
  exact literals_squeeze_ne quiet on givenPieced typedPieced

end Quackhole.Word.Sql
