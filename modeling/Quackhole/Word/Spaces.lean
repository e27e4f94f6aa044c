import Quackhole.Word.Utf8
import Quackhole.Word.Search
import Mathlib.Data.List.DropRight

/-!
# White space as JavaScript has it

`text.replace(/\s+/g, ' ')` and `text.trim()`.  Squeezing goes over a text from
the left and only has to remember whether the last character was white space, so
it can be followed beside any other machine that reads the text.
-/

namespace Quackhole.Word

/-- `\s`, which is also what `trim` takes off. -/
def isSpace (c : Char) : Bool :=
  let v := c.toNat
  (0x09 ≤ v && v ≤ 0x0D) || v == 0x20 || v == 0xA0 || v == 0x1680 ||
    (0x2000 ≤ v && v ≤ 0x200A) || v == 0x2028 || v == 0x2029 || v == 0x202F || v == 0x205F ||
    v == 0x3000 || v == 0xFEFF

theorem not_isSpace_of_isDigit {c : Char} (digit : c.isDigit = true) : ¬ isSpace c = true := by
  intro space
  simp only [isSpace, Char.isDigit, Bool.or_eq_true, Bool.and_eq_true, beq_iff_eq,
    decide_eq_true_eq, ge_iff_le, UInt32.le_iff_toNat_le] at digit space
  have zero : '0'.val.toNat = 48 := rfl
  have nine : '9'.val.toNat = 57 := rfl
  have value : c.toNat = c.val.toNat := rfl
  omega

theorem ne_of_isSpace {c d : Char} (space : isSpace c = true) (filled : isSpace d = false) :
    c ≠ d := by
  rintro rfl
  exact Bool.noConfusion (space.symm.trans filled)

/-! ## Squeezing -/

/-- Squeeze what follows a character that was white space or not. -/
def squeezeAfter : Bool → Text → Text
  | _, [] => []
  | white, c :: rest =>
      if isSpace c then
        if white then squeezeAfter true rest else ' ' :: squeezeAfter true rest
      else c :: squeezeAfter false rest

/-- `text.replace(/\s+/g, ' ')`. -/
def squeeze (text : Text) : Text :=
  squeezeAfter false text

/-- Whether the last character is white space, where `white` says it of the one in
front of the text. -/
def endsWhite (white : Bool) (text : Text) : Bool :=
  (text.getLast?.map isSpace).getD white

@[simp]
theorem squeeze_nil : squeeze [] = [] :=
  rfl

theorem endsWhite_cons (white : Bool) (c : Char) (text : Text) :
    endsWhite white (c :: text) = endsWhite (isSpace c) text := by
  cases text <;> rfl

theorem endsWhite_append_singleton (white : Bool) (text : Text) (c : Char) :
    endsWhite white (text ++ [c]) = isSpace c := by
  rw [endsWhite, List.getLast?_concat]
  rfl

theorem squeezeAfter_append (white : Bool) (first second : Text) :
    squeezeAfter white (first ++ second) =
      squeezeAfter white first ++ squeezeAfter (endsWhite white first) second := by
  induction first generalizing white with
  | nil => rfl
  | cons c first ih =>
      rw [endsWhite_cons, List.cons_append, squeezeAfter, squeezeAfter]
      cases space : isSpace c with
      | false => simp [ih]
      | true => cases white <;> simp [ih]

theorem squeeze_append (first second : Text) :
    squeeze (first ++ second) = squeeze first ++ squeezeAfter (endsWhite false first) second :=
  squeezeAfter_append false first second

/-- Other characters stay as they are. -/
theorem squeeze_concat_filled {c : Char} (filled : isSpace c = false) (text : Text) :
    squeeze (text ++ [c]) = squeeze text ++ [c] := by
  simp [squeeze_append, squeezeAfter, filled]

/-- The first of a run of white space becomes a space. -/
theorem squeeze_concat_space {c : Char} {text : Text} (space : isSpace c = true)
    (filled : endsWhite false text = false) : squeeze (text ++ [c]) = squeeze text ++ [' '] := by
  simp [squeeze_append, squeezeAfter, space, filled]

/-- The rest of the run is dropped. -/
theorem squeeze_concat_again {c : Char} {text : Text} (space : isSpace c = true)
    (white : endsWhite false text = true) : squeeze (text ++ [c]) = squeeze text := by
  simp [squeeze_append, squeezeAfter, space, white]

/-- Squeezing brings no two characters together. -/
theorem infix_squeeze {c d : Char} (filled : isSpace c = false) (also : isSpace d = false)
    {text : Text} (inside : [c, d] <:+: text) : [c, d] <:+: squeeze text := by
  rcases inside with ⟨before, after, rfl⟩
  refine ⟨squeeze before, squeezeAfter false after, ?_⟩
  simp [squeeze_append, squeezeAfter, filled, also]

/-! ## Trimming -/

/-- `text.trim()`. -/
def trimSpace (text : Text) : Text :=
  (text.dropWhile isSpace).rdropWhile isSpace

/-- A text is its trimmed text with white space around it. -/
theorem exists_eq_trimSpace (text : Text) :
    ∃ before after, (∀ c ∈ before, isSpace c = true) ∧ (∀ c ∈ after, isSpace c = true) ∧
      text = before ++ trimSpace text ++ after := by
  refine ⟨text.takeWhile isSpace, (text.dropWhile isSpace).rtakeWhile isSpace,
    fun c => List.mem_takeWhile_imp, fun c => List.mem_rtakeWhile_imp, ?_⟩
  rw [trimSpace, List.append_assoc, List.rdropWhile_append_rtakeWhile,
    List.takeWhile_append_dropWhile]

/-- Trimming takes no pair of other characters off. -/
theorem infix_trimSpace {c d : Char} (filled : isSpace c = false) (also : isSpace d = false)
    {text : Text} (inside : [c, d] <:+: text) : [c, d] <:+: trimSpace text := by
  obtain ⟨before, after, blankBefore, blankAfter, whole⟩ := exists_eq_trimSpace text
  have absent {e : Char} (solid : isSpace e = false) {blanks : Text}
      (blank : ∀ c ∈ blanks, isSpace c = true) : e ∉ blanks := fun member =>
    ne_of_isSpace (blank e member) solid rfl
  rw [whole] at inside
  exact infix_pair_of_append_left (absent filled blankBefore)
    (infix_pair_of_append (absent also blankAfter) inside)

end Quackhole.Word
