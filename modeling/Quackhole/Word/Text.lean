import Quackhole.Word.Utf8
import Mathlib.Data.List.DropRight

/-!
# Text operations

The string operations a line-oriented protocol reader is written with: cutting
at a delimiter, trimming Unicode blanks, ordering, comparing without regard to
ASCII case, and reading and printing unsigned numbers.
-/

namespace Quackhole.Word

/-! ## Blanks -/

/-- The Unicode property `White_Space`. -/
def isWhitespace (c : Char) : Bool :=
  let v := c.toNat
  (0x09 ≤ v && v ≤ 0x0D) || v == 0x20 || v == 0x85 || v == 0xA0 || v == 0x1680 ||
    (0x2000 ≤ v && v ≤ 0x200A) || v == 0x2028 || v == 0x2029 || v == 0x202F || v == 0x205F ||
    v == 0x3000

/-- A text without blanks. -/
def Solid (text : Text) : Prop :=
  ∀ c ∈ text, ¬ isWhitespace c

instance (text : Text) : Decidable (Solid text) :=
  List.decidableBAll (fun c => ¬ isWhitespace c) text

/-- A text of blanks only. -/
def Blank (text : Text) : Prop :=
  ∀ c ∈ text, isWhitespace c

instance (text : Text) : Decidable (Blank text) :=
  List.decidableBAll (fun c => isWhitespace c) text

/-- Drop the blanks at both ends. -/
def trim (text : Text) : Text :=
  (text.dropWhile isWhitespace).rdropWhile isWhitespace

theorem mem_of_mem_trim {text : Text} {c : Char} (member : c ∈ trim text) : c ∈ text :=
  (List.dropWhile_suffix isWhitespace).subset
    ((List.rdropWhile_prefix isWhitespace _).subset member)

theorem dropWhile_eq_self_of_forall {p : Char → Bool} {text : Text} (none : ∀ c ∈ text, ¬ p c) :
    text.dropWhile p = text := by
  cases text with
  | nil => rfl
  | cons c text => simp [none c List.mem_cons_self]

theorem rdropWhile_eq_self_of_forall {p : Char → Bool} {text : Text} (none : ∀ c ∈ text, ¬ p c) :
    text.rdropWhile p = text := by
  rw [List.rdropWhile, dropWhile_eq_self_of_forall, List.reverse_reverse]
  exact fun c member => none c (List.mem_reverse.mp member)

/-- A text without blanks is not changed by trimming. -/
theorem trim_eq_self {text : Text} (solid : Solid text) : trim text = text := by
  rw [trim, dropWhile_eq_self_of_forall solid, rdropWhile_eq_self_of_forall solid]

theorem dropWhile_append_of_blank {blanks : Text} (blank : Blank blanks)
    (text : Text) : (blanks ++ text).dropWhile isWhitespace = text.dropWhile isWhitespace := by
  rw [List.dropWhile_append, List.dropWhile_eq_nil_iff.mpr blank]
  rfl

theorem rdropWhile_append_of_blank {blanks : Text} (blank : Blank blanks)
    (text : Text) : (text ++ blanks).rdropWhile isWhitespace = text.rdropWhile isWhitespace := by
  rw [List.rdropWhile, List.reverse_append, dropWhile_append_of_blank, List.rdropWhile]
  exact fun c member => blank c (List.mem_reverse.mp member)

/-- Blanks around a text are trimmed off with its own. -/
theorem trim_append_append {before after : Text} (blankBefore : Blank before)
    (blankAfter : Blank after) (text : Text) :
    trim (before ++ text ++ after) = trim text := by
  rw [trim, List.append_assoc, dropWhile_append_of_blank blankBefore, List.dropWhile_append]
  split
  · rename_i empty
    have blank : text.dropWhile isWhitespace = [] := by simpa using empty
    rw [List.dropWhile_eq_nil_iff.mpr blankAfter, trim, blank]
  · rw [rdropWhile_append_of_blank blankAfter, trim]

/-- A text is what trimming leaves with the blanks around it. -/
theorem exists_eq_trim (text : Text) :
    ∃ before after, text = before ++ trim text ++ after ∧ Blank before ∧ Blank after := by
  refine ⟨text.takeWhile isWhitespace, (text.dropWhile isWhitespace).rtakeWhile isWhitespace, ?_,
    fun c member => List.mem_takeWhile_imp member, fun c member => List.mem_rtakeWhile_imp member⟩
  have back : trim text ++ (text.dropWhile isWhitespace).rtakeWhile isWhitespace =
      text.dropWhile isWhitespace := by
    rw [trim, List.rdropWhile, List.rtakeWhile, ← List.reverse_append,
      List.takeWhile_append_dropWhile, List.reverse_reverse]
  rw [List.append_assoc, back, List.takeWhile_append_dropWhile]

theorem dropWhile_append_of_solid {text : Text} (nonempty : text ≠ []) (solid : Solid text)
    (before after : Text) :
    (before ++ (text ++ after)).dropWhile isWhitespace =
      before.dropWhile isWhitespace ++ (text ++ after) := by
  rw [List.dropWhile_append]
  split
  · rename_i empty
    have blank : before.dropWhile isWhitespace = [] := by simpa using empty
    cases text with
    | nil => exact absurd rfl nonempty
    | cons c text => simp [blank, solid c List.mem_cons_self]
  · rfl

theorem Solid.reverse {text : Text} (solid : Solid text) : Solid text.reverse :=
  fun c member => solid c (List.mem_reverse.mp member)

theorem Solid.append {first second : Text} (solid : Solid first) (also : Solid second) :
    Solid (first ++ second) := by
  intro c member
  rcases List.mem_append.mp member with front | back
  · exact solid c front
  · exact also c back

theorem Solid.cons {c : Char} {text : Text} (filled : ¬ isWhitespace c) (solid : Solid text) :
    Solid (c :: text) := by
  rintro d (_ | ⟨_, member⟩)
  · exact filled
  · exact solid d member

/-- A text without blanks stays when the text around it is trimmed. -/
theorem trim_append_of_solid {text : Text} (nonempty : text ≠ []) (solid : Solid text)
    (before after : Text) :
    trim (before ++ text ++ after) =
      before.dropWhile isWhitespace ++ text ++ after.rdropWhile isWhitespace := by
  rw [trim, List.append_assoc, dropWhile_append_of_solid nonempty solid, List.rdropWhile,
    List.reverse_append, List.reverse_append, List.append_assoc,
    dropWhile_append_of_solid (by simpa using nonempty) solid.reverse]
  simp [List.rdropWhile]

theorem trim_eq_nil_iff {text : Text} : trim text = [] ↔ Blank text := by
  rw [trim, List.rdropWhile_eq_nil_iff, Blank]
  constructor
  · intro blank
    rw [← List.dropWhile_eq_nil_iff] at blank ⊢
    rwa [List.dropWhile_idempotent] at blank
  · intro blank
    simp [List.dropWhile_eq_nil_iff.mpr blank]

/-- Trimming a second time changes nothing. -/
theorem trim_trim (text : Text) : trim (trim text) = trim text := by
  have front : (trim text).dropWhile isWhitespace = trim text := by
    cases shape : trim text with
    | nil => rfl
    | cons c rest =>
        have isPrefix : c :: rest <+: text.dropWhile isWhitespace := by
          rw [← shape]
          exact List.rdropWhile_prefix isWhitespace _
        rcases isPrefix with ⟨cut, whole⟩
        have again := List.dropWhile_idempotent (p := isWhitespace) (l := text)
        rw [← whole] at again
        have filled : ¬ isWhitespace c := by
          intro blank
          rw [List.cons_append, List.dropWhile_cons_of_pos blank] at again
          have shorter := (List.dropWhile_suffix isWhitespace (l := rest ++ cut)).length_le
          rw [again, List.length_cons] at shorter
          omega
        exact List.dropWhile_cons_of_neg filled
  rw [trim, front, trim, List.rdropWhile_idempotent]

/-! ## Order -/

/-- Texts in the order of their code points, a prefix first. -/
def precedes : Text → Text → Bool
  | [], _ => true
  | _ :: _, [] => false
  | c :: text, d :: other => if c = d then precedes text other else c.toNat < d.toNat

/-! ## Letter case -/

/-- ASCII lower case; other characters are unchanged. -/
def asciiLower (text : Text) : Text :=
  text.map Char.toLower

/-- ASCII upper case; other characters are unchanged. -/
def asciiUpper (text : Text) : Text :=
  text.map Char.toUpper

/-- Equality up to ASCII letter case. -/
def eqIgnoreAsciiCase (first second : Text) : Bool :=
  asciiLower first == asciiLower second

theorem eqIgnoreAsciiCase_iff {first second : Text} :
    eqIgnoreAsciiCase first second = true ↔ asciiLower first = asciiLower second := by
  simp [eqIgnoreAsciiCase]

theorem toNat_toLower (c : Char) :
    c.toLower.toNat = if 65 ≤ c.toNat ∧ c.toNat ≤ 90 then c.toNat + 32 else c.toNat := by
  delta Char.toLower
  split
  · rename_i upper
    have range : 65 ≤ c.toNat ∧ c.toNat ≤ 90 := by
      simpa [UInt32.le_iff_toNat_le] using upper
    have same : c.val.toNat = c.toNat := rfl
    rw [if_pos range]
    simp only [Char.toNat, UInt32.toNat_add]
    simp
    omega
  · rename_i other
    have range : ¬ (65 ≤ c.toNat ∧ c.toNat ≤ 90) := by
      simpa [UInt32.le_iff_toNat_le] using other
    rw [if_neg range]

theorem toLower_eq_self {c : Char} (noCapital : ¬ (65 ≤ c.toNat ∧ c.toNat ≤ 90)) :
    c.toLower = c := by
  apply Char.toNat_inj.mp
  rw [toNat_toLower, if_neg noCapital]

/-- Only an upper-case letter is made another character, a lower-case letter. -/
theorem eq_of_toLower {c d : Char} (noLetter : ¬ (97 ≤ d.toNat ∧ d.toNat ≤ 122))
    (lowered : c.toLower = d) : c = d := by
  apply Char.toNat_inj.mp
  have numbers := congrArg Char.toNat lowered
  rw [toNat_toLower] at numbers
  split_ifs at numbers <;> omega

/-- A character that has no other case is in a text as it is in its lower case. -/
theorem mem_asciiLower {text : Text} {c : Char} (fixed : c.toLower = c) (member : c ∈ text) :
    c ∈ asciiLower text :=
  List.mem_map.mpr ⟨c, member, fixed⟩

theorem toNat_toUpper (c : Char) :
    c.toUpper.toNat = if 97 ≤ c.toNat ∧ c.toNat ≤ 122 then c.toNat - 32 else c.toNat := by
  delta Char.toUpper
  split
  · rename_i lower
    have range : 97 ≤ c.toNat ∧ c.toNat ≤ 122 := by
      simpa [UInt32.le_iff_toNat_le] using lower
    have same : c.val.toNat = c.toNat := rfl
    rw [if_pos range]
    simp only [Char.toNat, UInt32.toNat_add]
    simp
    omega
  · rename_i other
    have range : ¬ (97 ≤ c.toNat ∧ c.toNat ≤ 122) := by
      simpa [UInt32.le_iff_toNat_le] using other
    rw [if_neg range]

theorem toUpper_toLower (c : Char) : c.toLower.toUpper = c.toUpper := by
  apply Char.toNat_inj.mp
  rw [toNat_toUpper, toNat_toUpper, toNat_toLower]
  split_ifs <;> omega

theorem asciiUpper_asciiLower (text : Text) : asciiUpper (asciiLower text) = asciiUpper text := by
  rw [asciiUpper, asciiLower, List.map_map]
  exact List.map_congr_left fun c _ => toUpper_toLower c

/-- Any spelling of an upper-case text has that text as its upper case. -/
theorem asciiUpper_of_eqIgnoreAsciiCase {text upper : Text}
    (same : eqIgnoreAsciiCase text upper = true) (isUpper : asciiUpper upper = upper) :
    asciiUpper text = upper := by
  rw [← asciiUpper_asciiLower, eqIgnoreAsciiCase_iff.mp same, asciiUpper_asciiLower, isUpper]

/-- A text has no blank in it when its lower case has none. -/
theorem solid_of_eqIgnoreAsciiCase {text lower : Text}
    (same : eqIgnoreAsciiCase text lower = true) (solid : Solid (asciiLower lower)) :
    Solid text := by
  intro c member blank
  have fixed : c.toLower = c := by
    apply toLower_eq_self
    simp only [isWhitespace, Bool.or_eq_true, Bool.and_eq_true, beq_iff_eq,
      decide_eq_true_eq] at blank
    omega
  have lowered := mem_asciiLower fixed member
  rw [eqIgnoreAsciiCase_iff.mp same] at lowered
  exact solid c lowered blank

theorem Solid.asciiLower {text : Text} (solid : Solid text) : Solid (asciiLower text) := by
  intro c member blank
  rcases List.mem_map.mp member with ⟨upper, inside, rfl⟩
  by_cases range : 65 ≤ upper.toNat ∧ upper.toNat ≤ 90
  · simp only [isWhitespace, toNat_toLower, if_pos range, Bool.or_eq_true, Bool.and_eq_true,
      beq_iff_eq, decide_eq_true_eq] at blank
    omega
  · rw [toLower_eq_self range] at blank
    exact solid upper inside blank

/-! ## Cutting at a delimiter -/

/-- The texts before and after the first occurrence of the delimiter. -/
def splitOnce (delimiter : Char) (text : Text) : Option (Text × Text) :=
  if delimiter ∈ text then
    some (text.takeWhile (· ≠ delimiter), (text.dropWhile (· ≠ delimiter)).tail)
  else none

/-- What stands before the first occurrence of the delimiter, or everything. -/
def beforeFirst (delimiter : Char) (text : Text) : Text :=
  text.takeWhile (· ≠ delimiter)

theorem splitOnce_append {delimiter : Char} {first : Text} (absent : delimiter ∉ first)
    (second : Text) : splitOnce delimiter (first ++ delimiter :: second) = some (first, second) := by
  have keep : ∀ c ∈ first, decide (c ≠ delimiter) = true := fun c member =>
    decide_eq_true fun equal => absent (equal ▸ member)
  simp only [splitOnce, List.mem_append, List.mem_cons, true_or, or_true, if_true]
  rw [List.takeWhile_append_of_pos keep, List.dropWhile_append_of_pos keep]
  simp

/-- The delimiter that ends a text may be the second of its line: the first one
is then already in the text before it. -/
theorem splitOnce_append_fst (delimiter : Char) (first second : Text) :
    (splitOnce delimiter (first ++ delimiter :: second)).map Prod.fst =
      some (beforeFirst delimiter first) := by
  induction first with
  | nil => simp [splitOnce, beforeFirst]
  | cons c first ih =>
      by_cases stops : c = delimiter
      · subst stops
        simp [splitOnce, beforeFirst]
      · have rest := ih
        simp only [splitOnce, List.mem_append, List.mem_cons, true_or, or_true, if_true,
          Option.map_some, Option.some.injEq, List.cons_append] at rest ⊢
        simp only [beforeFirst] at rest ⊢
        rw [List.takeWhile_cons_of_pos (by simpa using stops), rest,
          List.takeWhile_cons_of_pos (by simpa using stops)]

/-- What is in front of the first delimiter is all there is, or is followed by one. -/
theorem beforeFirst_append {delimiter : Char} {first : Text} (absent : delimiter ∉ first)
    {rest : Text} (follows : ∀ c ∈ rest.head?, c = delimiter) :
    beforeFirst delimiter (first ++ rest) = first := by
  have keep : ∀ c ∈ first, decide (c ≠ delimiter) = true := fun c member =>
    decide_eq_true fun equal => absent (equal ▸ member)
  rw [beforeFirst, List.takeWhile_append_of_pos keep]
  cases rest with
  | nil => simp
  | cons c rest => simp [follows c rfl]

theorem beforeFirst_eq_self {delimiter : Char} {text : Text} (absent : delimiter ∉ text) :
    beforeFirst delimiter text = text := by
  rw [beforeFirst, List.takeWhile_eq_self_iff]
  exact fun c member => decide_eq_true fun equal => absent (equal ▸ member)

/-! ## Unsigned numbers -/

/-- The value of a digit in the given radix, letters in either case. -/
def toDigit (radix : Nat) (c : Char) : Option Nat :=
  let v := c.toNat
  let value :=
    if 0x30 ≤ v ∧ v ≤ 0x39 then some (v - 0x30)
    else if 0x61 ≤ v ∧ v ≤ 0x7A then some (v - 0x61 + 10)
    else if 0x41 ≤ v ∧ v ≤ 0x5A then some (v - 0x41 + 10)
    else none
  value.filter (· < radix)

/-- Read digits onto an accumulated value. -/
def digitsValue (radix : Nat) : Nat → Text → Option Nat
  | value, [] => some value
  | value, c :: text => (toDigit radix c).bind fun digit =>
      digitsValue radix (value * radix + digit) text

/-- Read an unsigned number below the limit: an optional plus sign, then at
least one digit and nothing else.  A value that leaves the range while it is
accumulated never comes back, so the range is checked once, at the end. -/
def parseUnsigned (radix limit : Nat) (text : Text) : Option Nat :=
  let digits := match text with
    | '+' :: rest => rest
    | _ => text
  if digits = [] then none else (digitsValue radix 0 digits).filter (· < limit)

/-- The decimal digits of a number. -/
def decimal (n : Nat) : Text :=
  Nat.toDigits 10 n

theorem digitsValue_append (radix value : Nat) (first second : Text) :
    digitsValue radix value (first ++ second) =
      (digitsValue radix value first).bind fun middle => digitsValue radix middle second := by
  induction first generalizing value with
  | nil => rfl
  | cons c first ih =>
      cases digit : toDigit radix c with
      | none => simp [digitsValue, digit]
      | some d => simp [digitsValue, digit, ih]

theorem toDigit_eq_some_iff {radix d : Nat} {c : Char} :
    toDigit radix c = some d ↔ toDigit 36 c = some d ∧ d < radix := by
  simp only [toDigit, Option.filter_eq_some_iff, decide_eq_true_eq, and_assoc]
  refine and_congr_right fun value => ⟨fun small => ⟨?_, small⟩, fun both => both.2⟩
  split_ifs at value <;> simp only [Option.some.injEq] at value <;> omega

theorem toDigit_digitChar {radix d : Nat} (small : d < radix) (letters : radix ≤ 16) :
    toDigit radix (Nat.digitChar d) = some d := by
  have table : ∀ d < 16, toDigit 36 (Nat.digitChar d) = some d := by decide
  exact toDigit_eq_some_iff.mpr ⟨table d (Nat.lt_of_lt_of_le small letters), small⟩

/-- A digit is read in either case. -/
theorem toDigit_toLower (radix : Nat) (c : Char) : toDigit radix c.toLower = toDigit radix c := by
  simp only [toDigit, toNat_toLower]
  generalize c.toNat = v
  congr 1
  by_cases upper : 65 ≤ v ∧ v ≤ 90
  · have lower : 97 ≤ v + 32 ∧ v + 32 ≤ 122 := by omega
    have nowhere : ¬ (48 ≤ v + 32 ∧ v + 32 ≤ 57) ∧ ¬ (48 ≤ v ∧ v ≤ 57) ∧
        ¬ (97 ≤ v ∧ v ≤ 122) := by omega
    simp only [if_pos upper, if_pos lower, if_neg nowhere.1, if_neg nowhere.2.1,
      if_neg nowhere.2.2]
    exact congrArg some (by omega)
  · simp only [if_neg upper]

theorem digitsValue_asciiLower (radix value : Nat) (text : Text) :
    digitsValue radix value (asciiLower text) = digitsValue radix value text := by
  induction text generalizing value with
  | nil => rfl
  | cons c text ih =>
      simp only [asciiLower, List.map_cons, digitsValue, toDigit_toLower]
      exact congrArg _ (funext fun digit => ih _)

/-- Printing and reading a number in the same radix are inverse. -/
theorem digitsValue_toDigits {radix : Nat} (large : 1 < radix) (letters : radix ≤ 16) (n : Nat) :
    digitsValue radix 0 (Nat.toDigits radix n) = some n := by
  induction n using Nat.strongRecOn with
  | ind n ih =>
      rw [Nat.toDigits_eq_if large]
      split
      · rename_i small
        simp [digitsValue, toDigit_digitChar small letters]
      · rename_i more
        have positive : 0 < radix := by omega
        have rest := ih (n / radix) (Nat.div_lt_self (by omega) large)
        rw [digitsValue_append, rest, Option.bind_some]
        simp only [digitsValue, toDigit_digitChar (Nat.mod_lt n positive) letters,
          Option.bind_some, Option.some.injEq]
        exact Nat.div_add_mod' n radix

theorem digitsValue_decimal (n : Nat) : digitsValue 10 0 (decimal n) = some n :=
  digitsValue_toDigits (by omega) (by omega) n

/-- Zeros in front of a number do not change it. -/
theorem digitsValue_zeros {radix : Nat} (positive : 0 < radix) (zeros : Nat) (text : Text) :
    digitsValue radix 0 (List.replicate zeros '0' ++ text) = digitsValue radix 0 text := by
  have digit : toDigit radix '0' = some 0 :=
    toDigit_eq_some_iff.mpr ⟨by decide, positive⟩
  induction zeros with
  | zero => rfl
  | succ zeros ih =>
      rw [List.replicate_succ, List.cons_append, digitsValue, digit, Option.bind_some,
        Nat.zero_mul]
      exact ih

/-- What reads as a number is made of digits. -/
theorem exists_toDigit_of_digitsValue {radix value n : Nat} {text : Text}
    (read : digitsValue radix value text = some n) :
    ∀ c ∈ text, ∃ d, toDigit radix c = some d := by
  induction text generalizing value with
  | nil => simp
  | cons c text ih =>
      rcases Option.bind_eq_some_iff.mp read with ⟨d, digit, rest⟩
      rintro other member
      rcases List.mem_cons.mp member with rfl | later
      · exact ⟨d, digit⟩
      · exact ih rest other later

theorem not_isWhitespace_of_toDigit {radix d : Nat} {c : Char} (digit : toDigit radix c = some d) :
    ¬ isWhitespace c := by
  intro blank
  simp only [isWhitespace, Bool.or_eq_true, Bool.and_eq_true, beq_iff_eq,
    decide_eq_true_eq] at blank
  have value := (Option.filter_eq_some_iff.mp digit).1
  split_ifs at value <;> omega

/-- A text of digits is read as its value, if that is below the limit. -/
theorem parseUnsigned_of_digits {radix n : Nat} {text : Text} (nonempty : text ≠ [])
    (read : digitsValue radix 0 text = some n) (limit : Nat) :
    parseUnsigned radix limit text = if n < limit then some n else none := by
  have unsigned : ∀ rest, text ≠ '+' :: rest := by
    rintro rest rfl
    rcases exists_toDigit_of_digitsValue read '+' List.mem_cons_self with ⟨d, digit⟩
    exact absurd (toDigit_eq_some_iff.mp digit).1 (by simp [toDigit])
  simp only [parseUnsigned]
  rw [if_neg nonempty, read, Option.filter_some]
  simp

theorem parseUnsigned_eq_some {radix limit n : Nat} {text : Text} (nonempty : text ≠ [])
    (read : digitsValue radix 0 text = some n) (small : n < limit) :
    parseUnsigned radix limit text = some n := by
  rw [parseUnsigned_of_digits nonempty read, if_pos small]

/-- What is read as a number and has no sign is made of digits. -/
theorem digitsValue_of_parseUnsigned {radix limit n : Nat} {text : Text}
    (unsigned : ∀ rest, text ≠ '+' :: rest) (read : parseUnsigned radix limit text = some n) :
    text ≠ [] ∧ digitsValue radix 0 text = some n := by
  simp only [parseUnsigned] at read
  split at read
  · cases read
  · rename_i nonempty
    exact ⟨nonempty, (Option.filter_eq_some_iff.mp read).1⟩

theorem parseUnsigned_decimal {limit n : Nat} (small : n < limit) :
    parseUnsigned 10 limit (decimal n) = some n :=
  parseUnsigned_eq_some Nat.toDigits_ne_nil (digitsValue_decimal n) small

theorem isDigit_of_mem_decimal {n : Nat} {c : Char} (member : c ∈ decimal n) : c.isDigit :=
  Nat.isDigit_of_mem_toDigits (by omega) (by omega) member

theorem solid_decimal (n : Nat) : Solid (decimal n) := by
  intro c member blank
  have digit := isDigit_of_mem_decimal member
  simp only [isWhitespace, Char.isDigit, Bool.or_eq_true, Bool.and_eq_true, beq_iff_eq,
    decide_eq_true_eq, ge_iff_le, UInt32.le_iff_toNat_le] at digit blank
  have zero : '0'.val.toNat = 48 := rfl
  have nine : '9'.val.toNat = 57 := rfl
  simp only [Char.toNat] at blank
  omega

theorem decimal_ne_nil (n : Nat) : decimal n ≠ [] :=
  Nat.toDigits_ne_nil

/-! ## Text for a reader -/

/-- A character as `{:?}` writes it.  Past ASCII it is for the Unicode tables to say which
characters are written as numbers: those that are not printable, and those that extend the
grapheme before them. -/
def escapeDebug (hidden : Char → Bool) (c : Char) : Text :=
  if c = '\x00' then "\\0".toList
  else if c = '\t' then "\\t".toList
  else if c = '\r' then "\\r".toList
  else if c = '\n' then "\\n".toList
  else if c = '"' ∨ c = '\\' then ['\\', c]
  else if c.toNat < 0x20 ∨ c.toNat = 0x7F ∨ (0x80 ≤ c.toNat ∧ hidden c) then
    "\\u\x7b".toList ++ Nat.toDigits 16 c.toNat ++ "\x7d".toList
  else [c]

/-- A text as `{:?}` writes it. -/
def debug (hidden : Char → Bool) (text : Text) : Text :=
  '"' :: text.flatMap (escapeDebug hidden) ++ ['"']

end Quackhole.Word
