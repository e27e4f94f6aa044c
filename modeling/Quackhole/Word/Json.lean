import Quackhole.Word.Text
import Mathlib.Tactic.SplitIfs

/-!
# JSON texts

Writing a value the way `JSON.stringify` does and reading a text the way
`JSON.parse` does.  A number is kept as it is written.  The reader is bounded by
fuel, of which the length of the text is enough; the rules at the end say that
what was written reads back, one constructor at a time.
-/

namespace Quackhole.Word

/-- A JSON value. -/
inductive Json where
  | null
  | bool (value : Bool)
  | number (literal : Text)
  | string (text : Text)
  | array (items : List Json)
  | object (members : List (Text × Json))

namespace Json

/-! ## Values -/

/-- The value of a property, which is absent from everything but an object. -/
def property (key : Text) : Json → Option Json
  | object members => members.lookup key
  | _ => none

/-- What a condition makes of a value. -/
def truthy : Json → Bool
  | null => false
  | bool value => value
  | number literal =>
      let mantissa := literal.takeWhile fun c => c != 'e' && c != 'E'
      mantissa.any fun c => c.isDigit && c != '0'
  | string text => !text.isEmpty
  | array _ => true
  | object _ => true

/-- Assign a property: an old value is replaced where it stands. -/
def assign (key : Text) (value : Json) : List (Text × Json) → List (Text × Json)
  | [] => [(key, value)]
  | (other, old) :: members =>
      if other = key then (key, value) :: members else (other, old) :: assign key value members

/-- Assign properties in order. -/
def assignAll (members : List (Text × Json)) : List (Text × Json) :=
  members.foldl (fun earlier member => assign member.1 member.2 earlier) []

theorem assign_of_absent {key : Text} {members : List (Text × Json)}
    (absent : key ∉ members.map Prod.fst) (value : Json) :
    assign key value members = members ++ [(key, value)] := by
  induction members with
  | nil => rfl
  | cons member members ih =>
      rw [List.map_cons, List.mem_cons, not_or] at absent
      rw [assign, if_neg fun equal => absent.1 equal.symm, ih absent.2, List.cons_append]

/-- Properties with different names are all kept, in order. -/
theorem assignAll_of_nodup {members : List (Text × Json)}
    (distinct : (members.map Prod.fst).Nodup) : assignAll members = members := by
  have general : ∀ earlier : List (Text × Json),
      ((earlier ++ members).map Prod.fst).Nodup →
        members.foldl (fun earlier member => assign member.1 member.2 earlier) earlier =
          earlier ++ members := by
    clear distinct
    induction members with
    | nil => simp
    | cons member members ih =>
        intro earlier distinct
        have absent : member.1 ∉ earlier.map Prod.fst := by
          rw [List.map_append, List.nodup_append] at distinct
          exact fun early => distinct.2.2 _ early _ (by simp) rfl
        have moved : earlier ++ member :: members = earlier ++ [member] ++ members := by simp
        rw [List.foldl_cons, assign_of_absent absent, moved]
        rw [moved] at distinct
        exact ih _ distinct
  exact general [] distinct

/-! ## Writing -/

/-- A digit of a hexadecimal escape. -/
def hexDigit (n : Nat) : Char :=
  Nat.digitChar n

/-- How a character stands in a string. -/
def escape (c : Char) : Text :=
  if c = '"' then ['\\', '"']
  else if c = '\\' then ['\\', '\\']
  else if c = Char.ofNat 8 then ['\\', 'b']
  else if c = '\t' then ['\\', 't']
  else if c = '\n' then ['\\', 'n']
  else if c = Char.ofNat 12 then ['\\', 'f']
  else if c = '\r' then ['\\', 'r']
  else if c.toNat < 32 then
    ['\\', 'u', '0', '0', hexDigit (c.toNat / 16), hexDigit (c.toNat % 16)]
  else [c]

/-- A string in its quotes. -/
def quote (text : Text) : Text :=
  '"' :: (text.flatMap escape ++ ['"'])

mutual

/-- `JSON.stringify`. -/
def stringify : Json → Text
  | null => "null".toList
  | bool true => "true".toList
  | bool false => "false".toList
  | number literal => literal
  | string text => quote text
  | array [] => ['[', ']']
  | array (item :: items) => '[' :: (stringify item ++ stringifyItems items)
  | object [] => ['{', '}']
  | object ((key, value) :: members) =>
      '{' :: (quote key ++ ':' :: (stringify value ++ stringifyMembers members))

/-- The items after the first, and the bracket. -/
def stringifyItems : List Json → Text
  | [] => [']']
  | item :: items => ',' :: (stringify item ++ stringifyItems items)

/-- The members after the first, and the brace. -/
def stringifyMembers : List (Text × Json) → Text
  | [] => ['}']
  | (key, value) :: members =>
      ',' :: (quote key ++ ':' :: (stringify value ++ stringifyMembers members))

end

/-! ## Reading -/

/-- The white space between tokens. -/
def isBlank (c : Char) : Bool :=
  c = ' ' || c = '\t' || c = '\n' || c = '\r'

def skipBlank (text : Text) : Text :=
  text.dropWhile isBlank

/-- Four hexadecimal digits. -/
def readHex : Text → Option (Nat × Text)
  | a :: b :: c :: d :: rest => (digitsValue 16 0 [a, b, c, d]).map (·, rest)
  | _ => none

/-- What follows a reverse solidus and a `u`.  A surrogate that is not half of a
pair has no character and is replaced. -/
def readUnicode (text : Text) : Option (Char × Text) :=
  match readHex text with
  | none => none
  | some (high, rest) =>
      if 0xD800 ≤ high ∧ high < 0xDC00 then
        match rest with
        | '\\' :: 'u' :: next =>
            match readHex next with
            | none => none
            | some (low, after) =>
                if 0xDC00 ≤ low ∧ low < 0xE000 then
                  some (Char.ofNat (0x10000 + (high - 0xD800) * 0x400 + (low - 0xDC00)), after)
                else some (replacement, rest)
        | _ => some (replacement, rest)
      else if 0xDC00 ≤ high ∧ high < 0xE000 then some (replacement, rest)
      else some (Char.ofNat high, rest)

/-- What follows a reverse solidus. -/
def readEscape : Text → Option (Char × Text)
  | '"' :: rest => some ('"', rest)
  | '\\' :: rest => some ('\\', rest)
  | '/' :: rest => some ('/', rest)
  | 'b' :: rest => some (Char.ofNat 8, rest)
  | 'f' :: rest => some (Char.ofNat 12, rest)
  | 'n' :: rest => some ('\n', rest)
  | 'r' :: rest => some ('\r', rest)
  | 't' :: rest => some ('\t', rest)
  | 'u' :: rest => readUnicode rest
  | _ => none

/-- The first character of what stands in a string. -/
def readChar : Text → Option (Char × Text)
  | [] => none
  | c :: rest =>
      if c = '\\' then readEscape rest else if c.toNat < 32 then none else some (c, rest)

/-- What follows an opening quote, up to the closing one. -/
def readString : Nat → Text → Option (Text × Text)
  | 0, _ => none
  | _ + 1, '"' :: rest => some ([], rest)
  | fuel + 1, text =>
      match readChar text with
      | none => none
      | some (c, rest) => (readString fuel rest).map fun (text, after) => (c :: text, after)

/-- A character that can stand in a number. -/
def isNumberChar (c : Char) : Bool :=
  c.isDigit || c = '-' || c = '+' || c = '.' || c = 'e' || c = 'E'

/-- One digit at least, and nothing else. -/
def isDigits (text : Text) : Bool :=
  !text.isEmpty && text.all Char.isDigit

/-- The text after the integer part of a number is nothing, a fraction, an
exponent, or both. -/
def isFraction (text : Text) : Bool :=
  let exponent : Text → Bool
    | [] => true
    | 'e' :: '+' :: digits | 'e' :: '-' :: digits | 'E' :: '+' :: digits
    | 'E' :: '-' :: digits | 'e' :: digits | 'E' :: digits => isDigits digits
    | _ => false
  match text with
  | '.' :: rest => isDigits (rest.takeWhile Char.isDigit) && exponent (rest.dropWhile Char.isDigit)
  | rest => exponent rest

/-- A number without its sign. -/
def isUnsigned : Text → Bool
  | '0' :: rest => isFraction rest
  | text => isDigits (text.takeWhile Char.isDigit) && isFraction (text.dropWhile Char.isDigit)

/-- A number as JSON writes it. -/
def isNumber : Text → Bool
  | '-' :: rest => isUnsigned rest
  | text => isUnsigned text

def readNumber (text : Text) : Option (Json × Text) :=
  let literal := text.takeWhile isNumberChar
  if isNumber literal then some (number literal, text.dropWhile isNumberChar) else none

mutual

/-- One value, and what follows it. -/
def readValue : Nat → Text → Option (Json × Text)
  | 0, _ => none
  | fuel + 1, text =>
      match skipBlank text with
      | 'n' :: 'u' :: 'l' :: 'l' :: rest => some (null, rest)
      | 't' :: 'r' :: 'u' :: 'e' :: rest => some (bool true, rest)
      | 'f' :: 'a' :: 'l' :: 's' :: 'e' :: rest => some (bool false, rest)
      | '"' :: rest => (readString (rest.length + 1) rest).map fun (s, after) => (string s, after)
      | '[' :: rest =>
          match skipBlank rest with
          | ']' :: after => some (array [], after)
          | _ => (readItems fuel rest).map fun (items, after) => (array items, after)
      | '{' :: rest =>
          match skipBlank rest with
          | '}' :: after => some (object [], after)
          | _ => (readMembers fuel rest).map fun (members, after) =>
              (object (assignAll members), after)
      | other => readNumber other

/-- The items up to the bracket, of which there is one. -/
def readItems : Nat → Text → Option (List Json × Text)
  | 0, _ => none
  | fuel + 1, text =>
      match readValue fuel text with
      | none => none
      | some (item, rest) =>
          match skipBlank rest with
          | ',' :: after => (readItems fuel after).map fun (items, after) => (item :: items, after)
          | ']' :: after => some ([item], after)
          | _ => none

/-- The members up to the brace, of which there is one. -/
def readMembers : Nat → Text → Option (List (Text × Json) × Text)
  | 0, _ => none
  | fuel + 1, text =>
      match skipBlank text with
      | '"' :: rest =>
          match readString (rest.length + 1) rest with
          | none => none
          | some (key, rest) =>
              match skipBlank rest with
              | ':' :: rest =>
                  match readValue fuel rest with
                  | none => none
                  | some (value, rest) =>
                      match skipBlank rest with
                      | ',' :: after => (readMembers fuel after).map fun (members, after) =>
                          ((key, value) :: members, after)
                      | '}' :: after => some ([(key, value)], after)
                      | _ => none
              | _ => none
      | _ => none

end

/-- `JSON.parse`, where a text that is no JSON raises. -/
def parse (text : Text) : Option Json :=
  match readValue (text.length + 1) text with
  | none => none
  | some (value, rest) => if skipBlank rest = [] then some value else none

/-! ## What was written reads back -/

theorem readEscape_control {c : Char} (control : c.toNat < 32) (rest : Text) :
    readEscape ('u' :: '0' :: '0' :: hexDigit (c.toNat / 16) :: hexDigit (c.toNat % 16) :: rest) =
      some (c, rest) := by
  have digits : ∀ v < 32, digitsValue 16 0 ['0', '0', hexDigit (v / 16), hexDigit (v % 16)] =
      some v := by decide
  have low : ¬ (0xD800 ≤ c.toNat ∧ c.toNat < 0xDC00) := by omega
  have high : ¬ (0xDC00 ≤ c.toNat ∧ c.toNat < 0xE000) := by omega
  simp only [readEscape, readUnicode, readHex, digits _ control, Option.map_some, if_neg low,
    if_neg high, Char.ofNat_toNat]

/-- An escaped character reads back. -/
theorem readChar_escape (c : Char) (rest : Text) :
    readChar (escape c ++ rest) = some (c, rest) := by
  unfold escape
  split_ifs with mark solidus back tab line form carriage control
  · rw [mark]
    rfl
  · rw [solidus]
    rfl
  · rw [back]
    rfl
  · rw [tab]
    rfl
  · rw [line]
    rfl
  · rw [form]
    rfl
  · rw [carriage]
    rfl
  · exact readEscape_control control rest
  · simp [readChar, solidus, control]

/-- No escaped character is a quotation mark. -/
theorem escape_ne_mark (c : Char) (rest next : Text) : escape c ++ rest ≠ '"' :: next := by
  intro equal
  have read := readChar_escape c rest
  rw [equal] at read
  obtain ⟨rfl, _⟩ : '"' = c ∧ next = rest := by simpa [readChar] using read
  cases equal

/-- A quoted string reads back. -/
theorem readString_flatMap_escape {fuel : Nat} {text : Text} (enough : text.length < fuel)
    (rest : Text) :
    readString fuel (text.flatMap escape ++ '"' :: rest) = some (text, rest) := by
  induction text generalizing fuel with
  | nil =>
      cases fuel with
      | zero => exact absurd enough (Nat.not_lt_zero _)
      | succ fuel => rfl
  | cons c text ih =>
      cases fuel with
      | zero => exact absurd enough (Nat.not_lt_zero _)
      | succ fuel =>
          have remaining := ih (Nat.lt_of_succ_lt_succ enough)
          rw [List.flatMap_cons, List.append_assoc, readString]
          · rw [readChar_escape]
            simp only [remaining, Option.map_some]
          · exact escape_ne_mark c _

theorem length_le_flatMap_escape (text : Text) : text.length ≤ (text.flatMap escape).length := by
  induction text with
  | nil => exact Nat.le_refl 0
  | cons c text ih =>
      have positive : 0 < (escape c).length := by
        unfold escape
        split_ifs <;> exact Nat.succ_pos _
      rw [List.flatMap_cons, List.length_append, List.length_cons]
      omega

/-- The same, with the fuel that the readers of values give it. -/
theorem readString_quote (text rest : Text) :
    readString ((text.flatMap escape ++ '"' :: rest).length + 1)
      (text.flatMap escape ++ '"' :: rest) = some (text, rest) := by
  apply readString_flatMap_escape
  have bound := length_le_flatMap_escape text
  rw [List.length_append]
  omega

/-- A number ends where this begins. -/
def Boundary (rest : Text) : Prop :=
  ∀ c ∈ rest.head?, isNumberChar c = false

theorem readNumber_append {literal rest : Text} (valid : isNumber literal = true)
    (characters : ∀ c ∈ literal, isNumberChar c = true) (boundary : Boundary rest) :
    readNumber (literal ++ rest) = some (number literal, rest) := by
  have stops : rest.takeWhile isNumberChar = [] ∧ rest.dropWhile isNumberChar = rest := by
    cases rest with
    | nil => exact ⟨rfl, rfl⟩
    | cons c rest =>
        have other : isNumberChar c = false := boundary c rfl
        simp [other]
  have taken : (literal ++ rest).takeWhile isNumberChar = literal := by
    rw [List.takeWhile_append_of_pos characters, stops.1, List.append_nil]
  rw [readNumber, taken, List.dropWhile_append_of_pos characters, stops.2, if_pos valid]

theorem isNumberChar_of_isDigit {c : Char} (digit : c.isDigit = true) : isNumberChar c = true := by
  simp [isNumberChar, digit]

/-- A decimal number has no leading zero. -/
theorem decimal_eq_zero_cons {n : Nat} {rest : Text} (leads : decimal n = '0' :: rest) :
    rest = [] := by
  have zero : ∀ m, ∀ rest, decimal m = '0' :: rest → m = 0 := by
    intro m
    induction m using Nat.strongRecOn with
    | ind m ih =>
        intro rest equal
        rw [decimal, Nat.toDigits_eq_if (by omega)] at equal
        split at equal
        · have table : ∀ d < 10, Nat.digitChar d = '0' → d = 0 := by decide
          rename_i small
          exact table m small (List.cons.inj equal).1
        · rename_i large
          obtain ⟨first, more, split⟩ := List.exists_cons_of_ne_nil (decimal_ne_nil (m / 10))
          rw [show Nat.toDigits 10 (m / 10) = first :: more from split, List.cons_append] at equal
          rw [(List.cons.inj equal).1] at split
          have quotient := ih (m / 10) (by omega) more split
          omega
  rw [zero n rest leads] at leads
  exact (List.cons.inj leads).2.symm

theorem isNumber_decimal (n : Nat) : isNumber (decimal n) = true := by
  have digits : ∀ c ∈ decimal n, c.isDigit = true := fun c => isDigit_of_mem_decimal
  have all : (decimal n).takeWhile Char.isDigit = decimal n := List.takeWhile_eq_self_iff.mpr digits
  have none : (decimal n).dropWhile Char.isDigit = [] := List.dropWhile_eq_nil_iff.mpr digits
  have unsigned : isUnsigned (decimal n) = true := by
    unfold isUnsigned
    split
    · rename_i rest leads
      rw [decimal_eq_zero_cons leads]
      rfl
    · rw [all, none]
      simp [isDigits, decimal_ne_nil, isFraction, List.all_eq_true.mpr digits]
  unfold isNumber
  split
  · rename_i rest negative
    have digit : Char.isDigit '-' = true := digits _ (by rw [negative]; exact List.mem_cons_self)
    cases digit
  · exact unsigned

/-- A written value reads back in front of whatever ends a number. -/
def Readable (value : Json) : Prop :=
  ∀ fuel rest, (stringify value).length ≤ fuel → Boundary rest →
    readValue fuel (stringify value ++ rest) = some (value, rest)

theorem boundary_nil : Boundary [] :=
  fun _ impossible => by cases impossible

theorem boundary_cons {c : Char} (other : isNumberChar c = false) (rest : Text) :
    Boundary (c :: rest) := by
  rintro _ ⟨rfl⟩
  exact other

theorem skipBlank_cons {c : Char} (solid : isBlank c = false) (rest : Text) :
    skipBlank (c :: rest) = c :: rest := by
  simp [skipBlank, solid]

@[simp]
theorem skipBlank_colon (rest : Text) : skipBlank (':' :: rest) = ':' :: rest :=
  skipBlank_cons rfl rest

@[simp]
theorem skipBlank_comma (rest : Text) : skipBlank (',' :: rest) = ',' :: rest :=
  skipBlank_cons rfl rest

@[simp]
theorem skipBlank_brace (rest : Text) : skipBlank ('}' :: rest) = '}' :: rest :=
  skipBlank_cons rfl rest

theorem isBlank_of_isNumberChar {c : Char} (character : isNumberChar c = true) :
    isBlank c = false := by
  rw [Bool.eq_false_iff]
  intro blank
  simp only [isBlank, Bool.or_eq_true, decide_eq_true_eq] at blank
  rcases blank with ((rfl | rfl) | rfl) | rfl <;> cases character

/-- A text that begins like a number is read as one. -/
theorem readValue_number {fuel : Nat} {c : Char} {text : Text}
    (character : isNumberChar c = true) :
    readValue (fuel + 1) (c :: text) = readNumber (c :: text) := by
  rw [readValue, skipBlank_cons (isBlank_of_isNumberChar character)]
  split
  case h_7 => rfl
  all_goals
    rename_i equal
    rw [(List.cons.inj equal).1] at character
    cases character

theorem readable_string (text : Text) : Readable (string text) := by
  intro fuel rest enough _
  cases fuel with
  | zero =>
      simp [stringify, quote] at enough
  | succ fuel =>
      have written : stringify (string text) ++ rest =
          '"' :: (text.flatMap escape ++ '"' :: rest) := by
        simp [stringify, quote]
      rw [written, readValue, skipBlank_cons rfl]
      simp only [readString_quote, Option.map_some]

theorem readable_number {literal : Text} (valid : isNumber literal = true)
    (characters : ∀ c ∈ literal, isNumberChar c = true) : Readable (number literal) := by
  intro fuel rest enough boundary
  cases literal with
  | nil => cases valid
  | cons c literal =>
      cases fuel with
      | zero => simp [stringify] at enough
      | succ fuel =>
          have first : isNumberChar c = true := characters c List.mem_cons_self
          rw [stringify, List.cons_append, readValue_number first]
          exact readNumber_append valid characters boundary

/-- Members read back, if their values do. -/
theorem readMembers_stringify {key : Text} {value : Json} {members : List (Text × Json)}
    (readable : Readable value) (others : ∀ member ∈ members, Readable member.2)
    {fuel : Nat} (rest : Text)
    (enough : (stringify value ++ stringifyMembers members).length < fuel) :
    readMembers fuel (quote key ++ ':' :: (stringify value ++ stringifyMembers members) ++ rest) =
      some ((key, value) :: members, rest) := by
  induction members generalizing fuel key value with
  | nil =>
      cases fuel with
      | zero => exact absurd enough (Nat.not_lt_zero _)
      | succ fuel =>
          have written : quote key ++ ':' :: (stringify value ++ stringifyMembers []) ++ rest =
              '"' :: (key.flatMap escape ++ '"' :: ':' :: (stringify value ++ '}' :: rest)) := by
            simp [quote, stringifyMembers]
          have bound : (stringify value).length ≤ fuel := by
            rw [List.length_append] at enough
            omega
          rw [written, readMembers, skipBlank_cons rfl]
          simp only [readString_quote, skipBlank_colon,
            readable fuel ('}' :: rest) bound (boundary_cons rfl rest), skipBlank_brace]
  | cons member members ih =>
      cases fuel with
      | zero => exact absurd enough (Nat.not_lt_zero _)
      | succ fuel =>
          obtain ⟨next, nextValue⟩ := member
          have written : quote key ++
                ':' :: (stringify value ++ stringifyMembers ((next, nextValue) :: members)) ++ rest =
              '"' :: (key.flatMap escape ++ '"' :: ':' :: (stringify value ++ ',' ::
                (quote next ++ ':' :: (stringify nextValue ++ stringifyMembers members) ++
                  rest))) := by
            simp [quote, stringifyMembers]
          have bounds : (stringify value).length ≤ fuel ∧
              (stringify nextValue ++ stringifyMembers members).length < fuel := by
            simp only [stringifyMembers, List.length_append, List.length_cons] at enough ⊢
            omega
          have nextReadable : Readable nextValue := others (next, nextValue) List.mem_cons_self
          have remaining : readMembers fuel
              (quote next ++ ':' :: (stringify nextValue ++ stringifyMembers members) ++ rest) =
                some ((next, nextValue) :: members, rest) := ih nextReadable
            (fun member inside => others member (List.mem_cons_of_mem _ inside)) bounds.2
          have read := fun after => readable fuel (',' :: after) bounds.1 (boundary_cons rfl after)
          rw [written, readMembers, skipBlank_cons rfl]
          simp only [readString_quote, skipBlank_colon, read, skipBlank_comma, remaining,
            Option.map_some]

/-- An object reads back, if its members have different names and their values
read back. -/
theorem readable_object {members : List (Text × Json)}
    (distinct : (members.map Prod.fst).Nodup) (readable : ∀ member ∈ members, Readable member.2) :
    Readable (object members) := by
  intro fuel rest enough _
  cases fuel with
  | zero =>
      cases members with
      | nil => simp [stringify] at enough
      | cons member members => simp [stringify] at enough
  | succ fuel =>
      cases members with
      | nil =>
          rw [stringify, List.cons_append, readValue, skipBlank_cons rfl]
          simp only [List.cons_append, List.nil_append, skipBlank_brace]
      | cons member members =>
          obtain ⟨key, value⟩ := member
          have bound : (stringify value ++ stringifyMembers members).length < fuel := by
            simp only [stringify, quote, List.length_append, List.length_cons] at enough ⊢
            omega
          have read : readMembers fuel
              (quote key ++ ':' :: (stringify value ++ stringifyMembers members) ++ rest) =
                some ((key, value) :: members, rest) :=
            readMembers_stringify (readable (key, value) List.mem_cons_self)
              (fun member inside => readable member (List.mem_cons_of_mem _ inside)) rest bound
          have quoted : ∀ text, skipBlank (quote key ++ text) = quote key ++ text :=
            fun text => skipBlank_cons rfl _
          rw [stringify, List.cons_append, readValue, skipBlank_cons rfl]
          simp only [List.append_assoc, quoted] at read ⊢
          split
          · rename_i after equal
            rw [quote, List.cons_append] at equal
            cases (List.cons.inj equal).1
          · rw [read]
            simp only [Option.map_some, assignAll_of_nodup distinct]

/-- Items read back, if each does. -/
theorem readItems_stringify {item : Json} {items : List Json} (readable : Readable item)
    (others : ∀ item ∈ items, Readable item) {fuel : Nat} (rest : Text)
    (enough : (stringify item ++ stringifyItems items).length ≤ fuel) :
    readItems fuel (stringify item ++ stringifyItems items ++ rest) = some (item :: items, rest) := by
  induction items generalizing fuel item with
  | nil =>
      cases fuel with
      | zero => simp [stringifyItems] at enough
      | succ fuel =>
          have written : stringify item ++ stringifyItems [] ++ rest =
              stringify item ++ ']' :: rest := by
            simp [stringifyItems]
          have bound : (stringify item).length ≤ fuel := by
            simp only [stringifyItems, List.length_append, List.length_cons] at enough
            omega
          rw [written, readItems, readable fuel (']' :: rest) bound (boundary_cons rfl rest)]
          rfl
  | cons next items ih =>
      cases fuel with
      | zero => simp [stringifyItems] at enough
      | succ fuel =>
          have written : stringify item ++ stringifyItems (next :: items) ++ rest =
              stringify item ++ ',' :: (stringify next ++ stringifyItems items ++ rest) := by
            simp [stringifyItems]
          have bounds : (stringify item).length ≤ fuel ∧
              (stringify next ++ stringifyItems items).length ≤ fuel := by
            simp only [stringifyItems, List.length_append, List.length_cons] at enough ⊢
            omega
          have remaining : readItems fuel (stringify next ++ stringifyItems items ++ rest) =
              some (next :: items, rest) := ih (others next List.mem_cons_self)
            (fun item inside => others item (List.mem_cons_of_mem _ inside)) bounds.2
          rw [written, readItems, readable fuel _ bounds.1 (boundary_cons rfl _)]
          simp only [skipBlank_comma, remaining, Option.map_some]

/-- An array of strings reads back. -/
theorem readable_strings (texts : List Text) : Readable (array (texts.map string)) := by
  intro fuel rest enough _
  cases fuel with
  | zero => cases texts <;> simp [stringify] at enough
  | succ fuel =>
      cases texts with
      | nil =>
          rw [List.map_nil, stringify, List.cons_append, readValue, skipBlank_cons rfl]
          rfl
      | cons text texts =>
          rw [List.map_cons] at enough ⊢
          have bound : (stringify (string text) ++ stringifyItems (texts.map string)).length ≤
              fuel := by
            rw [stringify, List.length_cons] at enough
            exact Nat.le_of_succ_le_succ enough
          have read := readItems_stringify (readable_string text) (fun item inside => by
            obtain ⟨other, -, rfl⟩ := List.mem_map.mp inside
            exact readable_string other) rest bound
          have quoted : ∀ after, skipBlank (stringify (string text) ++ after) =
              stringify (string text) ++ after := fun _ => skipBlank_cons rfl _
          rw [stringify, List.cons_append, readValue, skipBlank_cons rfl]
          simp only [List.append_assoc, quoted] at read ⊢
          split
          · rename_i after equal
            rw [stringify, quote, List.cons_append] at equal
            cases (List.cons.inj equal).1
          · rw [read]
            rfl

/-- What `JSON.stringify` writes, `JSON.parse` reads back. -/
theorem parse_stringify {value : Json} (readable : Readable value) :
    parse (stringify value) = some value := by
  have read := readable ((stringify value).length + 1) [] (Nat.le_succ _) boundary_nil
  rw [List.append_nil] at read
  rw [parse, read]
  rfl

end Json

end Quackhole.Word
