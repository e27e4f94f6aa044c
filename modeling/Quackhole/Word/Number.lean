import Quackhole.Word.Spaces
import Quackhole.Word.Text
import Mathlib.Data.Int.Log
import Mathlib.Data.Rat.Floor

/-!
# Numbers of JavaScript

A number is a double.  `Number(text)` reads one, rounding what is written to the nearest double,
and a template writes it with as few digits as read back as the same double.
-/

namespace Quackhole.Word

/-- A number.  Nothing shows the sign of a zero. -/
inductive JsNumber where
  | nan
  | infinite (negative : Bool)
  | finite (value : ℚ)
  deriving DecidableEq

/-! ## Rounding -/

/-- The nearest integer, or the even one of two. -/
def roundEven (x : ℚ) : ℤ :=
  if x - ⌊x⌋ < 1 / 2 ∨ (x - ⌊x⌋ = 1 / 2 ∧ ⌊x⌋ % 2 = 0) then ⌊x⌋ else ⌊x⌋ + 1

/-- The exponent of the last binary place of a double of this size. -/
def lastPlace (x : ℚ) : ℤ :=
  max (Int.log 2 x - 52) (-1074)

/-- The double that is nearest to a positive number, if there were no largest one. -/
def nearest (x : ℚ) : ℚ :=
  roundEven (x / 2 ^ lastPlace x) * 2 ^ lastPlace x

/-- The double for a number. -/
def JsNumber.ofRat (x : ℚ) : JsNumber :=
  if 2 ^ 1024 ≤ nearest |x| then .infinite (x < 0)
  else .finite (if x < 0 then -nearest |x| else nearest |x|)

/-! ## Reading -/

/-- Digits, and nothing else. -/
def natural (radix : ℕ) (digits : Text) : Option ℕ :=
  if digits = [] then none else digitsValue radix 0 digits

/-- What may stand after a number: its exponent. -/
def exponentPart : Text → Option ℤ
  | [] => some 0
  | mark :: rest =>
      if mark = 'e' ∨ mark = 'E' then
        match rest with
        | '-' :: digits => (natural 10 digits).map fun n => -n
        | '+' :: digits => (natural 10 digits).map fun n => n
        | digits => (natural 10 digits).map fun n => n
      else none

/-- A number without a sign: digits with a point among them, before them or after them, and an
exponent. -/
def unsignedDecimal (text : Text) : Option ℚ :=
  let whole := text.takeWhile Char.isDigit
  let rest := text.dropWhile Char.isDigit
  let point := rest.head? = some '.'
  let fraction := if point then rest.tail.takeWhile Char.isDigit else []
  let exponent := if point then rest.tail.dropWhile Char.isDigit else rest
  (natural 10 (whole ++ fraction)).bind fun digits =>
    (exponentPart exponent).map fun e : ℤ => (digits : ℚ) * 10 ^ (e - fraction.length)

/-- A number that may have a sign. -/
def signedDecimal (text : Text) : JsNumber :=
  let negative := text.head? = some '-'
  let magnitude := if negative ∨ text.head? = some '+' then text.tail else text
  if magnitude = "Infinity".toList then .infinite negative
  else
    match unsignedDecimal magnitude with
    | none => .nan
    | some value => .ofRat (if negative then -value else value)

/-- The radix that a letter after a zero stands for. -/
def radixOf (letter : Char) : Option ℕ :=
  if letter = 'x' ∨ letter = 'X' then some 16
  else if letter = 'o' ∨ letter = 'O' then some 8
  else if letter = 'b' ∨ letter = 'B' then some 2
  else none

/-- An integer in another radix. -/
def nonDecimal : Text → Option ℕ
  | '0' :: letter :: digits => (radixOf letter).bind fun radix => natural radix digits
  | _ => none

/-- `Number(text)`. -/
def JsNumber.ofText (text : Text) : JsNumber :=
  if trimSpace text = [] then .finite 0
  else
    match nonDecimal (trimSpace text) with
    | some n => .ofRat n
    | none => signedDecimal (trimSpace text)

/-! ## Writing -/

/-- The exponent of the last of so many decimal places. -/
def lastDigit (x : ℚ) (count : ℕ) : ℤ :=
  Int.log 10 x + 1 - count

/-- So many digits that are read as this double: the closest ones, or those next to it. -/
def digitsOf (x : ℚ) (count : ℕ) : Option (ℤ × ℤ) :=
  let place := lastDigit x count
  let near : List ℤ := [roundEven (x / 10 ^ place), ⌊x / 10 ^ place⌋, ⌊x / 10 ^ place⌋ + 1]
  (near.find? fun digits : ℤ => nearest (digits * 10 ^ place) = x).map (·, place)

/-- As few digits as are read as this double, and the exponent of the last one.  No double needs
more than 17. -/
def shortest (x : ℚ) : ℕ × ℤ :=
  (((List.range' 1 17).findSome? (digitsOf x)).map fun found =>
    (found.1.toNat, found.2)).getD (0, 0)

/-- Digits with a point after so many of them. -/
def layout (digits : Text) (point : ℤ) : Text :=
  if digits.length ≤ point ∧ point ≤ 21 then
    digits ++ List.replicate (point - digits.length).toNat '0'
  else if 0 < point ∧ point ≤ 21 then
    digits.take point.toNat ++ '.' :: digits.drop point.toNat
  else if -6 < point ∧ point ≤ 0 then
    "0.".toList ++ List.replicate (-point).toNat '0' ++ digits
  else
    digits.take 1 ++ (if digits.length = 1 then [] else '.' :: digits.drop 1) ++
      'e' :: (if point - 1 < 0 then '-' else '+') :: decimal (point - 1).natAbs

/-- How a positive number is written. -/
def printedPositive (x : ℚ) : Text :=
  let digits := decimal (shortest x).1
  layout (digits.rdropWhile (· = '0')) (digits.length + (shortest x).2)

/-- A number in a template. -/
def JsNumber.printed : JsNumber → Text
  | nan => "NaN".toList
  | infinite negative => (if negative then ['-'] else []) ++ "Infinity".toList
  | finite value =>
      if value = 0 then ['0']
      else if value < 0 then '-' :: printedPositive (-value)
      else printedPositive value

/-! ## Natural numbers

Below `2 ^ 52` a natural number is read and written as such. -/

theorem roundEven_intCast (m : ℤ) : roundEven m = m := by
  have whole : (m : ℚ) - (⌊(m : ℚ)⌋ : ℤ) = 0 := by rw [Int.floor_intCast, sub_self]
  rw [roundEven, if_pos (Or.inl (whole ▸ by norm_num)), Int.floor_intCast]

theorem roundEven_eq (x : ℚ) : roundEven x = ⌊x⌋ ∨ roundEven x = ⌊x⌋ + 1 := by
  rw [roundEven]
  split
  · exact .inl rfl
  · exact .inr rfl

theorem nearest_natCast {n : ℕ} (small : n < 2 ^ 53) : nearest n = n := by
  have log : Nat.log 2 n ≤ 52 := Nat.le_of_lt_succ (Nat.log_lt_of_lt_pow' (by norm_num) small)
  have place : ∃ k : ℕ, lastPlace n = -k := by
    refine ⟨(-lastPlace n).toNat, ?_⟩
    rw [lastPlace, Int.log_natCast]
    omega
  obtain ⟨k, place⟩ := place
  have scaled : (n : ℚ) / 2 ^ (-k : ℤ) = ((n * 2 ^ k : ℤ) : ℚ) := by
    rw [zpow_neg, zpow_natCast, div_inv_eq_mul]
    push_cast
    rfl
  rw [nearest, place, scaled, roundEven_intCast, ← scaled]
  exact div_mul_cancel₀ _ (zpow_ne_zero _ two_ne_zero)

theorem ofRat_natCast {n : ℕ} (small : n < 2 ^ 53) : JsNumber.ofRat n = .finite n := by
  have below : ¬ (2 ^ 1024 : ℚ) ≤ n := by
    rw [not_le]
    calc (n : ℚ) < 2 ^ 53 := by exact_mod_cast small
      _ ≤ 2 ^ 1024 := pow_le_pow_right₀ one_le_two (by norm_num)
  rw [JsNumber.ofRat, Nat.abs_cast, nearest_natCast small, if_neg below,
    if_neg (not_lt.mpr n.cast_nonneg)]

theorem unsignedDecimal_decimal (n : ℕ) : unsignedDecimal (decimal n) = some (n : ℚ) := by
  have digits : ∀ c ∈ decimal n, c.isDigit = true := fun c member => isDigit_of_mem_decimal member
  have all : (decimal n).takeWhile Char.isDigit = decimal n := List.takeWhile_eq_self_iff.mpr digits
  have none : (decimal n).dropWhile Char.isDigit = [] := List.dropWhile_eq_nil_iff.mpr digits
  have read : natural 10 (decimal n) = some n := by
    rw [natural, if_neg (decimal_ne_nil n), digitsValue_decimal]
  rw [unsignedDecimal, all, none]
  simp only [List.head?_nil, reduceCtorEq, if_false, List.append_nil, read, Option.bind_some,
    exponentPart, Option.map_some, List.length_nil, Nat.cast_zero, sub_self, zpow_zero, mul_one]

theorem ne_of_mem_decimal {n : ℕ} {c d : Char} (member : c ∈ decimal n)
    (noDigit : d.isDigit = false) : c ≠ d := by
  rintro rfl
  rw [isDigit_of_mem_decimal member] at noDigit
  cases noDigit

/-- Digits are no integer in another radix: no letter follows the zero. -/
theorem nonDecimal_decimal (n : ℕ) : nonDecimal (decimal n) = none := by
  rw [nonDecimal.eq_def]
  split
  · rename_i letter digits written
    have inside : letter ∈ decimal n := by
      rw [written]
      exact List.mem_cons_of_mem _ List.mem_cons_self
    have other {d : Char} : d.isDigit = false → letter ≠ d := ne_of_mem_decimal inside
    rw [radixOf, if_neg (not_or.mpr ⟨other rfl, other rfl⟩),
      if_neg (not_or.mpr ⟨other rfl, other rfl⟩), if_neg (not_or.mpr ⟨other rfl, other rfl⟩)]
    rfl
  · rfl

theorem trimSpace_decimal (n : ℕ) : trimSpace (decimal n) = decimal n := by
  have filled : ∀ c ∈ decimal n, ¬ isSpace c = true :=
    fun c member => not_isSpace_of_isDigit (isDigit_of_mem_decimal member)
  rw [trimSpace, dropWhile_eq_self_of_forall filled, rdropWhile_eq_self_of_forall filled]

/-- A number in decimal digits is that number. -/
theorem ofText_decimal {n : ℕ} (small : n < 2 ^ 53) :
    JsNumber.ofText (decimal n) = .finite n := by
  have head {c : Char} (other : c.isDigit = false) : (decimal n).head? ≠ some c :=
    fun first => ne_of_mem_decimal (List.mem_of_mem_head? first) other rfl
  have finite : decimal n ≠ "Infinity".toList := fun same => head (c := 'I') rfl (same ▸ rfl)
  rw [JsNumber.ofText, trimSpace_decimal, if_neg (decimal_ne_nil n), nonDecimal_decimal]
  dsimp only
  rw [signedDecimal]
  simp only [head (c := '-') rfl, head (c := '+') rfl, or_self, if_false, finite,
    unsignedDecimal_decimal]
  exact ofRat_natCast small

/-- Digits that are read as a natural number, in a place that is not behind its last one, are its
digits. -/
theorem eq_of_digitsOf {n j : ℕ} (positive : 0 < n) (small : n < 2 ^ 52) {count : ℕ}
    (last : lastDigit n count = j) (few : j ≤ Nat.log 10 n) {digits place : ℤ}
    (found : digitsOf n count = some (digits, place)) :
    ∃ d : ℕ, digits = d ∧ place = j ∧ n = d * 10 ^ j := by
  rw [digitsOf, last] at found
  obtain ⟨shown, chosen, equal⟩ := Option.map_eq_some_iff.mp found
  obtain ⟨rfl, rfl⟩ := Prod.mk.inj equal
  have below : ⌊(n : ℚ) / 10 ^ (j : ℤ)⌋ = ((n / 10 ^ j : ℕ) : ℤ) := by
    rw [zpow_natCast]
    exact_mod_cast Rat.floor_natCast_div_natCast n (10 ^ j)
  have member := List.mem_of_find?_eq_some chosen
  have near : shown = ((n / 10 ^ j : ℕ) : ℤ) ∨ shown = ((n / 10 ^ j + 1 : ℕ) : ℤ) := by
    have rounded := roundEven_eq ((n : ℚ) / 10 ^ (j : ℤ))
    simp only [List.mem_cons, List.not_mem_nil, or_false] at member
    push_cast at below ⊢
    rw [below] at rounded member
    omega
  obtain ⟨d, rfl, bound⟩ : ∃ d : ℕ, shown = d ∧ d ≤ n / 10 ^ j + 1 := by
    rcases near with rfl | rfl
    · exact ⟨_, rfl, Nat.le_succ _⟩
    · exact ⟨_, rfl, le_rfl⟩
  have power : 10 ^ j ≤ n := Nat.pow_le_of_le_log positive.ne' few
  have fits : d * 10 ^ j < 2 ^ 53 := by
    calc d * 10 ^ j ≤ (n / 10 ^ j + 1) * 10 ^ j := Nat.mul_le_mul_right _ bound
      _ = n / 10 ^ j * 10 ^ j + 10 ^ j := by ring
      _ ≤ n + n := Nat.add_le_add (Nat.div_mul_le_self _ _) power
      _ < 2 ^ 53 := by omega
  have read := List.find?_some chosen
  simp only [decide_eq_true_eq, zpow_natCast] at read
  have same : ((d * 10 ^ j : ℕ) : ℚ) = (n : ℚ) := by
    rw [← nearest_natCast fits, ← read]
    push_cast
    rfl
  exact ⟨d, rfl, rfl, (Nat.cast_injective same).symm⟩

theorem digitsOf_last {n : ℕ} (small : n < 2 ^ 52) {count : ℕ} (last : lastDigit n count = 0) :
    digitsOf n count = some ((n : ℤ), 0) := by
  have first : nearest (roundEven (n : ℚ)) = n := by
    rw [show roundEven (n : ℚ) = n from roundEven_intCast n]
    exact nearest_natCast (small.trans (by norm_num))
  rw [digitsOf, last, zpow_zero, div_one]
  simp only [mul_one]
  simp only [List.find?_cons, first, decide_true, Option.map_some]
  rw [show roundEven (n : ℚ) = n from roundEven_intCast n]

/-- The digits that are shown of a natural number are its first ones, and zeros are behind them. -/
theorem exists_shortest {n : ℕ} (positive : 0 < n) (small : n < 2 ^ 52) :
    ∃ d j : ℕ, shortest n = (d, (j : ℤ)) ∧ n = d * 10 ^ j := by
  have length : Nat.log 10 n < 16 :=
    Nat.log_lt_of_lt_pow positive.ne' (small.trans (by norm_num))
  have lastDigit_eq (count : ℕ) : lastDigit n count = Nat.log 10 n + 1 - count := by
    rw [lastDigit, Int.log_natCast]
  have last : lastDigit n (Nat.log 10 n + 1) = 0 := by
    rw [lastDigit_eq]
    push_cast
    ring
  have split : List.range' 1 17 =
      List.range' 1 (Nat.log 10 n + 1) ++ List.range' (Nat.log 10 n + 2) (16 - Nat.log 10 n) := by
    rw [show Nat.log 10 n + 2 = 1 + (Nat.log 10 n + 1) by omega, List.range'_append_1]
    congr 1
    omega
  have there : ((List.range' 1 (Nat.log 10 n + 1)).findSome? (digitsOf n)).isSome := by
    rw [List.findSome?_isSome_iff]
    refine ⟨Nat.log 10 n + 1, List.mem_range'_1.mpr (by omega), ?_⟩
    rw [digitsOf_last small last]
    rfl
  obtain ⟨⟨digits, place⟩, found⟩ := Option.isSome_iff_exists.mp there
  obtain ⟨count, member, read⟩ := List.exists_of_findSome?_eq_some found
  have range := List.mem_range'_1.mp member
  obtain ⟨d, rfl, rfl, whole⟩ := eq_of_digitsOf (j := Nat.log 10 n + 1 - count) positive small
    (by rw [lastDigit_eq]; omega) (by omega) read
  refine ⟨d, Nat.log 10 n + 1 - count, ?_, whole⟩
  rw [shortest, split, List.findSome?_append, found]
  rfl

theorem decimal_mul_pow {d : ℕ} (positive : 0 < d) (j : ℕ) :
    decimal (d * 10 ^ j) = decimal d ++ List.replicate j '0' := by
  induction j with
  | zero => rw [Nat.pow_zero, Nat.mul_one, List.replicate_zero, List.append_nil]
  | succ j ih =>
      have more : 0 < d * 10 ^ j := Nat.mul_pos positive (Nat.pow_pos (by norm_num))
      have next := @Nat.toDigits_append_toDigits 10 (d * 10 ^ j) 0 (by norm_num) more (by norm_num)
      rw [List.replicate_succ', ← List.append_assoc, ← ih]
      rw [show d * 10 ^ (j + 1) = 10 * (d * 10 ^ j) + 0 by ring]
      exact next.symm

/-- Zeros that are left out are put back. -/
theorem rdropWhile_append_zeros (digits : Text) :
    digits.rdropWhile (· = '0') ++
        List.replicate (digits.length - (digits.rdropWhile (· = '0')).length) '0' = digits := by
  have split : digits.rdropWhile (· = '0') ++ digits.rtakeWhile (· = '0') = digits :=
    List.rdropWhile_append_rtakeWhile
  have zeros : digits.rtakeWhile (· = '0') =
      List.replicate (digits.rtakeWhile (· = '0')).length '0' := by
    refine List.eq_replicate_iff.mpr ⟨rfl, fun c member => ?_⟩
    have zero := List.mem_rtakeWhile_imp member
    exact of_decide_eq_true zero
  have length := congrArg List.length split
  rw [List.length_append] at length
  rw [show digits.length - (digits.rdropWhile (· = '0')).length =
    (digits.rtakeWhile (· = '0')).length by omega, ← zeros, split]

/-- A natural number is written in decimal digits. -/
theorem printed_natCast {n : ℕ} (positive : 0 < n) (small : n < 2 ^ 52) :
    (JsNumber.finite n).printed = decimal n := by
  obtain ⟨d, j, shown, whole⟩ := exists_shortest positive small
  have filled : 0 < d := Nat.pos_of_ne_zero fun zero => by
    rw [zero, Nat.zero_mul] at whole
    exact positive.ne' whole
  have written : decimal n = decimal d ++ List.replicate j '0' := by
    rw [whole, decimal_mul_pow filled]
  have length := congrArg List.length written
  rw [List.length_append, List.length_replicate] at length
  have short : (decimal n).length ≤ 21 :=
    (Nat.length_toDigits_le_iff (by norm_num) (by norm_num)).mpr (small.trans (by norm_num))
  have fewer := (List.rdropWhile_prefix (· = '0') (decimal d)).length_le
  have value : (n : ℚ) ≠ 0 := Nat.cast_ne_zero.mpr positive.ne'
  rw [JsNumber.printed, if_neg value, if_neg (not_lt.mpr n.cast_nonneg), printedPositive, shown]
  dsimp only
  rw [layout, if_pos ⟨by omega, by omega⟩]
  generalize known : (decimal d).rdropWhile (· = '0') = front at fewer ⊢
  have zeros : ((decimal d).length + (j : ℤ) - front.length).toNat =
      ((decimal d).length - front.length) + j := by
    omega
  rw [zeros, List.replicate_add, ← List.append_assoc, written]
  congr 1
  rw [← known]
  exact rdropWhile_append_zeros (decimal d)

end Quackhole.Word
