import Quackhole.Word.Text
import Mathlib.Algebra.Group.Nat.Defs
import Mathlib.Data.List.Nodup

/-!
# Byte strings as numerals

A byte string of a known length is a number, and its hex and base32 spellings
are the digits of that number over an alphabet.  The base32 here is unpadded,
over any alphabet of 32 letters: when the last letter has bits to spare they are
zero, and a strict reader insists on that.
-/

namespace Quackhole.Word

/-! ## Digits in a fixed width -/

/-- The digits of a number, the most significant one first. -/
def numeral (radix : Nat) : Nat → Nat → List Nat
  | 0, _ => []
  | width + 1, n => numeral radix width (n / radix) ++ [n % radix]

/-- The number that digits stand for. -/
def numeralValue (radix : Nat) (digits : List Nat) : Nat :=
  digits.foldl (fun value digit => value * radix + digit) 0

@[simp]
theorem numeralValue_nil (radix : Nat) : numeralValue radix [] = 0 :=
  rfl

@[simp]
theorem numeralValue_append_singleton (radix : Nat) (digits : List Nat) (digit : Nat) :
    numeralValue radix (digits ++ [digit]) = numeralValue radix digits * radix + digit := by
  simp [numeralValue]

@[simp]
theorem length_numeral (radix width n : Nat) : (numeral radix width n).length = width := by
  induction width generalizing n with
  | zero => rfl
  | succ width ih => simp [numeral, ih]

theorem lt_of_mem_numeral {radix width n : Nat} (positive : 0 < radix) :
    ∀ digit ∈ numeral radix width n, digit < radix := by
  induction width generalizing n with
  | zero => simp [numeral]
  | succ width ih =>
      intro digit member
      rcases List.mem_append.mp member with earlier | last
      · exact ih digit earlier
      · rw [List.mem_singleton.mp last]
        exact Nat.mod_lt n positive

/-- A number that fits the width is the value of its digits. -/
theorem numeralValue_numeral {radix width n : Nat} (small : n < radix ^ width) :
    numeralValue radix (numeral radix width n) = n := by
  induction width generalizing n with
  | zero =>
      rw [Nat.pow_zero] at small
      simp [numeral, Nat.lt_one_iff.mp small]
  | succ width ih =>
      have fits : n / radix < radix ^ width := by
        rw [Nat.pow_succ, Nat.mul_comm] at small
        exact Nat.div_lt_of_lt_mul small
      rw [numeral, numeralValue_append_singleton, ih fits]
      exact Nat.div_add_mod' n radix

/-- Digits are the digits of their value. -/
theorem numeral_numeralValue {radix : Nat} {digits : List Nat}
    (small : ∀ digit ∈ digits, digit < radix) :
    numeral radix digits.length (numeralValue radix digits) = digits := by
  induction digits using List.reverseRecOn with
  | nil => rfl
  | append_singleton digits digit ih =>
      have lastSmall := small digit (by simp)
      have positive : 0 < radix := Nat.zero_lt_of_lt lastSmall
      rw [List.length_append, List.length_singleton, numeral, numeralValue_append_singleton,
        Nat.mul_comm, Nat.mul_add_div positive, Nat.div_eq_of_lt lastSmall, Nat.add_zero,
        ih fun other member => small other (List.mem_append_left _ member),
        Nat.mul_add_mod, Nat.mod_eq_of_lt lastSmall]

theorem numeralValue_lt {radix : Nat} {digits : List Nat}
    (small : ∀ digit ∈ digits, digit < radix) :
    numeralValue radix digits < radix ^ digits.length := by
  induction digits using List.reverseRecOn with
  | nil => simp
  | append_singleton digits digit ih =>
      have lastSmall := small digit (by simp)
      have before := ih fun other member => small other (List.mem_append_left _ member)
      rw [numeralValue_append_singleton, List.length_append, List.length_singleton, Nat.pow_succ]
      calc numeralValue radix digits * radix + digit
          < numeralValue radix digits * radix + radix := Nat.add_lt_add_left lastSmall _
        _ = (numeralValue radix digits + 1) * radix := by rw [Nat.add_mul, Nat.one_mul]
        _ ≤ radix ^ digits.length * radix := Nat.mul_le_mul_right radix before

/-! ## Byte strings -/

def bytesValue (bytes : Bytes) : Nat :=
  numeralValue 256 (bytes.map UInt8.toNat)

/-- The byte string of that length with this value. -/
def bytesOfValue (length n : Nat) : Bytes :=
  (numeral 256 length n).map UInt8.ofNat

theorem lt_of_mem_map_toNat (bytes : Bytes) : ∀ digit ∈ bytes.map UInt8.toNat, digit < 256 := by
  intro digit member
  rcases List.mem_map.mp member with ⟨byte, -, rfl⟩
  exact byte.toNat_lt

theorem bytesOfValue_bytesValue (bytes : Bytes) :
    bytesOfValue bytes.length (bytesValue bytes) = bytes := by
  have digits := numeral_numeralValue (lt_of_mem_map_toNat bytes)
  have same : UInt8.ofNat ∘ UInt8.toNat = id := funext fun byte => UInt8.ofNat_toNat
  rw [List.length_map] at digits
  rw [bytesOfValue, bytesValue, digits, List.map_map, same, List.map_id]

theorem bytesValue_lt (bytes : Bytes) : bytesValue bytes < 256 ^ bytes.length := by
  simpa [bytesValue] using numeralValue_lt (lt_of_mem_map_toNat bytes)

/-! ## Alphabets -/

/-- As many different letters as the radix has digits. -/
structure Alphabet (radix : Nat) where
  letters : List Char
  size : letters.length = radix
  distinct : letters.Nodup

namespace Alphabet

variable {radix : Nat} (alphabet : Alphabet radix)

/-- The letter for a digit. -/
def letter (digit : Nat) : Char :=
  alphabet.letters.getD digit ' '

/-- The digit a letter stands for. -/
def digit (c : Char) : Option Nat :=
  if c ∈ alphabet.letters then some (alphabet.letters.idxOf c) else none

/-- The digits of a number as letters. -/
def write (width n : Nat) : Text :=
  (numeral radix width n).map alphabet.letter

/-- The number that letters stand for. -/
def read (text : Text) : Option Nat :=
  (text.mapM alphabet.digit).map (numeralValue radix)

@[simp]
theorem length_write (width n : Nat) : (alphabet.write width n).length = width := by
  simp [write]

theorem letter_eq_getElem {d : Nat} (small : d < alphabet.letters.length) :
    alphabet.letter d = alphabet.letters[d] := by
  simp [letter, List.getD, small]

theorem letter_mem {d : Nat} (small : d < radix) : alphabet.letter d ∈ alphabet.letters := by
  rw [← alphabet.size] at small
  rw [alphabet.letter_eq_getElem small]
  exact List.getElem_mem small

theorem digit_letter {d : Nat} (small : d < radix) :
    alphabet.digit (alphabet.letter d) = some d := by
  rw [digit, if_pos (alphabet.letter_mem small)]
  rw [← alphabet.size] at small
  rw [alphabet.letter_eq_getElem small, alphabet.distinct.idxOf_getElem d small]

theorem mem_of_mem_write (positive : 0 < radix) {width n : Nat} :
    ∀ c ∈ alphabet.write width n, c ∈ alphabet.letters := by
  intro c member
  rcases List.mem_map.mp member with ⟨d, inside, rfl⟩
  exact alphabet.letter_mem (lt_of_mem_numeral positive d inside)

theorem mapM_digit_letter {digits : List Nat} (small : ∀ digit ∈ digits, digit < radix) :
    (digits.map alphabet.letter).mapM alphabet.digit = some digits := by
  induction digits with
  | nil => rfl
  | cons d digits ih =>
      rw [List.map_cons, List.mapM_cons, alphabet.digit_letter (small d List.mem_cons_self),
        ih fun other member => small other (List.mem_cons_of_mem d member)]
      rfl

/-- What is written is read back. -/
theorem read_write (positive : 0 < radix) {width n : Nat} (small : n < radix ^ width) :
    alphabet.read (alphabet.write width n) = some n := by
  rw [read, write, alphabet.mapM_digit_letter (lt_of_mem_numeral positive), Option.map_some,
    numeralValue_numeral small]

/-- Only letters of the alphabet are read. -/
theorem mem_of_read {text : Text} {n : Nat} (read : alphabet.read text = some n) :
    ∀ c ∈ text, c ∈ alphabet.letters := by
  rcases Option.map_eq_some_iff.mp read with ⟨digits, letters, -⟩
  clear read
  induction text generalizing digits with
  | nil => exact nofun
  | cons first text ih =>
      rw [List.mapM_cons] at letters
      rcases Option.bind_eq_some_iff.mp letters with ⟨d, digit, rest⟩
      rcases Option.bind_eq_some_iff.mp rest with ⟨others, more, -⟩
      rintro c (_ | ⟨_, member⟩)
      · rw [Alphabet.digit, Option.ite_none_right_eq_some] at digit
        exact digit.1
      · exact ih others more c member

/-- The last letter is the last digit. -/
theorem read_append_singleton {text : Text} {c : Char} {n : Nat}
    (read : alphabet.read (text ++ [c]) = some n) :
    ∃ value d, alphabet.digit c = some d ∧ n = value * radix + d := by
  rcases Option.map_eq_some_iff.mp read with ⟨digits, letters, rfl⟩
  rw [List.mapM_append] at letters
  rcases Option.bind_eq_some_iff.mp letters with ⟨front, -, rest⟩
  rcases Option.bind_eq_some_iff.mp rest with ⟨last, single, together⟩
  rcases Option.bind_eq_some_iff.mp single with ⟨d, digit, alone⟩
  obtain rfl := Option.some.inj alone
  obtain rfl := Option.some.inj together
  exact ⟨numeralValue radix front, d, digit, numeralValue_append_singleton radix front d⟩

end Alphabet

/-! ## Hex -/

/-- `HEXLOWER`. -/
def hexLower : Alphabet 16 where
  letters := "0123456789abcdef".toList
  size := rfl
  distinct := by decide

namespace Hex

variable (alphabet : Alphabet 16)

def encode (bytes : Bytes) : Text :=
  alphabet.write (2 * bytes.length) (bytesValue bytes)

def decode (text : Text) : Option Bytes :=
  if text.length % 2 = 0 then (alphabet.read text).map (bytesOfValue (text.length / 2)) else none

@[simp]
theorem length_encode (bytes : Bytes) : (encode alphabet bytes).length = 2 * bytes.length :=
  alphabet.length_write _ _

theorem decode_encode (bytes : Bytes) : decode alphabet (encode alphabet bytes) = some bytes := by
  have small : bytesValue bytes < 16 ^ (2 * bytes.length) := by
    rw [Nat.pow_mul]
    exact bytesValue_lt bytes
  rw [decode, length_encode, if_pos (by omega), encode, alphabet.read_write (by omega) small,
    Option.map_some, Nat.mul_div_cancel_left _ (by omega), bytesOfValue_bytesValue]

theorem mem_of_decode {text : Text} {bytes : Bytes} (read : decode alphabet text = some bytes) :
    ∀ c ∈ text, c ∈ alphabet.letters := by
  rw [decode, Option.ite_none_right_eq_some] at read
  rcases Option.map_eq_some_iff.mp read.2 with ⟨n, letters, -⟩
  exact alphabet.mem_of_read letters

end Hex

/-! ## Unpadded base32 -/

/-- `BASE32_NOPAD`. -/
def rfc4648 : Alphabet 32 where
  letters := "ABCDEFGHIJKLMNOPQRSTUVWXYZ234567".toList
  size := rfl
  distinct := by decide

/-- The alphabet of z-base-32. -/
def zBase32 : Alphabet 32 where
  letters := "ybndrfg8ejkmcpqxot1uwisza345h769".toList
  size := rfl
  distinct := by decide

namespace Base32

/-- How many letters a byte string of that length takes. -/
def letterCount (length : Nat) : Nat :=
  (8 * length + 4) / 5

/-- How many bits of the last letter are not used. -/
def spareBits (length : Nat) : Nat :=
  5 * letterCount length - 8 * length

variable (alphabet : Alphabet 32)

def encode (bytes : Bytes) : Text :=
  alphabet.write (letterCount bytes.length)
    (bytesValue bytes * 2 ^ spareBits bytes.length)

/-- Read a text back, if a byte string has that many letters.  A strict reader
refuses spare bits that are not zero. -/
def decode (isStrict : Bool) (text : Text) : Option Bytes :=
  let length := 5 * text.length / 8
  if letterCount length = text.length then
    (alphabet.read text).bind fun n =>
      if isStrict && n % 2 ^ spareBits length != 0 then none
      else some (bytesOfValue length (n / 2 ^ spareBits length))
  else none

@[simp]
theorem length_encode (bytes : Bytes) :
    (encode alphabet bytes).length = letterCount bytes.length :=
  alphabet.length_write _ _

theorem length_of_letterCount (length : Nat) : 5 * letterCount length / 8 = length := by
  rw [letterCount]
  omega

/-- Every byte string is read back, by a strict reader or another one. -/
theorem decode_encode (isStrict : Bool) (bytes : Bytes) :
    decode alphabet isStrict (encode alphabet bytes) = some bytes := by
  have small : bytesValue bytes * 2 ^ spareBits bytes.length <
      32 ^ letterCount bytes.length := by
    have bits : 8 * bytes.length + spareBits bytes.length = 5 * letterCount bytes.length := by
      rw [spareBits, letterCount]
      omega
    calc bytesValue bytes * 2 ^ spareBits bytes.length
        < 256 ^ bytes.length * 2 ^ spareBits bytes.length :=
          Nat.mul_lt_mul_of_pos_right (bytesValue_lt bytes) (Nat.pow_pos (by omega))
      _ = 2 ^ (8 * bytes.length) * 2 ^ spareBits bytes.length := by rw [Nat.pow_mul]
      _ = 2 ^ (5 * letterCount bytes.length) := by rw [← Nat.pow_add, bits]
      _ = 32 ^ letterCount bytes.length := by rw [Nat.pow_mul]
  have exact : bytesValue bytes * 2 ^ spareBits bytes.length %
      2 ^ spareBits bytes.length = 0 := Nat.mul_mod_left _ _
  have back : bytesValue bytes * 2 ^ spareBits bytes.length /
      2 ^ spareBits bytes.length = bytesValue bytes :=
    Nat.mul_div_cancel _ (Nat.pow_pos (by omega))
  rw [decode, length_encode, length_of_letterCount, if_pos rfl, encode, alphabet.read_write (by omega) small,
    Option.bind_some, exact, back, bytesOfValue_bytesValue]
  simp

theorem mem_of_decode {isStrict : Bool} {text : Text} {bytes : Bytes}
    (read : decode alphabet isStrict text = some bytes) : ∀ c ∈ text, c ∈ alphabet.letters := by
  rw [decode, Option.ite_none_right_eq_some] at read
  rcases Option.bind_eq_some_iff.mp read.2 with ⟨n, letters, -⟩
  exact alphabet.mem_of_read letters

/-- A strict reader refuses spare bits that are not zero. -/
theorem decode_strict_eq_none {text : Text}
    (spare : ∀ n, alphabet.read text = some n → n % 2 ^ spareBits (5 * text.length / 8) ≠ 0) :
    decode alphabet true text = none := by
  rw [decode]
  split
  · cases read : alphabet.read text with
    | none => rfl
    | some n =>
        have uneven := spare n read
        simp [uneven]
  · rfl

end Base32

end Quackhole.Word
