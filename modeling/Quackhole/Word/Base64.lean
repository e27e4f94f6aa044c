import Quackhole.Word.Utf8

/-!
# Unpadded URL-safe base64

Three bytes are written as four characters of six bits each.  A last group of
one or two bytes takes two or three characters, without padding.  The decoder
is strict: the bits a short last group does not use have to be zero, so that a
byte string has one spelling only.
-/

namespace Quackhole.Word.Base64

/-- The characters for six bits: letters, digits, `-` and `_`. -/
def alphabet : Text :=
  "ABCDEFGHIJKLMNOPQRSTUVWXYZabcdefghijklmnopqrstuvwxyz0123456789-_".toList

/-- The character for a six-bit number. -/
def digit (n : Nat) : Char :=
  alphabet.getD n 'A'

/-- The six-bit number a character stands for. -/
def value (c : Char) : Option Nat :=
  if c.isUpper then some (c.toNat - 65)
  else if c.isLower then some (c.toNat - 97 + 26)
  else if c.isDigit then some (c.toNat - 48 + 52)
  else if c = '-' then some 62
  else if c = '_' then some 63
  else none

/-- What an encoding is made of. -/
def IsUrlSafe (c : Char) : Prop :=
  c.isAlphanum ∨ c = '-' ∨ c = '_'

instance (c : Char) : Decidable (IsUrlSafe c) :=
  inferInstanceAs (Decidable (_ ∨ _ ∨ _))

/-- Encode a byte string. -/
def encode : Bytes → Text
  | [] => []
  | [x] =>
      let n := x.toNat * 16
      [digit (n / 64), digit (n % 64)]
  | [x, y] =>
      let n := (x.toNat * 256 + y.toNat) * 4
      [digit (n / 4096), digit (n / 64 % 64), digit (n % 64)]
  | x :: y :: z :: bytes =>
      let n := x.toNat * 65536 + y.toNat * 256 + z.toNat
      digit (n / 262144) :: digit (n / 4096 % 64) :: digit (n / 64 % 64) :: digit (n % 64) ::
        encode bytes

/-- Decode a text, if it is the encoding of a byte string. -/
def decode : Text → Option Bytes
  | [] => some []
  | [_] => none
  | [a, b] =>
      (value a).bind fun a => (value b).bind fun b =>
        let n := a * 64 + b
        if n % 16 = 0 then some [UInt8.ofNat (n / 16)] else none
  | [a, b, c] =>
      (value a).bind fun a => (value b).bind fun b => (value c).bind fun c =>
        let n := a * 4096 + b * 64 + c
        if n % 4 = 0 then some [UInt8.ofNat (n / 1024), UInt8.ofNat (n / 4 % 256)] else none
  | a :: b :: c :: d :: text =>
      (value a).bind fun a => (value b).bind fun b => (value c).bind fun c =>
        (value d).bind fun d =>
          let n := a * 262144 + b * 4096 + c * 64 + d
          (decode text).map fun bytes =>
            UInt8.ofNat (n / 65536) :: UInt8.ofNat (n / 256 % 256) :: UInt8.ofNat (n % 256) ::
              bytes

/-- The value of a character of the alphabet is its place in it. -/
theorem value_digit {n : Nat} (small : n < 64) : value (digit n) = some n := by
  have all : ∀ n : Fin 64, value (digit n) = some n.val := by decide +kernel
  exact all ⟨n, small⟩

theorem isUrlSafe_digit (n : Nat) : IsUrlSafe (digit n) := by
  rcases Nat.lt_or_ge n 64 with small | large
  · have all : ∀ n : Fin 64, IsUrlSafe (digit n) := by decide +kernel
    exact all ⟨n, small⟩
  · have outside : digit n = 'A' := by
      rw [digit, List.getD_eq_getElem?_getD, List.getElem?_eq_none large, Option.getD_none]
    rw [outside]
    decide

/-- An encoding has only letters, digits, `-` and `_`. -/
theorem isUrlSafe_of_mem_encode {bytes : Bytes} {c : Char} (member : c ∈ encode bytes) :
    IsUrlSafe c := by
  induction bytes using encode.induct with
  | case1 => simp [encode] at member
  | case2 x =>
      simp only [encode, List.mem_cons, List.not_mem_nil, or_false] at member
      rcases member with rfl | rfl <;> apply isUrlSafe_digit
  | case3 x y =>
      simp only [encode, List.mem_cons, List.not_mem_nil, or_false] at member
      rcases member with rfl | rfl | rfl <;> apply isUrlSafe_digit
  | case4 x y z bytes ih =>
      simp only [encode, List.mem_cons] at member
      rcases member with rfl | rfl | rfl | rfl | later
      · apply isUrlSafe_digit
      · apply isUrlSafe_digit
      · apply isUrlSafe_digit
      · apply isUrlSafe_digit
      · exact ih later

/-- Only the empty byte string has the empty encoding. -/
theorem encode_ne_nil {bytes : Bytes} (nonempty : bytes ≠ []) : encode bytes ≠ [] := by
  match bytes with
  | [] => exact absurd rfl nonempty
  | [_] => simp [encode]
  | [_, _] => simp [encode]
  | _ :: _ :: _ :: _ => simp [encode]

/-- A byte is read back from its number. -/
theorem ofNat_of_eq_toNat {n : Nat} {x : UInt8} (same : n = x.toNat) : UInt8.ofNat n = x := by
  rw [same, UInt8.ofNat_toNat]

/-- Decoding inverts encoding. -/
theorem decode_encode (bytes : Bytes) : decode (encode bytes) = some bytes := by
  induction bytes using encode.induct with
  | case1 => rfl
  | case2 x =>
      have bound := x.toNat_lt
      simp only [encode, decode]
      rw [value_digit (by omega), value_digit (by omega), Option.bind_some, Option.bind_some,
        if_pos (by omega),
        ofNat_of_eq_toNat (x := x) (by omega)]
  | case3 x y =>
      have bound := x.toNat_lt
      have bound' := y.toNat_lt
      simp only [encode, decode]
      rw [value_digit (by omega), value_digit (by omega), value_digit (by omega),
        Option.bind_some, Option.bind_some, Option.bind_some, if_pos (by omega),
        ofNat_of_eq_toNat (x := x) (by omega), ofNat_of_eq_toNat (x := y) (by omega)]
  | case4 x y z bytes ih =>
      have bound := x.toNat_lt
      have bound' := y.toNat_lt
      have bound'' := z.toNat_lt
      simp only [encode, decode]
      rw [value_digit (by omega), value_digit (by omega), value_digit (by omega),
        value_digit (by omega), Option.bind_some, Option.bind_some, Option.bind_some,
        Option.bind_some, ih, Option.map_some, ofNat_of_eq_toNat (x := x) (by omega),
        ofNat_of_eq_toNat (x := y) (by omega), ofNat_of_eq_toNat (x := z) (by omega)]

example : encode [0x51, 0x75, 0x61, 0x63] = "UXVhYw".toList := by decide

end Quackhole.Word.Base64
