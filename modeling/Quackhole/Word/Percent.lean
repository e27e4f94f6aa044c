import Quackhole.Word.Text
import Mathlib.Data.List.Infix

/-!
# Percent escapes

A character that may not stand for itself is written as the bytes of its UTF-8 form, each
after a percent sign.  Reading gives the text back, whichever characters were escaped, as
long as the percent sign was.
-/

namespace Quackhole.Word.Percent

open Quackhole.Word

/-- A digit of an escape. -/
def hexDigit (n : Nat) : Char :=
  (Nat.digitChar n).toUpper

def encodeByte (byte : UInt8) : Text :=
  ['%', hexDigit (byte.toNat / 16), hexDigit (byte.toNat % 16)]

/-- A character, escaped if it is in the set. -/
def encodeChar (set : Char → Bool) (c : Char) : Text :=
  if set c then (String.utf8EncodeChar c).flatMap encodeByte else [c]

def encode (set : Char → Bool) (text : Text) : Text :=
  text.flatMap (encodeChar set)

/-- The bytes of a text with escapes, unless an escape is cut short. -/
def unescape : Text → Option Bytes
  | [] => some []
  | '%' :: high :: low :: rest =>
      match toDigit 16 high, toDigit 16 low with
      | some first, some second =>
          (unescape rest).map (UInt8.ofNat (16 * first + second) :: ·)
      | _, _ => none
  | c :: rest =>
      if c = '%' then none else (unescape rest).map (String.utf8EncodeChar c ++ ·)

/-- The text with these bytes, if there is one. -/
def fromUtf8 (bytes : Bytes) : Option Text :=
  if utf8 (fromUtf8Lossy bytes) = bytes then some (fromUtf8Lossy bytes) else none

def decodeURIComponent (text : Text) : Option Text :=
  (unescape text).bind fromUtf8

theorem fromUtf8_eq_some_iff {bytes : Bytes} {text : Text} :
    fromUtf8 bytes = some text ↔ bytes = utf8 text := by
  unfold fromUtf8
  constructor
  · intro read
    split at read
    · rename_i same
      obtain rfl := Option.some.inj read
      exact same.symm
    · cases read
  · rintro rfl
    rw [fromUtf8Lossy_utf8, if_pos rfl]

/-! ## Reading escapes -/

@[simp]
theorem unescape_nil : unescape [] = some [] :=
  rfl

theorem unescape_cons {c : Char} (plain : c ≠ '%') (rest : Text) :
    unescape (c :: rest) = (unescape rest).map (String.utf8EncodeChar c ++ ·) := by
  rw [unescape.eq_def]
  split
  · rename_i same
    cases same
  · rename_i same
    cases same
    exact absurd rfl plain
  · rename_i same
    cases same
    exact if_neg plain

/-- An escape that is cut short. -/
theorem unescape_short {rest : Text}
    (short : ∀ high low rest', '%' = '%' → rest = high :: low :: rest' → False) :
    unescape ('%' :: rest) = none := by
  rcases rest with _ | ⟨high, _ | ⟨low, rest⟩⟩
  · rfl
  · rfl
  · exact (short high low rest rfl rfl).elim

theorem toDigit_hexDigit {n : Nat} (small : n < 16) : toDigit 16 (hexDigit n) = some n := by
  have table : ∀ n < 16, toDigit 16 (hexDigit n) = some n := by decide
  exact table n small

/-- An escape, whatever follows it. -/
theorem unescape_escape {high low : Char} {first second : Nat}
    (upper : toDigit 16 high = some first) (lower : toDigit 16 low = some second) (rest : Text) :
    unescape ('%' :: high :: low :: rest) =
      (unescape rest).map (UInt8.ofNat (16 * first + second) :: ·) := by
  rw [unescape, upper, lower]

theorem unescape_encodeByte (byte : UInt8) (rest : Text) :
    unescape (encodeByte byte ++ rest) = (unescape rest).map (byte :: ·) := by
  have small := byte.toNat_lt
  have high := toDigit_hexDigit (show byte.toNat / 16 < 16 by omega)
  have low := toDigit_hexDigit (show byte.toNat % 16 < 16 by omega)
  have whole : UInt8.ofNat (16 * (byte.toNat / 16) + byte.toNat % 16) = byte := by
    rw [Nat.div_add_mod, UInt8.ofNat_toNat]
  rw [encodeByte, List.cons_append, List.cons_append, List.cons_append, List.nil_append,
    unescape_escape high low, whole]

theorem unescape_encodeBytes (bytes : Bytes) (rest : Text) :
    unescape (bytes.flatMap encodeByte ++ rest) = (unescape rest).map (bytes ++ ·) := by
  induction bytes with
  | nil => exact Option.map_id_apply.symm
  | cons byte bytes ih =>
      rw [List.flatMap_cons, List.append_assoc, unescape_encodeByte, ih, Option.map_map]
      rfl

theorem unescape_encodeChar {set : Char → Bool} {c : Char} (escaped : c = '%' → set c = true)
    (rest : Text) :
    unescape (encodeChar set c ++ rest) =
      (unescape rest).map (String.utf8EncodeChar c ++ ·) := by
  unfold encodeChar
  split
  · exact unescape_encodeBytes _ rest
  · rename_i plain
    exact unescape_cons (fun percent => plain (escaped percent)) rest

theorem unescape_encode {set : Char → Bool} {text : Text}
    (escaped : '%' ∈ text → set '%' = true) : unescape (encode set text) = some (utf8 text) := by
  induction text with
  | nil => rfl
  | cons c text ih =>
      have here : c = '%' → set c = true := by
        rintro rfl
        exact escaped List.mem_cons_self
      rw [encode, List.flatMap_cons, unescape_encodeChar here, ← encode,
        ih fun member => escaped (List.mem_cons_of_mem c member)]
      rfl

/-- A text is read back, whichever characters were escaped. -/
theorem decodeURIComponent_encode {set : Char → Bool} {text : Text}
    (escaped : '%' ∈ text → set '%' = true) :
    decodeURIComponent (encode set text) = some text := by
  rw [decodeURIComponent, unescape_encode escaped, Option.bind_some]
  exact fromUtf8_eq_some_iff.mpr rfl

theorem encode_eq_self {set : Char → Bool} {text : Text} (plain : ∀ c ∈ text, set c = false) :
    encode set text = text := by
  induction text with
  | nil => rfl
  | cons c text ih =>
      rw [encode, List.flatMap_cons, encodeChar, plain c List.mem_cons_self, ← encode,
        ih fun d member => plain d (List.mem_cons_of_mem c member)]
      rfl

/-! ## Characters that stand for themselves -/

/-- A character that is part of no escape is in what is read. -/
theorem mem_unescape {c : Char} (ascii : c.toNat < 128) (plain : c ≠ '%')
    (digit : toDigit 16 c = none) {text : Text} {bytes : Bytes}
    (read : unescape text = some bytes) (member : c ∈ text) : UInt8.ofNat c.toNat ∈ bytes := by
  induction text using unescape.induct generalizing bytes with
  | case1 => cases member
  | case2 high low rest first second lower upper ih =>
      rw [unescape_escape upper lower] at read
      rcases Option.map_eq_some_iff.mp read with ⟨others, after, rfl⟩
      rcases List.mem_cons.mp member with same | member
      · exact absurd same plain
      · rcases List.mem_cons.mp member with same | member
        · rw [← same, digit] at upper
          cases upper
        · rcases List.mem_cons.mp member with same | member
          · rw [← same, digit] at lower
            cases lower
          · exact List.mem_cons_of_mem _ (ih after member)
  | case3 high low rest short =>
      exfalso
      rw [unescape] at read
      split at read
      · exact short _ _ ‹_› ‹_›
      · cases read
  | case4 rest short =>
      rw [unescape_short short] at read
      cases read
  | case5 d rest _ other ih =>
      rw [unescape_cons other] at read
      rcases Option.map_eq_some_iff.mp read with ⟨others, after, rfl⟩
      rcases List.mem_cons.mp member with same | member
      · rw [← same, utf8EncodeChar_ascii ascii]
        exact List.mem_cons_self
      · exact List.mem_append_right _ (ih after member)

theorem mem_decodeURIComponent {c : Char} (ascii : c.toNat < 128) (plain : c ≠ '%')
    (digit : toDigit 16 c = none) {text decoded : Text}
    (read : decodeURIComponent text = some decoded) (member : c ∈ text) : c ∈ decoded := by
  rcases Option.bind_eq_some_iff.mp read with ⟨bytes, unescaped, valid⟩
  obtain rfl := fromUtf8_eq_some_iff.mp valid
  have inside := mem_unescape ascii plain digit unescaped member
  have single : utf8 [c] <:+: utf8 decoded := by
    rw [utf8_cons, utf8EncodeChar_ascii ascii, utf8_nil, List.append_nil]
    exact (List.singleton_infix_iff _ _).mpr inside
  exact (utf8_infix_of_ascii (fun d only => List.mem_singleton.mp only ▸ ascii) single).subset
    List.mem_cons_self

end Quackhole.Word.Percent
