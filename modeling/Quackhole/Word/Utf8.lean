import Quackhole.Word.Search

/-!
# UTF-8, read strictly and read with replacement

Text is a list of Unicode scalar values and its byte form is the usual
encoding.  The decoder is the one that never fails: it replaces every maximal
piece that begins no well-formed sequence by U+FFFD and goes on with the byte
that broke it.  It is a machine over single bytes, so it recurses on the bytes
themselves and can be run.
-/

namespace Quackhole.Word

abbrev Bytes := List UInt8

abbrev Text := List Char

/-- The UTF-8 encoding of a text. -/
def utf8 (text : Text) : Bytes :=
  text.flatMap String.utf8EncodeChar

@[simp]
theorem utf8_nil : utf8 [] = [] :=
  rfl

@[simp]
theorem utf8_cons (c : Char) (text : Text) :
    utf8 (c :: text) = String.utf8EncodeChar c ++ utf8 text :=
  rfl

@[simp]
theorem utf8_append (first second : Text) : utf8 (first ++ second) = utf8 first ++ utf8 second := by
  simp [utf8]

theorem utf8EncodeChar_ascii {c : Char} (ascii : c.toNat < 128) :
    String.utf8EncodeChar c = [UInt8.ofNat c.toNat] := by
  have small : c.val.toNat ≤ 0x7f := Nat.le_of_lt_succ ascii
  unfold String.utf8EncodeChar
  exact if_pos small

/-- ASCII bytes are the text of the characters they number. -/
theorem utf8_map_ofNat {bytes : Bytes} (ascii : ∀ byte ∈ bytes, byte.toNat < 128) :
    utf8 (bytes.map fun byte => Char.ofNat byte.toNat) = bytes := by
  induction bytes with
  | nil => rfl
  | cons byte bytes ih =>
      have small := ascii byte List.mem_cons_self
      have valid : byte.toNat.isValidChar := Or.inl (Nat.lt_trans small (by omega))
      have value : (Char.ofNat byte.toNat).toNat = byte.toNat := by
        rw [Char.ofNat, dif_pos valid]
        rfl
      rw [List.map_cons, utf8_cons, utf8EncodeChar_ascii (by rwa [value]), value,
        UInt8.ofNat_toNat, ih fun other member => ascii other (List.mem_cons_of_mem byte member)]
      rfl

/-- No byte of a character beyond ASCII is an ASCII byte. -/
theorem le_toNat_of_mem_utf8EncodeChar {c : Char} (high : 128 ≤ c.toNat) {byte : UInt8}
    (member : byte ∈ String.utf8EncodeChar c) : 128 ≤ byte.toNat := by
  have large : ¬ c.val.toNat ≤ 0x7f := Nat.not_le.mpr high
  unfold String.utf8EncodeChar at member
  simp only [large, if_false] at member
  split at member
  · simp only [List.mem_cons, List.not_mem_nil, or_false] at member
    rcases member with rfl | rfl <;> rw [UInt8.toNat_ofNat'] <;> omega
  · split at member
    · simp only [List.mem_cons, List.not_mem_nil, or_false] at member
      rcases member with rfl | rfl | rfl <;> rw [UInt8.toNat_ofNat'] <;> omega
    · simp only [List.mem_cons, List.not_mem_nil, or_false] at member
      rcases member with rfl | rfl | rfl | rfl <;> rw [UInt8.toNat_ofNat'] <;> omega

/-! ## ASCII patterns are found in the bytes exactly where they are in the text -/

/-- A text of ASCII characters only. -/
def IsAscii (text : Text) : Prop :=
  ∀ c ∈ text, c.toNat < 128

instance (text : Text) : Decidable (IsAscii text) :=
  List.decidableBAll (fun c : Char => c.toNat < 128) text

theorem utf8_prefix_of_ascii {pattern text : Text} (ascii : IsAscii pattern)
    (isPrefix : utf8 pattern <+: utf8 text) : pattern <+: text := by
  induction pattern generalizing text with
  | nil => exact List.nil_prefix
  | cons p pattern ih =>
      have pAscii : p.toNat < 128 := ascii p List.mem_cons_self
      have restAscii : IsAscii pattern := fun c member => ascii c (List.mem_cons_of_mem p member)
      rw [utf8_cons, utf8EncodeChar_ascii pAscii] at isPrefix
      cases text with
      | nil => simp at isPrefix
      | cons c text =>
          by_cases cAscii : c.toNat < 128
          · rw [utf8_cons, utf8EncodeChar_ascii cAscii] at isPrefix
            obtain ⟨byte_eq, rest⟩ := List.cons_prefix_cons.mp isPrefix
            have value_eq := congrArg UInt8.toNat byte_eq
            rw [UInt8.toNat_ofNat', UInt8.toNat_ofNat'] at value_eq
            have same : p = c := by
              apply Char.toNat_inj.mp
              omega
            subst same
            exact List.cons_prefix_cons.mpr ⟨rfl, ih restAscii rest⟩
          · rw [utf8_cons] at isPrefix
            cases encoded : String.utf8EncodeChar c with
            | nil => exact absurd encoded String.utf8EncodeChar_ne_nil
            | cons byte bytes =>
                rw [encoded] at isPrefix
                have member : byte ∈ String.utf8EncodeChar c := by
                  rw [encoded]
                  exact List.mem_cons_self
                have high := le_toNat_of_mem_utf8EncodeChar (Nat.le_of_not_lt cAscii) member
                have byte_eq := (List.cons_prefix_cons.mp isPrefix).1
                rw [← byte_eq, UInt8.toNat_ofNat'] at high
                omega

/-- Bytes that are all beyond ASCII in front of a word add no occurrence of a
pattern that begins with an ASCII byte. -/
theorem infix_of_high_append {byte : UInt8} {pattern high word : Bytes}
    (ascii : byte.toNat < 128) (beyond : ∀ b ∈ high, 128 ≤ b.toNat)
    (isInfix : byte :: pattern <:+: high ++ word) : byte :: pattern <:+: word := by
  induction high with
  | nil => exact isInfix
  | cons first high ih =>
      rcases List.infix_cons_iff.mp isInfix with here | later
      · have same := (List.cons_prefix_cons.mp here).1
        have bound := beyond first List.mem_cons_self
        rw [← same] at bound
        omega
      · exact ih (fun b member => beyond b (List.mem_cons_of_mem first member)) later

theorem utf8_infix_of_ascii {pattern text : Text} (ascii : IsAscii pattern)
    (isInfix : utf8 pattern <:+: utf8 text) : pattern <:+: text := by
  cases pattern with
  | nil => exact List.nil_infix
  | cons p pattern =>
      have pAscii : p.toNat < 128 := ascii p List.mem_cons_self
      have byte_lt : (UInt8.ofNat p.toNat).toNat < 128 := by
        rw [UInt8.toNat_ofNat']
        omega
      induction text with
      | nil =>
          rw [utf8_cons, utf8EncodeChar_ascii pAscii] at isInfix
          simp at isInfix
      | cons c text ih =>
          by_cases cAscii : c.toNat < 128
          · rw [utf8_cons c, utf8EncodeChar_ascii cAscii] at isInfix
            rcases List.infix_cons_iff.mp isInfix with here | later
            · have encoded : utf8 (p :: pattern) <+: utf8 (c :: text) := by
                rw [utf8_cons c, utf8EncodeChar_ascii cAscii]
                exact here
              exact (utf8_prefix_of_ascii ascii encoded).isInfix
            · exact (ih later).trans (List.suffix_cons c text).isInfix
          · rw [utf8_cons p, utf8EncodeChar_ascii pAscii, utf8_cons c] at isInfix
            have later := infix_of_high_append byte_lt
              (fun b => le_toNat_of_mem_utf8EncodeChar (Nat.le_of_not_lt cAscii)) isInfix
            refine (ih ?_).trans (List.suffix_cons c text).isInfix
            rw [utf8_cons p, utf8EncodeChar_ascii pAscii]
            exact later

/-! ## Decoding with replacement -/

/-- A sequence that has begun: the scalar value so far, how many continuation
bytes are owed, and the range the next one has to lie in. -/
structure Pending where
  point : Nat
  owed : Nat
  lower : Nat
  upper : Nat
  deriving DecidableEq, Repr

/-- U+FFFD, what an ill-formed piece is read as. -/
def replacement : Char :=
  Char.ofNat 0xFFFD

/-- Read a byte where no sequence is pending. -/
def readFirst (byte : UInt8) : Text × Option Pending :=
  let v := byte.toNat
  if v < 0x80 then ([Char.ofNat v], none)
  else if v < 0xC2 then ([replacement], none)
  else if v < 0xE0 then ([], some ⟨v - 0xC0, 1, 0x80, 0xBF⟩)
  else if v < 0xF0 then
    ([], some ⟨v - 0xE0, 2, if v = 0xE0 then 0xA0 else 0x80, if v = 0xED then 0x9F else 0xBF⟩)
  else if v < 0xF5 then
    ([], some ⟨v - 0xF0, 3, if v = 0xF0 then 0x90 else 0x80, if v = 0xF4 then 0x8F else 0xBF⟩)
  else ([replacement], none)

/-- Read one byte.  A byte that does not continue the pending sequence ends it
as an ill-formed piece and is read again from the start. -/
def readByte : Option Pending → UInt8 → Text × Option Pending
  | none, byte => readFirst byte
  | some pending, byte =>
      let v := byte.toNat
      if pending.lower ≤ v ∧ v ≤ pending.upper then
        let point := pending.point * 64 + (v - 0x80)
        if pending.owed = 1 then ([Char.ofNat point], none)
        else ([], some ⟨point, pending.owed - 1, 0x80, 0xBF⟩)
      else (replacement :: (readFirst byte).1, (readFirst byte).2)

/-- Decode from a pending sequence to the end of the bytes. -/
def decodeFrom : Option Pending → Bytes → Text
  | none, [] => []
  | some _, [] => [replacement]
  | pending, byte :: bytes =>
      (readByte pending byte).1 ++ decodeFrom (readByte pending byte).2 bytes

/-- The text of arbitrary bytes, each ill-formed piece replaced by U+FFFD. -/
def fromUtf8Lossy (bytes : Bytes) : Text :=
  decodeFrom none bytes

@[simp]
theorem decodeFrom_cons (pending : Option Pending) (byte : UInt8) (bytes : Bytes) :
    decodeFrom pending (byte :: bytes) =
      (readByte pending byte).1 ++ decodeFrom (readByte pending byte).2 bytes := by
  cases pending <;> rfl

@[simp]
theorem readByte_none (byte : UInt8) : readByte none byte = readFirst byte :=
  rfl

theorem toNat_ofNat_byte {n : Nat} (small : n < 256) : (UInt8.ofNat n).toNat = n := by
  rw [UInt8.toNat_ofNat']
  omega

/-! One rule for each kind of byte in a well-formed sequence. -/

theorem readFirst_ascii {n : Nat} (low : n < 0x80) :
    readFirst (UInt8.ofNat n) = ([Char.ofNat n], none) := by
  simp only [readFirst]
  rw [toNat_ofNat_byte (by omega), if_pos low]

theorem readFirst_two {n : Nat} (lower : 0xC2 ≤ n) (upper : n < 0xE0) :
    readFirst (UInt8.ofNat n) = ([], some ⟨n - 0xC0, 1, 0x80, 0xBF⟩) := by
  simp only [readFirst]
  rw [toNat_ofNat_byte (by omega), if_neg (by omega), if_neg (by omega), if_pos upper]

theorem readFirst_three {n : Nat} (lower : 0xE0 ≤ n) (upper : n < 0xF0) :
    readFirst (UInt8.ofNat n) = ([], some ⟨n - 0xE0, 2, if n = 0xE0 then 0xA0 else 0x80,
      if n = 0xED then 0x9F else 0xBF⟩) := by
  simp only [readFirst]
  rw [toNat_ofNat_byte (by omega), if_neg (by omega), if_neg (by omega), if_neg (by omega),
    if_pos upper]

theorem readFirst_four {n : Nat} (lower : 0xF0 ≤ n) (upper : n < 0xF5) :
    readFirst (UInt8.ofNat n) = ([], some ⟨n - 0xF0, 3, if n = 0xF0 then 0x90 else 0x80,
      if n = 0xF4 then 0x8F else 0xBF⟩) := by
  simp only [readFirst]
  rw [toNat_ofNat_byte (by omega), if_neg (by omega), if_neg (by omega), if_neg (by omega),
    if_neg (by omega), if_pos upper]

/-- The last byte a sequence is owed completes its character. -/
theorem readByte_last {point lower upper n : Nat} (small : n < 256)
    (inside : lower ≤ n ∧ n ≤ upper) :
    readByte (some ⟨point, 1, lower, upper⟩) (UInt8.ofNat n) =
      ([Char.ofNat (point * 64 + (n - 0x80))], none) := by
  simp only [readByte]
  rw [toNat_ofNat_byte small, if_pos inside, if_true]

/-- Another byte a sequence is owed goes on with it. -/
theorem readByte_more {point owed lower upper n : Nat} (small : n < 256)
    (inside : lower ≤ n ∧ n ≤ upper) :
    readByte (some ⟨point, owed + 2, lower, upper⟩) (UInt8.ofNat n) =
      ([], some ⟨point * 64 + (n - 0x80), owed + 1, 0x80, 0xBF⟩) := by
  simp only [readByte]
  rw [toNat_ofNat_byte small, if_pos inside, if_neg (by omega)]
  rfl

/-- The encoding of one character is read as that character, whatever follows. -/
theorem decodeFrom_utf8EncodeChar_append (c : Char) (bytes : Bytes) :
    decodeFrom none (String.utf8EncodeChar c ++ bytes) = c :: decodeFrom none bytes := by
  have scalar : c.val.toNat < 0xD800 ∨ 0xDFFF < c.val.toNat ∧ c.val.toNat < 0x110000 := c.valid
  have self : Char.ofNat c.val.toNat = c := Char.ofNat_toNat c
  generalize valueEq : c.val.toNat = v at scalar self
  unfold String.utf8EncodeChar
  rw [valueEq]
  by_cases one : v ≤ 0x7f
  · simp only [one, if_true, List.cons_append, List.nil_append, decodeFrom_cons, readByte_none]
    rw [readFirst_ascii (by omega), self]
    rfl
  · by_cases two : v ≤ 0x7ff
    · have joined : (v / 64 % 32 + 192 - 192) * 64 + (v % 64 + 128 - 128) = v := by omega
      simp only [one, two, if_true, if_false, List.cons_append, List.nil_append, decodeFrom_cons,
        readByte_none]
      rw [readFirst_two (by omega) (by omega), readByte_last (by omega) (by omega), joined, self]
      rfl
    · by_cases three : v ≤ 0xffff
      · have inRange : (if v / 4096 % 16 + 224 = 0xE0 then 0xA0 else 0x80) ≤ v / 64 % 64 + 128 ∧
            v / 64 % 64 + 128 ≤ if v / 4096 % 16 + 224 = 0xED then 0x9F else 0xBF := by
          constructor <;> split <;> omega
        have joined : ((v / 4096 % 16 + 224 - 224) * 64 + (v / 64 % 64 + 128 - 128)) * 64 +
            (v % 64 + 128 - 128) = v := by omega
        simp only [one, two, three, if_true, if_false, List.cons_append, List.nil_append,
          decodeFrom_cons, readByte_none]
        rw [readFirst_three (by omega) (by omega), readByte_more (by omega) inRange,
          readByte_last (by omega) (by omega), joined, self]
        rfl
      · have inRange : (if v / 262144 % 8 + 240 = 0xF0 then 0x90 else 0x80) ≤ v / 4096 % 64 + 128 ∧
            v / 4096 % 64 + 128 ≤ if v / 262144 % 8 + 240 = 0xF4 then 0x8F else 0xBF := by
          constructor <;> split <;> omega
        have joined : (((v / 262144 % 8 + 240 - 240) * 64 + (v / 4096 % 64 + 128 - 128)) * 64 +
            (v / 64 % 64 + 128 - 128)) * 64 + (v % 64 + 128 - 128) = v := by omega
        simp only [one, two, three, if_false, List.cons_append, List.nil_append, decodeFrom_cons,
          readByte_none]
        rw [readFirst_four (by omega) (by omega), readByte_more (by omega) inRange,
          readByte_more (by omega) (by omega), readByte_last (by omega) (by omega), joined, self]
        rfl

/-- Well-formed UTF-8 is decoded to its text, whatever bytes follow. -/
theorem fromUtf8Lossy_utf8_append (text : Text) (bytes : Bytes) :
    fromUtf8Lossy (utf8 text ++ bytes) = text ++ fromUtf8Lossy bytes := by
  induction text with
  | nil => rfl
  | cons c text ih =>
      rw [utf8_cons, List.append_assoc, fromUtf8Lossy, decodeFrom_utf8EncodeChar_append]
      exact congrArg (c :: ·) ih

@[simp]
theorem fromUtf8Lossy_utf8 (text : Text) : fromUtf8Lossy (utf8 text) = text := by
  simpa [fromUtf8Lossy, decodeFrom] using fromUtf8Lossy_utf8_append text []

/-- Two texts with the same bytes are the same text. -/
theorem utf8_injective : Function.Injective utf8 := by
  intro first second equal
  rw [← fromUtf8Lossy_utf8 first, equal, fromUtf8Lossy_utf8]

/-- A truncated sequence is read as one replacement and the bytes after it are
not lost. -/
example : fromUtf8Lossy [0x61, 0xE2, 0x82, 0x62] = ['a', replacement, 'b'] := by decide

end Quackhole.Word
