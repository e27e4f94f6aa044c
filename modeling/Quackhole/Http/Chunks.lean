import Quackhole.Http.Response

/-!
# What the chunk decoder accepts

The decoder cuts a body into size lines, data and two bytes after the data that it does
not look at, and reads a size line with leniency: blanks of any kind around the size, and
a plus sign in front of it.  So it accepts more than chunked bodies, and the difference is
in the size lines and in the skipped bytes.
-/

namespace Quackhole.Http

open Quackhole.Word
open Quackhole.Compress

/-! ## Chunked bodies -/

/-- A size line as it ought to be: hex digits, blanks, and an extension. -/
structure PlainLine (line : Bytes) (size : Nat) : Prop where
  unbroken : ¬ utf8 crlf <:+: line
  written : ∃ digits blanks extension, line = utf8 (digits ++ blanks) ++ extension ∧
    digits ≠ [] ∧ digitsValue 16 0 digits = some size ∧ (∀ c ∈ blanks, c = ' ' ∨ c = '\t') ∧
    (extension = [] ∨ ∃ rest, extension = utf8 [';'] ++ rest)

/-- A chunked body and the bytes in its chunks: size lines, that many bytes and CRLF, up
to a size line of zero and whatever follows it. -/
inductive Chunked : Bytes → Bytes → Prop
  | last {line : Bytes} (trailer : Bytes) : PlainLine line 0 →
      Chunked (line ++ utf8 crlf ++ trailer) []
  | chunk {line data rest out : Bytes} : PlainLine line data.length → data ≠ [] →
      Chunked rest out → Chunked (line ++ utf8 crlf ++ data ++ utf8 crlf ++ rest) (data ++ out)

/-! ## The framing the decoder follows -/

/-- A chunk as the decoder cuts it off, with the bytes it skips. -/
structure Piece where
  line : Bytes
  data : Bytes
  skipped : Bytes

def Piece.bytes (piece : Piece) : Bytes :=
  piece.line ++ utf8 crlf ++ piece.data ++ piece.skipped

/-- The decoder reads this size in the line. -/
structure ReadsAs (bits : Nat) (line : Bytes) (size : Nat) : Prop where
  unbroken : ¬ utf8 crlf <:+: line
  parsed : parseUnsigned 16 (usizeLimit bits) (chunkSizeText line) = some size

/-- How the decoder cuts the data, up to a size line that it reads as zero. -/
inductive Cut (bits : Nat) : Bytes → List Piece → Bytes → Prop
  | last {line : Bytes} (trailer : Bytes) : ReadsAs bits line 0 →
      Cut bits (line ++ utf8 crlf ++ trailer) [] line
  | chunk {piece : Piece} {rest : Bytes} {pieces : List Piece} {line : Bytes} :
      ReadsAs bits piece.line piece.data.length → piece.data ≠ [] → piece.skipped.length = 2 →
      Cut bits rest pieces line → Cut bits (piece.bytes ++ rest) (piece :: pieces) line

/-- A size line is found in front of its CRLF. -/
theorem ReadsAs.firstChunk {bits size : Nat} {line : Bytes} (reads : ReadsAs bits line size)
    (rest : Bytes) : FirstChunk bits (line ++ utf8 crlf ++ rest) line.length size := by
  constructor
  · exact findWord_pair_line (by decide) reads.unbroken
  · rw [List.append_assoc, List.take_left]
    exact reads.parsed

theorem drop_line (line rest : Bytes) :
    (line ++ utf8 crlf ++ rest).drop (line.length + 2) = rest :=
  List.drop_left' (by simp)

/-- The first chunk is a size line, CRLF and what is left. -/
theorem FirstChunk.cut {bits lineEnd size : Nat} {data : Bytes}
    (first : FirstChunk bits data lineEnd size) :
    ReadsAs bits (data.take lineEnd) size ∧
      data = data.take lineEnd ++ utf8 crlf ++ data.drop (lineEnd + 2) := by
  rcases first with ⟨found, parsed⟩
  rcases eq_append_of_findWord (by simp) found with ⟨whole, unbroken⟩
  exact ⟨⟨unbroken, parsed⟩, whole⟩

/-- The loop over data that has been cut collects the bytes of the pieces. -/
theorem Cut.decodeChunks {bits : Nat} {data line : Bytes} {pieces : List Piece}
    (cut : Cut bits data pieces line) (out : Bytes) :
    decodeChunks bits out data = .ok (out ++ pieces.flatMap Piece.data) := by
  induction cut generalizing out with
  | last trailer reads =>
      rw [decodeChunks_of_firstChunk (reads.firstChunk trailer), if_pos rfl]
      simp
  | @chunk piece rest pieces line reads filled skipped cut ih =>
      have shape : piece.bytes ++ rest =
          piece.line ++ utf8 crlf ++ (piece.data ++ (piece.skipped ++ rest)) := by
        simp [Piece.bytes]
      have positive : piece.data.length ≠ 0 := by simpa using filled
      have after : (piece.skipped ++ rest).drop 2 = rest := List.drop_left' skipped
      rw [shape, decodeChunks_of_firstChunk (reads.firstChunk _), if_neg positive, drop_line,
        if_neg (by simp), List.take_left, List.drop_left, after, ih]
      simp

/-- Data that decodes has been cut. -/
theorem exists_cut {bits : Nat} {out data body : Bytes}
    (decoded : decodeChunks bits out data = .ok body) :
    ∃ pieces line, Cut bits data pieces line ∧ body = out ++ pieces.flatMap Piece.data := by
  induction size : data.length using Nat.strongRecOn generalizing out data with
  | ind length ih =>
      rcases decodeChunks_eq_ok_iff.mp decoded with ⟨lineEnd, chunkSize, first, next⟩
      rcases first.cut with ⟨reads, whole⟩
      rcases next with ⟨rfl, rfl⟩ | ⟨positive, fits, more⟩
      · refine ⟨[], data.take lineEnd, ?_, by simp⟩
        rw [whole]
        have cut := Cut.last (data.drop (lineEnd + 2)) reads
        rwa [← whole] at cut ⊢
      · generalize data.drop (lineEnd + 2) = rest at *
        generalize data.take lineEnd = line at *
        have shorter : ((rest.drop chunkSize).drop 2).length < length := by
          have total := congrArg List.length whole
          simp only [List.length_append, List.length_drop, utf8_crlf, List.length_cons] at total ⊢
          omega
        rcases ih _ shorter more rfl with ⟨pieces, last, cut, rfl⟩
        have nonempty : (rest.drop chunkSize).drop 2 ≠ [] := by
          intro empty
          rw [empty, Http.decodeChunks, dif_neg (by simp)] at more
          cases more
        have sized : (rest.take chunkSize).length = chunkSize := by
          rw [List.length_take, Nat.min_eq_left fits]
        have skipped : ((rest.drop chunkSize).take 2).length = 2 := by
          have remains := List.length_pos_iff.mpr nonempty
          rw [List.length_drop] at remains
          rw [List.length_take]
          omega
        let piece : Piece := ⟨line, rest.take chunkSize, (rest.drop chunkSize).take 2⟩
        have shape : data = piece.bytes ++ (rest.drop chunkSize).drop 2 := by
          rw [whole]
          simp only [piece, Piece.bytes, List.append_assoc, List.take_append_drop]
        refine ⟨piece :: pieces, last, ?_, by simp [piece]⟩
        rw [shape]
        apply Cut.chunk _ _ skipped cut
        · rw [sized]
          exact reads
        · rw [← List.length_pos_iff, sized]
          exact positive

/-! ## Size lines -/

/-- A byte that is a hex digit. -/
def isHexByte (byte : UInt8) : Bool :=
  (toDigit 16 (Char.ofNat byte.toNat)).isSome

/-- What is in front of the extension of a size line. -/
def sizeField (line : Bytes) : Bytes :=
  line.takeWhile (· ≠ 59)

/-- The size line begins with a hex digit, and in front of its extension there are only
hex digits, spaces and tabs. -/
structure Tidy (line : Bytes) : Prop where
  begins : ∃ byte ∈ line.head?, isHexByte byte = true
  plain : ∀ byte ∈ sizeField line, isHexByte byte = true ∨ byte = 32 ∨ byte = 9

theorem isHexByte_iff_of_ascii {c : Char} (ascii : c.toNat < 128) :
    isHexByte (UInt8.ofNat c.toNat) = true ↔ ∃ d, toDigit 16 c = some d := by
  have same : (UInt8.ofNat c.toNat).toNat = c.toNat := toNat_ofNat_byte (by omega)
  rw [isHexByte, same, Char.ofNat_toNat, Option.isSome_iff_exists]

theorem toNat_lt_of_toDigit {c : Char} {d : Nat} (digit : toDigit 16 c = some d) :
    c.toNat < 128 := by
  have value := (Option.filter_eq_some_iff.mp digit).1
  split_ifs at value <;> omega

/-- The bytes of hex digits and blanks are hex digits and blanks. -/
theorem mem_utf8_of_plain {text : Text}
    (plain : ∀ c ∈ text, (∃ d, toDigit 16 c = some d) ∨ c = ' ' ∨ c = '\t') :
    ∀ byte ∈ utf8 text, isHexByte byte = true ∨ byte = 32 ∨ byte = 9 := by
  intro byte member
  rcases List.mem_flatMap.mp member with ⟨c, inside, encoded⟩
  rcases plain c inside with ⟨d, digit⟩ | rfl | rfl
  · have ascii := toNat_lt_of_toDigit digit
    rw [utf8EncodeChar_ascii ascii, List.mem_singleton] at encoded
    rw [encoded]
    exact Or.inl ((isHexByte_iff_of_ascii ascii).mpr ⟨d, digit⟩)
  · exact Or.inr (Or.inl (List.mem_singleton.mp encoded))
  · exact Or.inr (Or.inr (List.mem_singleton.mp encoded))

theorem not_semicolon {byte : UInt8} (plain : isHexByte byte = true ∨ byte = 32 ∨ byte = 9) :
    byte ≠ 59 := by
  rintro rfl
  revert plain
  decide

theorem toNat_lt_of_plain {byte : UInt8}
    (plain : isHexByte byte = true ∨ byte = 32 ∨ byte = 9) : byte.toNat < 128 := by
  rcases plain with hex | rfl | rfl
  · rcases Option.isSome_iff_exists.mp hex with ⟨d, digit⟩
    have small := toNat_lt_of_toDigit digit
    have valid : byte.toNat.isValidChar := Or.inl (Nat.lt_trans byte.toNat_lt (by omega))
    rwa [Char.ofNat, dif_pos valid] at small
  · decide
  · decide

/-- Among hex digits and blanks there is no semicolon. -/
theorem semicolon_notMem {text : Text}
    (plain : ∀ c ∈ text, (∃ d, toDigit 16 c = some d) ∨ c = ' ' ∨ c = '\t') : ';' ∉ text := by
  intro member
  rcases plain ';' member with ⟨d, digit⟩ | impossible | impossible
  · exact absurd (toDigit_eq_some_iff.mp digit).1 (by simp [toDigit])
  · cases impossible
  · cases impossible

/-- In front of an extension there is what is written there. -/
theorem sizeField_append {front extension : Bytes} (plain : ∀ byte ∈ front, byte ≠ 59)
    (extended : extension = [] ∨ ∃ rest, extension = utf8 [';'] ++ rest) :
    sizeField (front ++ extension) = front := by
  rw [sizeField, List.takeWhile_append_of_pos fun byte member => decide_eq_true (plain byte member)]
  rcases extended with rfl | ⟨rest, rfl⟩
  · simp
  · have stops : (utf8 [';'] ++ rest).takeWhile (· ≠ 59) = [] := rfl
    rw [stops, List.append_nil]

theorem mem_digits_or_blanks {digits blanks : Text}
    (digit : ∀ c ∈ digits, ∃ d, toDigit 16 c = some d) (blank : ∀ c ∈ blanks, c = ' ' ∨ c = '\t') :
    ∀ c ∈ digits ++ blanks, (∃ d, toDigit 16 c = some d) ∨ c = ' ' ∨ c = '\t' := by
  intro c member
  rcases List.mem_append.mp member with written | after
  · exact Or.inl (digit c written)
  · exact Or.inr (blank c after)

/-- A line as it ought to be is tidy. -/
theorem PlainLine.tidy {line : Bytes} {size : Nat} (plain : PlainLine line size) : Tidy line := by
  rcases plain.written with ⟨digits, blanks, extension, rfl, nonempty, read, blank, extended⟩
  have digit := exists_toDigit_of_digitsValue read
  have bytes := mem_utf8_of_plain (mem_digits_or_blanks digit blank)
  constructor
  · rcases List.exists_cons_of_ne_nil nonempty with ⟨c, rest, rfl⟩
    rcases digit c List.mem_cons_self with ⟨d, value⟩
    have ascii := toNat_lt_of_toDigit value
    refine ⟨UInt8.ofNat c.toNat, ?_, (isHexByte_iff_of_ascii ascii).mpr ⟨d, value⟩⟩
    rw [List.cons_append, utf8_cons, utf8EncodeChar_ascii ascii]
    rfl
  · rw [sizeField_append (fun byte member => not_semicolon (bytes byte member)) extended]
    exact bytes

/-- What a plain line denotes is what the decoder reads in it. -/
theorem PlainLine.size_eq {bits : Nat} {line : Bytes} {size read : Nat}
    (plain : PlainLine line size) (reads : ReadsAs bits line read) : read = size := by
  rcases plain.written with ⟨digits, blanks, extension, rfl, nonempty, value, blank, extended⟩
  have digit := exists_toDigit_of_digitsValue value
  have solid : Solid digits := by
    intro c member
    rcases digit c member with ⟨d, read⟩
    exact not_isWhitespace_of_toDigit read
  have blankAfter : Blank blanks := by
    intro c member
    rcases blank c member with rfl | rfl <;> decide
  have whole := semicolon_notMem (mem_digits_or_blanks digit blank)
  have trimmed : trim (digits ++ blanks) = digits := by
    have around := trim_append_append (show Blank [] by simp [Blank]) blankAfter digits
    rwa [List.nil_append, trim_eq_self solid] at around
  have parsed := reads.parsed
  rw [chunkSizeText_append whole extended, trimmed, parseUnsigned_of_digits nonempty value] at parsed
  split at parsed
  · exact (Option.some.inj parsed).symm
  · cases parsed

/-- A text that begins with no blank is what trimming leaves and the blanks after it. -/
theorem eq_trim_append {text : Text} (begins : ∀ c ∈ text.head?, ¬ isWhitespace c) :
    ∃ blanks, text = trim text ++ blanks ∧ Blank blanks := by
  have front : text.dropWhile isWhitespace = text := by
    cases text with
    | nil => rfl
    | cons c text => simp [begins c rfl]
  refine ⟨text.rtakeWhile isWhitespace, ?_, fun c member => List.mem_rtakeWhile_imp member⟩
  rw [trim, front, List.rdropWhile, List.rtakeWhile, ← List.reverse_append,
    List.takeWhile_append_dropWhile, List.reverse_reverse]

theorem Tidy.exists_sizeField_eq_cons {line : Bytes} (tidy : Tidy line) :
    ∃ byte rest, sizeField line = byte :: rest ∧ isHexByte byte = true := by
  rcases tidy.begins with ⟨byte, first, hex⟩
  cases line with
  | nil => cases first
  | cons other rest =>
      cases first
      have stays : byte ≠ 59 := not_semicolon (Or.inl hex)
      exact ⟨byte, sizeField rest, by simp [sizeField, stays], hex⟩

/-- What is behind the size of a line is empty or begins with a semicolon. -/
theorem extension_cases (line : Bytes) :
    line.dropWhile (· ≠ 59) = [] ∨ ∃ rest, line.dropWhile (· ≠ 59) = utf8 [';'] ++ rest := by
  have stops := List.head?_dropWhile_not (fun byte : UInt8 => decide (byte ≠ 59)) line
  cases extension : line.dropWhile (fun byte : UInt8 => decide (byte ≠ 59)) with
  | nil => exact Or.inl rfl
  | cons byte rest =>
      rw [extension] at stops
      have semicolon : byte = 59 := by simpa using stops
      subst semicolon
      exact Or.inr ⟨rest, rfl⟩

/-- A tidy line is a text of hex digits and blanks, a digit first, and an extension. -/
theorem Tidy.exists_text {line : Bytes} (tidy : Tidy line) :
    ∃ text extension, line = utf8 text ++ extension ∧
      (∀ c ∈ text, (∃ d, toDigit 16 c = some d) ∨ c = ' ' ∨ c = '\t') ∧
      (∀ c ∈ text.head?, ∃ d, toDigit 16 c = some d) ∧
      (extension = [] ∨ ∃ rest, extension = utf8 [';'] ++ rest) := by
  refine ⟨(sizeField line).map fun byte => Char.ofNat byte.toNat, line.dropWhile (· ≠ 59),
    ?_, ?_, ?_, extension_cases line⟩
  · rw [utf8_map_ofNat fun byte member => toNat_lt_of_plain (tidy.plain byte member)]
    exact List.takeWhile_append_dropWhile.symm
  · intro c member
    rcases List.mem_map.mp member with ⟨byte, inside, rfl⟩
    rcases tidy.plain byte inside with hex | rfl | rfl
    · exact Or.inl (Option.isSome_iff_exists.mp hex)
    · exact Or.inr (Or.inl rfl)
    · exact Or.inr (Or.inr rfl)
  · intro c head
    rcases tidy.exists_sizeField_eq_cons with ⟨byte, rest, front, hex⟩
    rw [front] at head
    cases head
    exact Option.isSome_iff_exists.mp hex

/-- A tidy line in which the decoder reads a size is a line of that size as it ought to
be. -/
theorem Tidy.plainLine {bits : Nat} {line : Bytes} {size : Nat} (tidy : Tidy line)
    (reads : ReadsAs bits line size) : PlainLine line size := by
  rcases tidy.exists_text with ⟨text, extension, rfl, plain, begins, extended⟩
  have whole := semicolon_notMem plain
  have solid : ∀ c ∈ text.head?, ¬ isWhitespace c := by
    intro c first
    rcases begins c first with ⟨d, digit⟩
    exact not_isWhitespace_of_toDigit digit
  rcases eq_trim_append solid with ⟨blanks, split, blank⟩
  have parsed := reads.parsed
  rw [chunkSizeText_append whole extended] at parsed
  have unsigned : ∀ rest, trim text ≠ '+' :: rest := by
    intro rest signed
    rw [signed] at split
    rcases begins '+' (by rw [split]; rfl) with ⟨d, digit⟩
    exact absurd (toDigit_eq_some_iff.mp digit).1 (by simp [toDigit])
  rcases digitsValue_of_parseUnsigned unsigned parsed with ⟨nonempty, value⟩
  refine ⟨reads.unbroken, trim text, blanks, extension, by rw [← split], nonempty, value, ?_,
    extended⟩
  intro c member
  have inside : c ∈ text := by
    rw [split]
    exact List.mem_append_right _ member
  rcases plain c inside with ⟨d, digit⟩ | other
  · exact absurd (blank c member) (not_isWhitespace_of_toDigit digit)
  · exact other

/-! ## Where the decoder is right -/

/-- Wherever the decoder cuts the data: the size lines are tidy, and what it skips after
the data of a chunk is CRLF. -/
def Sound (bits : Nat) (data : Bytes) : Prop :=
  ∀ pieces line, Cut bits data pieces line →
    (∀ piece ∈ pieces, Tidy piece.line ∧ piece.skipped = utf8 crlf) ∧ Tidy line

/-- Data that is cut soundly is a chunked body. -/
theorem Cut.chunked {bits : Nat} {data line : Bytes} {pieces : List Piece}
    (cut : Cut bits data pieces line)
    (sound : ∀ piece ∈ pieces, Tidy piece.line ∧ piece.skipped = utf8 crlf) (last : Tidy line) :
    Chunked data (pieces.flatMap Piece.data) := by
  induction cut with
  | last trailer reads => exact Chunked.last trailer (last.plainLine reads)
  | @chunk piece rest pieces line reads filled skipped cut ih =>
      rcases sound piece List.mem_cons_self with ⟨tidy, ended⟩
      have following := ih (fun other member => sound other (List.mem_cons_of_mem piece member)) last
      rw [Piece.bytes, ended]
      exact Chunked.chunk (tidy.plainLine reads) filled following

/-- Lines without CRLF that are followed by CRLF are the same where the bytes are. -/
theorem line_eq {line other rest after : Bytes} (unbroken : ¬ utf8 crlf <:+: line)
    (unbrokenOther : ¬ utf8 crlf <:+: other)
    (same : line ++ utf8 crlf ++ rest = other ++ utf8 crlf ++ after) :
    line = other ∧ rest = after := by
  have found : findWord (utf8 crlf) (line ++ utf8 crlf ++ rest) = some line.length :=
    findWord_pair_line (by decide) unbroken
  have foundOther : findWord (utf8 crlf) (other ++ utf8 crlf ++ after) = some other.length :=
    findWord_pair_line (by decide) unbrokenOther
  rw [same] at found
  have length := Option.some.inj (found.symm.trans foundOther)
  rw [List.append_assoc, List.append_assoc] at same
  rcases List.append_inj same length with ⟨lines, ends⟩
  exact ⟨lines, List.append_cancel_left ends⟩

/-- A chunked body is cut soundly. -/
theorem Cut.sound {bits : Nat} {data line out : Bytes} {pieces : List Piece}
    (cut : Cut bits data pieces line) (chunked : Chunked data out) :
    (∀ piece ∈ pieces, Tidy piece.line ∧ piece.skipped = utf8 crlf) ∧ Tidy line := by
  induction cut generalizing out with
  | @last line trailer reads =>
      generalize whole : line ++ utf8 crlf ++ trailer = data at chunked
      have tidy : Tidy line := by
        cases chunked with
        | @last other after plain =>
            rcases line_eq reads.unbroken plain.unbroken whole with ⟨rfl, -⟩
            exact plain.tidy
        | @chunk other bytes rest out plain filled more =>
            simp only [List.append_assoc] at whole
            rw [← List.append_assoc, ← List.append_assoc] at whole
            rcases line_eq reads.unbroken plain.unbroken whole with ⟨rfl, -⟩
            exact plain.tidy
      exact ⟨by simp, tidy⟩
  | @chunk piece rest pieces line reads filled skipped cut ih =>
      have shape : piece.bytes ++ rest =
          piece.line ++ utf8 crlf ++ (piece.data ++ (piece.skipped ++ rest)) := by
        simp [Piece.bytes]
      rw [shape] at chunked
      generalize whole : piece.line ++ utf8 crlf ++ (piece.data ++ (piece.skipped ++ rest)) = data
        at chunked
      cases chunked with
      | @last other after plain =>
          rcases line_eq reads.unbroken plain.unbroken whole with ⟨rfl, -⟩
          have empty := List.length_eq_zero_iff.mp (plain.size_eq reads)
          exact absurd empty filled
      | @chunk other bytes after out plain _ more =>
          have regrouped : other ++ utf8 crlf ++ bytes ++ utf8 crlf ++ after =
              other ++ utf8 crlf ++ (bytes ++ (utf8 crlf ++ after)) := by
            simp
          rcases line_eq reads.unbroken plain.unbroken (whole.trans regrouped) with ⟨rfl, ends⟩
          rcases List.append_inj ends (plain.size_eq reads) with ⟨-, ends⟩
          rcases List.append_inj ends (skipped.trans rfl) with ⟨ended, rfl⟩
          rcases ih more with ⟨sound, last⟩
          refine ⟨fun other member => ?_, last⟩
          rcases List.mem_cons.mp member with rfl | later
          · exact ⟨plain.tidy, ended⟩
          · exact sound other later

/-- The decoder takes a body for what it is exactly when, wherever it cuts it, each size
line begins with a hex digit and has only hex digits, spaces and tabs in front of its
extension, and the two bytes after the data of a chunk are CRLF. -/
theorem chunked_iff_sound {bits : Nat} {data : Bytes} :
    (∀ out, decodeChunks bits [] data = .ok out → Chunked data out) ↔ Sound bits data := by
  constructor
  · intro right pieces line cut
    exact cut.sound (right _ (cut.decodeChunks []))
  · intro sound out decoded
    rcases exists_cut decoded with ⟨pieces, line, cut, rfl⟩
    rcases sound pieces line cut with ⟨tidy, last⟩
    exact cut.chunked tidy last

/-- A body of one chunk of three bytes, with this size line and these bytes after it. -/
def sampleBody (line skipped : String) : Bytes :=
  Piece.bytes ⟨utf8 line.toList, utf8 "abc".toList, utf8 skipped.toList⟩ ++
    (utf8 "0".toList ++ utf8 crlf ++ [])

/-- Bytes after the data of a chunk that are not CRLF, a plus sign in front of a size, and
a blank in front of one, are all accepted. -/
theorem accepted_not_chunked :
    (decodeChunks 64 [] (sampleBody "3" "XX") = .ok (utf8 "abc".toList) ∧
        ¬ Chunked (sampleBody "3" "XX") (utf8 "abc".toList)) ∧
      (decodeChunks 64 [] (sampleBody "+3" "\r\n") = .ok (utf8 "abc".toList) ∧
        ¬ Chunked (sampleBody "+3" "\r\n") (utf8 "abc".toList)) ∧
      decodeChunks 64 [] (sampleBody " 3" "\r\n") = .ok (utf8 "abc".toList) ∧
        ¬ Chunked (sampleBody " 3" "\r\n") (utf8 "abc".toList) := by
  have accepts : ∀ line skipped : String, ReadsAs 64 (utf8 line.toList) 3 →
      (utf8 skipped.toList).length = 2 →
      ¬ (Tidy (utf8 line.toList) ∧ utf8 skipped.toList = utf8 crlf) →
      decodeChunks 64 [] (sampleBody line skipped) = .ok (utf8 "abc".toList) ∧
        ¬ Chunked (sampleBody line skipped) (utf8 "abc".toList) := by
    intro line skipped reads two slips
    have zero : ReadsAs 64 (utf8 "0".toList) 0 := ⟨by decide, by decide⟩
    let piece : Piece := ⟨utf8 line.toList, utf8 "abc".toList, utf8 skipped.toList⟩
    have filled : utf8 "abc".toList ≠ [] := by decide
    have cut : Cut 64 (sampleBody line skipped) [piece] (utf8 "0".toList) :=
      Cut.chunk reads filled two (Cut.last [] zero)
    constructor
    · simpa [piece] using cut.decodeChunks []
    · exact fun chunked => slips ((cut.sound chunked).1 piece List.mem_cons_self)
  have untidy : ∀ byte rest, isHexByte byte = false → ¬ Tidy (byte :: rest) := by
    rintro byte rest other ⟨⟨first, member, hex⟩, -⟩
    cases member
    cases other.symm.trans hex
  refine ⟨accepts _ _ ⟨by decide, by decide⟩ (by decide) ?_,
    accepts _ _ ⟨by decide, by decide⟩ (by decide) ?_,
    accepts _ _ ⟨by decide, by decide⟩ (by decide) ?_⟩
  · rintro ⟨-, impossible⟩
    revert impossible
    decide
  · exact fun both => untidy _ _ (by decide) both.1
  · exact fun both => untidy _ _ (by decide) both.1

end Quackhole.Http
