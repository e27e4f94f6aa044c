import Quackhole.Word.Text

/-!
# Asking for a compressed response

The client asks with one request header and the serving side reads the request
head for it.  Both halves are here: the header's name and value, where the head
of a request ends, and whether a head asks.  The magic that announces an
enveloped response belongs to the same agreement.
-/

namespace Quackhole.Compress

open Quackhole.Word

/-- `ACCEPT_HEADER`: what a client sends to say it can read a compressed
response. -/
def acceptHeader : Text :=
  "X-Quackhole-Accept-Encoding".toList

/-- `ACCEPT_VALUE`: the one coding. -/
def acceptValue : Text :=
  "gzip".toList

/-- `MAGIC`: marks a response stream as enveloped. -/
def magic : Bytes :=
  0 :: utf8 "QHZ1".toList

/-- The bytes that end a head. -/
def headTerminator : Bytes :=
  [13, 10, 13, 10]

/-- CRLF, as characters. -/
def crlf : Text :=
  ['\r', '\n']

/-- `head_end`: where a request's header block ends, if all of it has arrived. -/
def headEnd (buf : Bytes) : Option Nat :=
  (findWord headTerminator buf).map (· + 4)

/-- Does one line of a head ask for the coding this server has? -/
def lineAsks (line : Text) : Bool :=
  match splitOnce ':' line with
  | none => false
  | some (name, value) =>
      eqIgnoreAsciiCase (trim name) acceptHeader &&
        (value.splitOn ',').any fun coding => eqIgnoreAsciiCase (trim coding) acceptValue

/-- `wants_compression`: does this request head ask for a compressed response?
A bare LF is not a line boundary. -/
def wantsCompression (head : Bytes) : Bool :=
  (splitWord crlf (fromUtf8Lossy head)).any lineAsks

theorem headTerminator_ne_nil : headTerminator ≠ [] := by
  simp [headTerminator]

theorem crlf_ne_nil : crlf ≠ [] := by
  simp [crlf]

@[simp]
theorem utf8_crlf : utf8 crlf = [13, 10] :=
  rfl

theorem isAscii_crlf : IsAscii crlf := by
  decide

theorem headEnd_eq_some_iff {buf : Bytes} {n : Nat} :
    headEnd buf = some n ↔ ∃ i, findWord headTerminator buf = some i ∧ n = i + 4 := by
  rw [headEnd, Option.map_eq_some_iff]
  exact exists_congr fun i => and_congr_right fun _ => eq_comm

/-- A prefix that reaches the end of the head finds it. -/
theorem headEnd_prefix_of_le {short long : Bytes} {n : Nat} (isPrefix : short <+: long)
    (reaches : n ≤ short.length) (ended : headEnd long = some n) : headEnd short = some n := by
  obtain ⟨i, found, rfl⟩ := headEnd_eq_some_iff.mp ended
  exact headEnd_eq_some_iff.mpr
    ⟨i, findWord_prefix_of_le headTerminator_ne_nil isPrefix reaches found, rfl⟩

/-- A prefix cut inside the head has no end of head. -/
theorem headEnd_prefix_of_lt {short long : Bytes} {n : Nat} (isPrefix : short <+: long)
    (cut : short.length < n) (ended : headEnd long = some n) : headEnd short = none := by
  obtain ⟨i, found, rfl⟩ := headEnd_eq_some_iff.mp ended
  rw [headEnd, findWord_prefix_of_lt headTerminator_ne_nil isPrefix cut found]
  rfl

/-! ## Blocks of lines -/

theorem utf8_crlf_isInfix {line : Text} (isInfix : [13, 10] <:+: utf8 line) : crlf <:+: line :=
  utf8_infix_of_ascii isAscii_crlf (by simpa using isInfix)

theorem utf8_lines (lines : List Text) :
    utf8 (lines.flatMap (· ++ crlf)) = (lines.map utf8).flatMap (· ++ [13, 10]) := by
  induction lines with
  | nil => rfl
  | cons line lines ih => simp only [List.flatMap_cons, List.map_cons, utf8_append, utf8_crlf, ih]

/-- A block of nonempty lines and an empty one end a head where the last line
ends, whatever follows. -/
theorem findWord_headTerminator_lines {lines : List Text} (nonempty : lines ≠ [])
    (filled : ∀ line ∈ lines, line ≠ []) (absent : ∀ line ∈ lines, ¬ crlf <:+: line)
    (rest : Bytes) :
    findWord headTerminator (utf8 (lines.flatMap (· ++ crlf) ++ crlf) ++ rest) =
      some (utf8 (crlf.intercalate lines)).length := by
  have found : findWord headTerminator
      ((lines.map utf8).flatMap (· ++ [13, 10]) ++ ([13, 10] ++ rest)) =
      some (((lines.map utf8).flatMap (· ++ [13, 10])).length - 2) := by
    refine findWord_doubled_block (by decide) rest (by simpa using nonempty) ?_ ?_
    · intro line member empty
      rcases List.mem_map.mp member with ⟨text, textMem, rfl⟩
      exact filled text textMem (utf8_injective empty)
    · intro line member isInfix
      rcases List.mem_map.mp member with ⟨text, textMem, rfl⟩
      exact absent text textMem (utf8_crlf_isInfix isInfix)
  have joined := congrArg utf8 (flatMap_append_eq_intercalate crlf nonempty)
  rw [← utf8_lines, joined] at found
  rw [flatMap_append_eq_intercalate crlf nonempty, utf8_append, utf8_crlf, List.append_assoc,
    found]
  simp

/-- Lines joined by CRLF are read as those lines. -/
theorem splitWord_crlf_intercalate {lines : List Text} (nonempty : lines ≠ [])
    (absent : ∀ line ∈ lines, ¬ crlf <:+: line) :
    splitWord crlf (crlf.intercalate lines) = lines :=
  splitWord_pair_intercalate (by decide) nonempty absent

/-- A line asks when it is the accept header written the way the client writes
it. -/
theorem lineAsks_accept : lineAsks (acceptHeader ++ ": ".toList ++ acceptValue) = true := by
  decide

end Quackhole.Compress
