import Quackhole.Word.Percent

/-!
# The query of a URL

Names and values joined by `=` and `&`, with escapes.  A reader forgives everything: an
escape that is cut short stands for itself, and a plus is a space.  What was escaped with
care reads back.
-/

namespace Quackhole.Word.Form

open Quackhole.Word Percent

/-- The bytes of a text with escapes, where a percent sign that begins none is itself. -/
def percentDecode : Text → Bytes
  | [] => []
  | '%' :: high :: low :: rest =>
      match toDigit 16 high, toDigit 16 low with
      | some first, some second => UInt8.ofNat (16 * first + second) :: percentDecode rest
      | _, _ => String.utf8EncodeChar '%' ++ percentDecode (high :: low :: rest)
  | c :: rest => String.utf8EncodeChar c ++ percentDecode rest

/-- A plus is a space. -/
def unplus (c : Char) : Char :=
  if c = '+' then ' ' else c

/-- A name or a value. -/
def component (text : Text) : Text :=
  fromUtf8Lossy (percentDecode (text.map unplus))

/-- A name and a value, at the first equals sign. -/
def pair (text : Text) : Text × Text :=
  match splitOnce '=' text with
  | some (name, value) => (component name, component value)
  | none => (component text, [])

/-- A query without its question mark. -/
def unmarked : Text → Text
  | '?' :: rest => rest
  | rest => rest

/-- `new URLSearchParams`. -/
def parse (query : Text) : List (Text × Text) :=
  (((unmarked query).splitOn '&').filter fun piece => !piece.isEmpty).map pair

/-- The query of a list of pairs, where some characters are escaped. -/
def query (set : Char → Bool) (pairs : List (Text × Text)) : Text :=
  '?' :: ['&'].intercalate (pairs.map fun entry => encode set entry.1 ++ '=' :: encode set entry.2)

/-- Everything that means something in a query is escaped. -/
structure Careful (set : Char → Bool) : Prop where
  percent : set '%' = true
  ampersand : set '&' = true
  equals : set '=' = true
  plus : set '+' = true

/-! ## What an escaped text has in it -/

theorem mem_encodeByte {byte : UInt8} {c : Char} (member : c ∈ encodeByte byte) :
    c = '%' ∨ ∃ n < 16, c = hexDigit n := by
  have small := byte.toNat_lt
  rcases List.mem_cons.mp member with percent | member
  · exact Or.inl percent
  · rcases List.mem_pair.mp member with high | low
    · exact Or.inr ⟨byte.toNat / 16, by omega, high⟩
    · exact Or.inr ⟨byte.toNat % 16, by omega, low⟩

/-- A character that is escaped is gone, if it is no part of an escape. -/
theorem notMem_encode {set : Char → Bool} {c : Char} (escaped : set c = true) (plain : c ≠ '%')
    (digit : ∀ n < 16, c ≠ hexDigit n) (text : Text) : c ∉ encode set text := by
  intro member
  obtain ⟨d, -, inside⟩ := List.mem_flatMap.mp member
  rw [encodeChar] at inside
  split at inside
  · obtain ⟨byte, -, part⟩ := List.mem_flatMap.mp inside
    rcases mem_encodeByte part with percent | ⟨n, small, same⟩
    · exact plain percent
    · exact digit n small same
  · rename_i kept
    obtain rfl := List.mem_singleton.mp inside
    exact kept escaped

namespace Careful

variable {set : Char → Bool}

theorem notMem_plus (careful : Careful set) (text : Text) : '+' ∉ encode set text :=
  notMem_encode careful.plus (by decide) (by decide) text

theorem notMem_equals (careful : Careful set) (text : Text) : '=' ∉ encode set text :=
  notMem_encode careful.equals (by decide) (by decide) text

theorem notMem_ampersand (careful : Careful set) (text : Text) : '&' ∉ encode set text :=
  notMem_encode careful.ampersand (by decide) (by decide) text

end Careful

/-! ## Reading -/

theorem percentDecode_escape {high low : Char} {first second : Nat}
    (upper : toDigit 16 high = some first) (lower : toDigit 16 low = some second) (rest : Text) :
    percentDecode ('%' :: high :: low :: rest) =
      UInt8.ofNat (16 * first + second) :: percentDecode rest := by
  rw [percentDecode, upper, lower]

theorem percentDecode_cons {c : Char} (plain : c ≠ '%') (rest : Text) :
    percentDecode (c :: rest) = String.utf8EncodeChar c ++ percentDecode rest := by
  rw [percentDecode.eq_def]
  split
  · rename_i same
    cases same
  · rename_i same
    cases same
    exact absurd rfl plain
  · rename_i same
    cases same
    rfl

/-- What a strict reader accepts, a forgiving one reads alike. -/
theorem percentDecode_of_unescape {text : Text} {bytes : Bytes}
    (read : unescape text = some bytes) : percentDecode text = bytes := by
  induction text using unescape.induct generalizing bytes with
  | case1 => exact Option.some.inj read
  | case2 high low rest first second lower upper ih =>
      rw [unescape_escape upper lower] at read
      obtain ⟨others, after, rfl⟩ := Option.map_eq_some_iff.mp read
      rw [percentDecode_escape upper lower, ih after]
  | case3 high low rest short =>
      exfalso
      rw [unescape] at read
      split at read
      · exact short _ _ ‹_› ‹_›
      · cases read
  | case4 rest short =>
      rw [unescape_short short] at read
      cases read
  | case5 d rest _ other ih =>
      rw [unescape_cons other] at read
      obtain ⟨others, after, rfl⟩ := Option.map_eq_some_iff.mp read
      rw [percentDecode_cons other, ih after]

/-- An escaped name or value reads back. -/
theorem component_encode {set : Char → Bool} (careful : Careful set) (text : Text) :
    component (encode set text) = text := by
  have kept : (encode set text).map unplus = encode set text := by
    apply (List.map_congr_left fun c member => ?_).trans (List.map_id _)
    refine if_neg fun same => careful.notMem_plus text ?_
    rwa [← same]
  rw [component, kept, percentDecode_of_unescape (unescape_encode fun _ => careful.percent),
    fromUtf8Lossy_utf8]

theorem pair_encode {set : Char → Bool} (careful : Careful set) (entry : Text × Text) :
    pair (encode set entry.1 ++ '=' :: encode set entry.2) = entry := by
  rw [pair, splitOnce_append (careful.notMem_equals entry.1)]
  dsimp only
  rw [component_encode careful, component_encode careful]

/-- A query that was written with care reads back. -/
theorem parse_query {set : Char → Bool} (careful : Careful set) (pairs : List (Text × Text)) :
    parse (query set pairs) = pairs := by
  have body : unmarked (query set pairs) = ['&'].intercalate (pairs.map fun entry =>
      encode set entry.1 ++ '=' :: encode set entry.2) := rfl
  rw [parse, body]
  cases pairs with
  | nil => rfl
  | cons entry pairs =>
      have apart : ∀ piece ∈ (entry :: pairs).map fun entry =>
          encode set entry.1 ++ '=' :: encode set entry.2, '&' ∉ piece := by
        intro piece member
        obtain ⟨one, -, rfl⟩ := List.mem_map.mp member
        rw [List.mem_append, List.mem_cons, not_or, not_or]
        exact ⟨careful.notMem_ampersand one.1, by decide, careful.notMem_ampersand one.2⟩
      have filled : ∀ piece ∈ (entry :: pairs).map fun entry =>
          encode set entry.1 ++ '=' :: encode set entry.2, (!piece.isEmpty) = true := by
        intro piece member
        obtain ⟨one, -, rfl⟩ := List.mem_map.mp member
        simp
      rw [List.splitOn_intercalate _ apart (by simp), List.filter_eq_self.mpr filled, List.map_map]
      apply (List.map_congr_left fun one _ => ?_).trans (List.map_id _)
      exact pair_encode careful one

end Quackhole.Word.Form
