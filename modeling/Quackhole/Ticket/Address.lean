import Quackhole.Ticket.Peer

/-!
# Addresses

The endpoint id named by an address that ends in `.iroh`, in any form a caller
holds one: a host, a host and port, or a URL with a path.
-/

namespace Quackhole.Ticket

open Quackhole.Word

/-- Everything in front of the last occurrence of a character, if there is one. -/
def beforeLast (delimiter : Char) (text : Text) : Text :=
  if delimiter ∈ text then ((text.reverse.dropWhile (· ≠ delimiter)).drop 1).reverse else text

/-- An address without its scheme: up to `://`, or a word of letters in front of
the first colon. -/
def withoutScheme (value : Text) : Text :=
  match findWord "://".toList value with
  | some start => value.drop (start + 3)
  | none =>
      match splitOnce ':' value with
      | some (head, rest) =>
          if ¬ head.isEmpty ∧ '.' ∉ head ∧ head.all Char.isAlpha then rest else value
      | none => value

/-- The endpoint id in an `<id>.iroh` address, if it is one.  The suffix is matched
in any case; the id keeps its own. -/
def Peer.parseAddress (address : Text) : Option Text :=
  let value := beforeLast ':' (beforeFirst '/' (withoutScheme (trim address)))
  if irohSuffix <:+ asciiLower value then
    let id := value.take (value.length - irohSuffix.length)
    if id.isEmpty then none else some id
  else none

/-- An address never names the empty id. -/
theorem ne_nil_of_parseAddress {address id : Text} (parsed : Peer.parseAddress address = some id) :
    id ≠ [] := by
  simp only [Peer.parseAddress] at parsed
  split at parsed
  · split at parsed
    · cases parsed
    · rename_i nonempty
      cases parsed
      simpa using nonempty
  · cases parsed

theorem beforeLast_eq_self {delimiter : Char} {text : Text} (absent : delimiter ∉ text) :
    beforeLast delimiter text = text :=
  if_neg absent

theorem beforeLast_append {delimiter : Char} (first : Text) {second : Text}
    (absent : delimiter ∉ second) :
    beforeLast delimiter (first ++ delimiter :: second) = first := by
  have dropped : (second.reverse ++ delimiter :: first.reverse).dropWhile (· ≠ delimiter) =
      delimiter :: first.reverse := by
    rw [List.dropWhile_append_of_pos]
    · simp
    · intro c member
      have different : c ≠ delimiter := by
        rintro rfl
        exact absent (List.mem_reverse.mp member)
      simpa using different
  rw [beforeLast, if_pos (by simp)]
  simp only [List.reverse_append, List.reverse_cons, List.append_assoc, List.singleton_append]
  rw [dropped, List.drop_one, List.tail_cons, List.reverse_reverse]

/-- A text that ends in the suffix, without a colon or a slash, is the address of
what stands in front. -/
theorem parseAddress_of_value {address label : Text} (nonempty : label ≠ [])
    (value : beforeLast ':' (beforeFirst '/' (withoutScheme (trim address))) =
      label ++ irohSuffix) : Peer.parseAddress address = some label := by
  have lower : irohSuffix <:+ asciiLower (label ++ irohSuffix) := by
    rw [asciiLower, List.map_append]
    exact List.suffix_append _ _
  have kept : (label ++ irohSuffix).take ((label ++ irohSuffix).length - irohSuffix.length) =
      label := by
    rw [List.length_append, Nat.add_sub_cancel, List.take_left]
  rw [Peer.parseAddress, value]
  dsimp only
  rw [if_pos lower, kept, if_neg (by simpa using nonempty)]

/-- A host that ends in the suffix. -/
theorem parseAddress_host {label : Text} (nonempty : label ≠ []) (solid : Solid label)
    (colon : ':' ∉ label) (slash : '/' ∉ label) :
    Peer.parseAddress (label ++ irohSuffix) = some label := by
  have noColon : ':' ∉ label ++ irohSuffix := by
    rw [List.mem_append]
    rintro (front | back)
    · exact colon front
    · exact absurd back (by decide)
  have noSlash : '/' ∉ label ++ irohSuffix := by
    rw [List.mem_append]
    rintro (front | back)
    · exact slash front
    · exact absurd back (by decide)
  have solidHost : Solid (label ++ irohSuffix) := by
    intro c member
    rcases List.mem_append.mp member with front | back
    · exact solid c front
    · exact (by decide : Solid irohSuffix) c back
  have noScheme : findWord "://".toList (label ++ irohSuffix) = none := by
    rw [findWord_eq_none_iff (by decide)]
    intro inside
    exact noColon (inside.subset (by decide))
  have noHead : splitOnce ':' (label ++ irohSuffix) = none := if_neg noColon
  apply parseAddress_of_value nonempty
  rw [trim_eq_self solidHost, withoutScheme, noScheme]
  dsimp only
  rw [noHead]
  dsimp only
  rw [beforeFirst_eq_self noSlash, beforeLast_eq_self noColon]

/-- The URL of a host that ends in the suffix, with its port. -/
theorem parseAddress_https {label : Text} (nonempty : label ≠ []) (solid : Solid label)
    (slash : '/' ∉ label) :
    Peer.parseAddress ("https://".toList ++ label ++ irohSuffix ++ ':' :: quackPort) =
      some label := by
  have shape : "https://".toList ++ label ++ irohSuffix ++ ':' :: quackPort =
      "https".toList ++ "://".toList ++ (label ++ (irohSuffix ++ ':' :: quackPort)) := by
    simp
  have solidAll : Solid ("https".toList ++ "://".toList ++
      (label ++ (irohSuffix ++ ':' :: quackPort))) := by
    intro c member
    rcases List.mem_append.mp member with scheme | rest
    · exact (by decide : Solid ("https".toList ++ "://".toList)) c scheme
    · rcases List.mem_append.mp rest with front | back
      · exact solid c front
      · exact (by decide : Solid (irohSuffix ++ ':' :: quackPort)) c back
  have found : findWord "://".toList ("https".toList ++ "://".toList ++
      (label ++ (irohSuffix ++ ':' :: quackPort))) = some 5 :=
    findWord_append_of_unbordered (by decide)
      (show ∀ k < "://".toList.length, 0 < k → ¬ "://".toList.drop k <+: "://".toList by decide)
      (by decide) _
  have noSlash : '/' ∉ label ++ (irohSuffix ++ ':' :: quackPort) := by
    rw [List.mem_append]
    rintro (front | back)
    · exact slash front
    · exact absurd back (by decide)
  apply parseAddress_of_value nonempty
  rw [shape, trim_eq_self solidAll, withoutScheme, found]
  dsimp only
  rw [show ("https".toList ++ "://".toList ++ (label ++ (irohSuffix ++ ':' :: quackPort))).drop
    (5 + 3) = label ++ (irohSuffix ++ ':' :: quackPort) from rfl, beforeFirst_eq_self noSlash,
    ← List.append_assoc, beforeLast_append _ (by decide)]

end Quackhole.Ticket
