import Quackhole.Ticket.Peer
import Quackhole.Word.Numeral

/-!
# The printed forms of an endpoint id

An endpoint id is 32 bytes, printed as lower-case hex, as RFC 4648 base32 or as
z-base-32.  The two base32 alphabets overlap and the RFC reading is tried first;
what keeps them apart is the last letter, of which only one bit is used.
-/

namespace Quackhole.Ticket

open Quackhole.Word

/-- `EndpointId`: 32 bytes that are a key.  Which byte strings are keys is a
parameter. -/
structure Key (isKey : Bytes → Bool) where
  bytes : Bytes
  size : bytes.length = 32
  valid : isKey bytes = true
deriving DecidableEq

namespace Key

variable {isKey : Bytes → Bool}

/-- `EndpointId::from_bytes`. -/
def ofBytes (bytes : Bytes) : Option (Key isKey) :=
  if isKeyBytes : bytes.length = 32 ∧ isKey bytes = true then
    some ⟨bytes, isKeyBytes.1, isKeyBytes.2⟩
  else none

theorem ofBytes_bytes (key : Key isKey) : ofBytes key.bytes = some key := by
  rw [ofBytes, dif_pos ⟨key.size, key.valid⟩]

/-- The lower-case hex form. -/
def toHex (key : Key isKey) : Text :=
  Hex.encode hexLower key.bytes

/-- The RFC 4648 base32 form. -/
def toBase32 (key : Key isKey) : Text :=
  Base32.encode rfc4648 key.bytes

/-- `to_z32`. -/
def toZ32 (key : Key isKey) : Text :=
  Base32.encode zBase32 key.bytes

variable (isKey)

/-- `FromStr` of iroh: 64 characters are hex, anything else is RFC 4648 base32
in any letter case. -/
def fromStr (text : Text) : Option (Key isKey) :=
  (if text.length = 64 then Hex.decode hexLower text
    else Base32.decode rfc4648 true (asciiUpper text)).bind ofBytes

/-- `from_z32` of iroh, which may or may not look at the spare bits. -/
def fromZ32 (isStrict : Bool) (text : Text) : Option (Key isKey) :=
  (Base32.decode zBase32 isStrict text).bind ofBytes

end Key

/-- iroh with ids of 32 bytes.  Its URLs stay parameters. -/
def keyIroh {Url : Type} (isKey : Bytes → Bool) (isStrict : Bool) (parseUrl : Text → Option Url)
    (scheme urlText : Url → Text) : Iroh (Key isKey) Url where
  fromStr := Key.fromStr isKey
  fromZ32 := Key.fromZ32 isKey isStrict
  toZ32 := Key.toZ32
  parseUrl := parseUrl
  scheme := scheme
  urlText := urlText

/-- The texts iroh prints for an id. -/
inductive Printed {isKey : Bytes → Bool} (key : Key isKey) : Text → Prop where
  | hex : Printed key key.toHex
  /-- In any letter case. -/
  | base32 {text : Text} (same : eqIgnoreAsciiCase text key.toBase32 = true) : Printed key text
  | z32 : Printed key key.toZ32

/-! ## Reading the forms -/

section Forms

variable {isKey : Bytes → Bool} (key : Key isKey)

theorem Key.length_toHex : key.toHex.length = 64 := by
  rw [toHex, Hex.length_encode, key.size]

theorem Key.length_toBase32 : key.toBase32.length = 52 := by
  rw [toBase32, Base32.length_encode, key.size]
  rfl

theorem Key.length_toZ32 : key.toZ32.length = 52 := by
  rw [toZ32, Base32.length_encode, key.size]
  rfl

theorem Key.mem_letters_of_mem_toZ32 : ∀ c ∈ key.toZ32, c ∈ zBase32.letters :=
  zBase32.mem_of_mem_write (by omega)

/-- The last letter of the z-base-32 form carries one bit of the id. -/
theorem Key.exists_toZ32_eq_append :
    ∃ front c, (c = 'y' ∨ c = 'o') ∧ key.toZ32 = front ++ [c] := by
  have spare : Base32.spareBits key.bytes.length = 4 := by rw [key.size]; rfl
  have count : Base32.letterCount key.bytes.length = 52 := by rw [key.size]; rfl
  refine ⟨(numeral 32 51 (bytesValue key.bytes * 2 ^ 4 / 32)).map zBase32.letter,
    zBase32.letter (bytesValue key.bytes * 2 ^ 4 % 32), ?_, ?_⟩
  · rcases Nat.mod_two_eq_zero_or_one (bytesValue key.bytes) with even | odd
    · have zero : bytesValue key.bytes * 2 ^ 4 % 32 = 0 := by omega
      rw [zero]
      exact Or.inl rfl
    · have sixteen : bytesValue key.bytes * 2 ^ 4 % 32 = 16 := by omega
      rw [sixteen]
      exact Or.inr rfl
  · rw [toZ32, Base32.encode, spare, count, Alphabet.write, numeral, List.map_append]
    rfl

/-- No z-base-32 form is read as hex or as RFC 4648 base32: there is no room for
hex, and both letters it can end with leave spare bits that are not zero. -/
theorem Key.fromStr_toZ32 : Key.fromStr isKey key.toZ32 = none := by
  have short : key.toZ32.length ≠ 64 := by
    rw [key.length_toZ32]
    decide
  have upperLength : (asciiUpper key.toZ32).length = 52 := by
    rw [asciiUpper, List.length_map, key.length_toZ32]
  have unread : Base32.decode rfc4648 true (asciiUpper key.toZ32) = none := by
    apply Base32.decode_strict_eq_none
    rw [upperLength]
    rintro n read
    rcases key.exists_toZ32_eq_append with ⟨front, c, letter, shape⟩
    have upper : asciiUpper key.toZ32 = asciiUpper front ++ [c.toUpper] := by
      rw [shape, asciiUpper, List.map_append]
      rfl
    rw [upper] at read
    rcases rfc4648.read_append_singleton read with ⟨value, d, digit, rfl⟩
    have spare : Base32.spareBits (5 * 52 / 8) = 4 := rfl
    rw [spare]
    rcases letter with rfl | rfl
    · have last : rfc4648.digit ('y').toUpper = some 24 := by decide
      obtain rfl := Option.some.inj (digit.symm.trans last)
      omega
    · have last : rfc4648.digit ('o').toUpper = some 14 := by decide
      obtain rfl := Option.some.inj (digit.symm.trans last)
      omega
  rw [fromStr, if_neg short, unread]
  rfl

theorem Key.fromStr_toHex : Key.fromStr isKey key.toHex = some key := by
  rw [fromStr, if_pos key.length_toHex, toHex, Hex.decode_encode, Option.bind_some,
    ofBytes_bytes]

theorem Key.asciiUpper_toBase32 : asciiUpper key.toBase32 = key.toBase32 := by
  have letters : asciiUpper rfc4648.letters = rfc4648.letters.map id := by decide
  have fixed := List.map_inj_left.mp letters
  calc asciiUpper key.toBase32 = key.toBase32.map id :=
        List.map_congr_left fun c member => fixed c (rfc4648.mem_of_mem_write (by omega) c member)
    _ = key.toBase32 := List.map_id _

theorem Key.fromStr_base32 {text : Text} (same : eqIgnoreAsciiCase text key.toBase32 = true) :
    Key.fromStr isKey text = some key := by
  have upper := asciiUpper_of_eqIgnoreAsciiCase same key.asciiUpper_toBase32
  have short : text.length ≠ 64 := by
    have lengths := congrArg List.length upper
    rw [asciiUpper, List.length_map, key.length_toBase32] at lengths
    omega
  rw [fromStr, if_neg short, upper, toBase32, Base32.decode_encode, Option.bind_some,
    ofBytes_bytes]

theorem Key.fromZ32_toZ32 (isStrict : Bool) :
    Key.fromZ32 isKey isStrict key.toZ32 = some key := by
  rw [fromZ32, toZ32, Base32.decode_encode, Option.bind_some, ofBytes_bytes]

/-- A printed form has no blank in it. -/
theorem Printed.solid {key : Key isKey} {form : Text} (printed : Printed key form) :
    Solid form := by
  cases printed with
  | hex =>
      have letters : Solid hexLower.letters := by decide
      exact fun c member => letters c (hexLower.mem_of_mem_write (by omega) c member)
  | base32 same =>
      apply solid_of_eqIgnoreAsciiCase same
      have letters : Solid (asciiLower rfc4648.letters) := by decide
      intro c member
      rcases List.mem_map.mp member with ⟨upper, inside, rfl⟩
      exact letters _ (List.mem_map_of_mem (rfc4648.mem_of_mem_write (by omega) upper inside))
  | z32 =>
      have letters : Solid zBase32.letters := by decide
      exact fun c member => letters c (key.mem_letters_of_mem_toZ32 c member)

/-- A printed form with blanks around it. -/
inductive Spelled (key : Key isKey) : Text → Prop where
  | form {before form after : Text} (blankBefore : Blank before)
      (printed : Printed key form) (blankAfter : Blank after) :
      Spelled key (before ++ form ++ after)

end Forms

section Iroh

variable {isKey : Bytes → Bool} {Url : Type} (isStrict : Bool) (parseUrl : Text → Option Url)
  (scheme urlText : Url → Text)

/-- A spelling of an id is read as that id. -/
theorem Spelled.parseEndpointId_eq {key : Key isKey} {text : Text} (spelled : Spelled key text) :
    (keyIroh isKey isStrict parseUrl scheme urlText).parseEndpointId text = .ok key := by
  rcases spelled with ⟨blankBefore, printed, blankAfter⟩
  rw [Iroh.parseEndpointId, trim_append_append blankBefore blankAfter,
    trim_eq_self printed.solid]
  dsimp only [keyIroh]
  cases printed with
  | hex => rw [key.fromStr_toHex, Option.some_or]
  | base32 same => rw [key.fromStr_base32 same, Option.some_or]
  | z32 => rw [key.fromStr_toZ32, Option.none_or, key.fromZ32_toZ32]

theorem parseEndpointId_toZ32 (key : Key isKey) :
    (keyIroh isKey isStrict parseUrl scheme urlText).parseEndpointId key.toZ32 = .ok key := by
  have spelled : Spelled key ([] ++ key.toZ32 ++ []) := .form (by decide) .z32 (by decide)
  rw [List.nil_append, List.append_nil] at spelled
  exact spelled.parseEndpointId_eq isStrict parseUrl scheme urlText

/-- iroh with ids of 32 bytes behaves as documented. -/
theorem lawful_keyIroh : (keyIroh isKey isStrict parseUrl scheme urlText).Lawful where
  fromZ32_toZ32 key := key.fromZ32_toZ32 isStrict
  solid_toZ32 key := Printed.z32.solid
  nul_notMem_toZ32 key member :=
    absurd (key.mem_letters_of_mem_toZ32 _ member) (by decide)
  toZ32_ne_nil key empty := by
    have length := key.length_toZ32
    rw [show key.toZ32 = [] from empty] at length
    cases length

/-- All spellings of one id are read as that id and as no other one, and make
one peer with one address and one secret name. -/
theorem spellings_agree {key : Key isKey} {first second : Text} (spelled : Spelled key first)
    (respelled : Spelled key second) (relay token : Text) :
    let iroh := keyIroh isKey isStrict parseUrl scheme urlText
    iroh.parseEndpointId first = .ok key ∧
      (∀ other : Key isKey, Spelled other first → other = key) ∧
      ∃ peer, Peer.new iroh first relay token = .ok peer ∧
        Peer.new iroh second relay token = .ok peer ∧
        peer.address = "quack:".toList ++ key.toZ32 ++ ".iroh:9494".toList ∧
        peer.secretName = "qh_".toList ++ key.toZ32 := by
  intro iroh
  have read : iroh.parseEndpointId first = .ok key :=
    spelled.parseEndpointId_eq isStrict parseUrl scheme urlText
  have reread : iroh.parseEndpointId second = .ok key :=
    respelled.parseEndpointId_eq isStrict parseUrl scheme urlText
  refine ⟨read, fun other also => ?_, ⟨key.toZ32, trim relay, token⟩, ?_, ?_, ?_, rfl⟩
  · have readOther : iroh.parseEndpointId first = .ok other :=
      also.parseEndpointId_eq isStrict parseUrl scheme urlText
    exact Except.ok.inj (readOther.symm.trans read)
  · rw [Peer.new, read]
    rfl
  · rw [Peer.new, reread]
    rfl
  · exact Peer.address_eq _

/-- A peer made of an id in any accepted form, a relay that is not blank and any
token makes a ticket of ticket characters, which is read back as the peer in
whatever it was pasted inside. -/
theorem ticket_read_inside {codec : TicketCodec} (lawful : codec.Lawful)
    {endpointId relay token : Text} {peer : Peer}
    (made : Peer.new (keyIroh isKey isStrict parseUrl scheme urlText) endpointId relay token =
      .ok peer)
    (relayed : ¬ Blank relay) :
    ∃ payload, peer.toTicket codec = .ok (ticketMarker ++ payload) ∧
      (∀ c ∈ payload, Base64.IsUrlSafe c) ∧
      ∀ before after : Text, ¬ ticketMarker <:+: before →
        (∀ c ∈ after.head?, ¬ Base64.IsUrlSafe c) →
        Peer.parseTicket (keyIroh isKey isStrict parseUrl scheme urlText) codec
          (before ++ (ticketMarker ++ payload) ++ after) = .ok peer :=
  exists_toTicket lawful (parseEndpointId_toZ32 isStrict parseUrl scheme urlText)
    (lawful_keyIroh isStrict parseUrl scheme urlText).toZ32_ne_nil made relayed

end Iroh

/-! ## Accepted spellings in lower case -/

section Lower

variable {isKey : Bytes → Bool} {key : Key isKey} {text : Text}

theorem asciiLower_eq_self (fixed : ∀ c ∈ text, c.toLower = c) : asciiLower text = text :=
  (List.map_congr_left fixed).trans (List.map_id text)

/-- Letters that are their own lower case. -/
theorem toLower_of_mem {letters : Text} (lower : asciiLower letters = letters.map id) {c : Char}
    (member : c ∈ letters) : c.toLower = c :=
  List.map_inj_left.mp lower c member

theorem Key.fromStr_asciiLower (read : Key.fromStr isKey text = some key) :
    Key.fromStr isKey (asciiLower text) = some key := by
  have length : (asciiLower text).length = text.length := List.length_map _
  rw [fromStr] at read
  split at read
  · rename_i long
    rcases Option.bind_eq_some_iff.mp read with ⟨bytes, decoded, valid⟩
    have fixed : asciiLower text = text := asciiLower_eq_self fun c member =>
      toLower_of_mem (by decide) (Hex.mem_of_decode hexLower decoded c member)
    rw [fromStr, fixed, if_pos long]
    exact read
  · rename_i short
    rw [fromStr, length, if_neg short, asciiUpper_asciiLower]
    exact read

theorem Key.asciiLower_of_fromZ32 {isStrict : Bool}
    (read : Key.fromZ32 isKey isStrict text = some key) : asciiLower text = text := by
  rcases Option.bind_eq_some_iff.mp read with ⟨bytes, decoded, -⟩
  exact asciiLower_eq_self fun c member =>
    toLower_of_mem (by decide) (Base32.mem_of_decode zBase32 decoded c member)

/-- A character that is not part of any printed form. -/
theorem Key.notMem_of_fromStr {c : Char} (hex : c ∉ hexLower.letters)
    (base32 : c.toUpper ∉ rfc4648.letters) (read : Key.fromStr isKey text = some key) :
    c ∉ text := by
  intro member
  rw [fromStr] at read
  rcases Option.bind_eq_some_iff.mp read with ⟨bytes, decoded, -⟩
  split at decoded
  · exact hex (Hex.mem_of_decode hexLower decoded c member)
  · exact base32 (Base32.mem_of_decode rfc4648 decoded _ (List.mem_map_of_mem member))

theorem Key.notMem_of_fromZ32 {isStrict : Bool} {c : Char} (z32 : c ∉ zBase32.letters)
    (read : Key.fromZ32 isKey isStrict text = some key) : c ∉ text := by
  intro member
  rcases Option.bind_eq_some_iff.mp read with ⟨bytes, decoded, -⟩
  exact z32 (Base32.mem_of_decode zBase32 decoded c member)

variable {Url : Type} {isStrict : Bool} {parseUrl : Text → Option Url}
  {scheme urlText : Url → Text}

/-- One of the two readers accepts what is accepted. -/
theorem accepted_iff (solid : Solid text) :
    (keyIroh isKey isStrict parseUrl scheme urlText).parseEndpointId text = .ok key ↔
      Key.fromStr isKey text = some key ∨
        Key.fromStr isKey text = none ∧ Key.fromZ32 isKey isStrict text = some key := by
  have readers : (keyIroh isKey isStrict parseUrl scheme urlText).parseEndpointId text = .ok key ↔
      (Key.fromStr isKey text).or (Key.fromZ32 isKey isStrict text) = some key := by
    rw [Iroh.parseEndpointId, trim_eq_self solid]
    dsimp only [keyIroh]
    split
    · rename_i found
      rw [found, Except.ok.injEq, Option.some.injEq]
    · rename_i missing
      rw [missing]
      constructor
      · intro accepted
        cases accepted
      · intro found
        cases found
  rw [readers, Option.or_eq_some_iff]

/-- What is accepted is accepted in lower case, as the same id. -/
theorem parseEndpointId_asciiLower (solid : Solid text)
    (read : (keyIroh isKey isStrict parseUrl scheme urlText).parseEndpointId text = .ok key) :
    (keyIroh isKey isStrict parseUrl scheme urlText).parseEndpointId (asciiLower text) =
      .ok key := by
  rcases (accepted_iff solid).mp read with first | ⟨-, second⟩
  · exact (accepted_iff solid.asciiLower).mpr (Or.inl (Key.fromStr_asciiLower first))
  · rw [Key.asciiLower_of_fromZ32 second]
    exact read

/-- What is accepted can stand in a host name. -/
theorem notMem_of_accepted (solid : Solid text) {c : Char}
    (read : (keyIroh isKey isStrict parseUrl scheme urlText).parseEndpointId text = .ok key)
    (hex : c ∉ hexLower.letters) (base32 : c.toUpper ∉ rfc4648.letters)
    (z32 : c ∉ zBase32.letters) : c ∉ text := by
  rcases (accepted_iff solid).mp read with first | ⟨-, second⟩
  · exact Key.notMem_of_fromStr hex base32 first
  · exact Key.notMem_of_fromZ32 z32 second

theorem ne_nil_of_accepted
    (read : (keyIroh isKey isStrict parseUrl scheme urlText).parseEndpointId text = .ok key) :
    text ≠ [] := by
  rintro rfl
  have unread : Key.fromStr isKey [] = none ∧ Key.fromZ32 isKey isStrict [] = none := by
    cases isStrict <;> exact ⟨rfl, rfl⟩
  rcases (accepted_iff (by decide)).mp read with first | ⟨-, second⟩
  · cases unread.1.symm.trans first
  · cases unread.2.symm.trans second

end Lower

/-! ## One key -/

/-- The key of 32 bytes 255. -/
def onesKey : Key fun _ => true where
  bytes := List.replicate 32 255
  size := rfl
  valid := rfl

/-- iroh for URLs that are any text. -/
def textIroh : Iroh (Key fun _ => true) Text :=
  keyIroh (fun _ => true) true some (fun _ => "https".toList) fun url => url

theorem spelled_onesKey_hex : Spelled onesKey ([' '] ++ onesKey.toHex ++ ['\n']) :=
  .form (by decide) .hex (by decide)

theorem spelled_onesKey_base32 : Spelled onesKey ([] ++ asciiLower onesKey.toBase32 ++ ['\t']) :=
  .form (by decide) (.base32 (by decide +kernel)) (by decide)

theorem spellings_agree_onesKey :
    textIroh.parseEndpointId ([' '] ++ onesKey.toHex ++ ['\n']) = .ok onesKey ∧
      (∀ other : Key fun _ => true,
        Spelled other ([' '] ++ onesKey.toHex ++ ['\n']) → other = onesKey) ∧
      ∃ peer, Peer.new textIroh ([' '] ++ onesKey.toHex ++ ['\n']) [] [] = .ok peer ∧
        Peer.new textIroh ([] ++ asciiLower onesKey.toBase32 ++ ['\t']) [] [] = .ok peer ∧
        peer.address = "quack:".toList ++ onesKey.toZ32 ++ ".iroh:9494".toList ∧
        peer.secretName = "qh_".toList ++ onesKey.toZ32 :=
  spellings_agree true some _ _ spelled_onesKey_hex spelled_onesKey_base32 [] []

/-- The peer of the key, with a relay and a token of any characters. -/
def onesPeer : Peer where
  endpointId := onesKey.toZ32
  relayUrl := "https://relay.example/".toList
  token := "\"\\\u0000é".toList

theorem new_onesPeer :
    Peer.new textIroh onesKey.toZ32 " https://relay.example/".toList onesPeer.token =
      .ok onesPeer := by
  rw [Peer.new, textIroh, parseEndpointId_toZ32]
  decide +kernel

theorem ticket_read_inside_onesPeer :
    ∃ payload, onesPeer.toTicket TicketCodec.json = .ok (ticketMarker ++ payload) ∧
      (∀ c ∈ payload, Base64.IsUrlSafe c) ∧
      ∀ before after : Text, ¬ ticketMarker <:+: before →
        (∀ c ∈ after.head?, ¬ Base64.IsUrlSafe c) →
        Peer.parseTicket textIroh TicketCodec.json
          (before ++ (ticketMarker ++ payload) ++ after) = .ok onesPeer :=
  ticket_read_inside true some _ _ TicketCodec.lawful_json new_onesPeer (by decide)

end Quackhole.Ticket
