import Quackhole.Ticket.Interface
import Quackhole.Ticket.Usable

/-!
# Writing a ticket's fields into buffers

The fields of a ticket are written one after another, each into a buffer of its
own, and a field that does not fit ends the call.  What was written before it
stays.
-/

namespace Quackhole.Ticket

open Quackhole.Word

/-- `QH_OK` and `QH_ERR`. -/
inductive Code where
  | ok
  | err
deriving DecidableEq

/-- A buffer that a caller lends for the duration of a call. -/
structure Buffer where
  /-- What stands in memory from the pointer on, unless the pointer is null. -/
  memory : Option Bytes
  len : Nat
  /-- A pointer that is not null is valid for as many bytes as are given beside it. -/
  len_le : ∀ bytes ∈ memory, len ≤ bytes.length

namespace Buffer

/-- The size of a buffer, which a null pointer does not have. -/
def size (buffer : Buffer) : Option Nat :=
  buffer.memory.map fun _ => buffer.len

theorem len_le_overwrite (buffer : Buffer) (bytes : Bytes) :
    ∀ memory ∈ buffer.memory.map fun memory => bytes ++ memory.drop bytes.length,
      buffer.len ≤ memory.length := by
  intro memory written
  rcases Option.map_eq_some_iff.mp written with ⟨before, lent, rfl⟩
  have valid := buffer.len_le before lent
  rw [List.length_append, List.length_drop]
  omega

/-- Copy bytes to where the pointer points. -/
def overwrite (buffer : Buffer) (bytes : Bytes) : Buffer where
  memory := buffer.memory.map fun memory => bytes ++ memory.drop bytes.length
  len := buffer.len
  len_le := buffer.len_le_overwrite bytes

@[simp]
theorem memory_overwrite (buffer : Buffer) (bytes : Bytes) :
    (buffer.overwrite bytes).memory =
      buffer.memory.map fun memory => bytes ++ memory.drop bytes.length :=
  rfl

/-- `write_err`: a message with a NUL after it, cut to the buffer. -/
def writeErr (err : Buffer) (message : Text) : Buffer :=
  if err.memory = none ∨ err.len = 0 then err
  else err.overwrite ((utf8 message).take (err.len - 1) ++ [0])

/-- `write_str`: a string with a NUL after it, if there is room for both. -/
def writeStr (out : Buffer) (value : Text) : Code × Buffer :=
  if out.memory = none ∨ out.len < (utf8 value).length + 1 then (.err, out)
  else (.ok, out.overwrite (utf8 value ++ [0]))

/-- What writing one string leaves behind. -/
structure Written where
  code : Code
  out : Buffer
  err : Buffer

/-- `write_str_or_err`. -/
def writeStrOrErr (out err : Buffer) (value : Text) : Written :=
  match writeStr out value with
  | (.ok, written) => ⟨.ok, written, err⟩
  | (.err, written) =>
      ⟨.err, written, err.writeErr ("a ".toList ++ decimal out.len ++
        " byte buffer does not fit ".toList ++ decimal (utf8 value).length ++ " bytes".toList)⟩

/-- A string fits with its NUL. -/
def FitsIn (size : Option Nat) (value : Text) : Prop :=
  ∃ len ∈ size, (utf8 value).length + 1 ≤ len

/-- After a write, the buffer holds a string and its NUL, and what followed them
is as before. -/
def Holds (before after : Buffer) (value : Text) : Prop :=
  after.len = before.len ∧ ∃ old kept, before.memory = some (old ++ kept) ∧
    old.length = (utf8 value).length + 1 ∧ old.length ≤ before.len ∧
    after.memory = some (utf8 value ++ [0] ++ kept)

/-- The bytes before the first NUL, as the other side reads them. -/
def cString (buffer : Buffer) : Option Bytes :=
  buffer.memory.map fun memory => memory.takeWhile (· ≠ 0)

theorem getD_le_of_mem_map {size : Option Nat} :
    ∀ bytes ∈ size.map fun len => List.replicate len (255 : UInt8),
      size.getD 0 ≤ bytes.length := by
  intro bytes lent
  rcases Option.map_eq_some_iff.mp lent with ⟨len, rfl, rfl⟩
  exact List.length_replicate.ge

/-- A buffer of the given size, with no zero byte in it. -/
def filled (size : Option Nat) : Buffer where
  memory := size.map fun len => List.replicate len 255
  len := size.getD 0
  len_le := getD_le_of_mem_map

theorem size_filled (size : Option Nat) : (filled size).size = size := by
  cases size with
  | none => rfl
  | some len => rfl

/-- A string that was written there can be told from what was there before. -/
theorem overwrite_filled_ne {size : Option Nat} {value : Text} (fits : FitsIn size value) :
    (filled size).overwrite (utf8 value ++ [0]) ≠ filled size := by
  rcases fits with ⟨len, rfl, -⟩
  intro same
  have memories : utf8 value ++ [0] ++ (List.replicate len 255).drop (utf8 value ++ [0]).length =
      List.replicate len 255 := Option.some.inj (congrArg memory same)
  have zero : (0 : UInt8) ∈ List.replicate len 255 := by
    rw [← memories]
    simp
  cases List.eq_of_mem_replicate zero

/-! ## One field -/

theorem fitsIn_some_iff {len : Nat} {value : Text} :
    FitsIn (some len) value ↔ (utf8 value).length + 1 ≤ len := by
  simp [FitsIn]

theorem fitsIn_size_iff {out : Buffer} {value : Text} :
    FitsIn out.size value ↔ ¬ (out.memory = none ∨ out.len < (utf8 value).length + 1) := by
  rw [FitsIn, size]
  cases out.memory with
  | none => simp
  | some memory => simp

theorem writeStrOrErr_of_fitsIn {out : Buffer} {value : Text} (fits : FitsIn out.size value)
    (err : Buffer) :
    writeStrOrErr out err value = ⟨.ok, out.overwrite (utf8 value ++ [0]), err⟩ := by
  rw [writeStrOrErr, writeStr, if_neg (fitsIn_size_iff.mp fits)]

/-- A field that does not fit leaves its buffer as it was. -/
theorem exists_writeStrOrErr_of_not_fitsIn {out : Buffer} {value : Text}
    (large : ¬ FitsIn out.size value) (err : Buffer) :
    ∃ told, writeStrOrErr out err value = ⟨.err, out, told⟩ := by
  rw [writeStrOrErr, writeStr, if_pos (not_not.mp (mt fitsIn_size_iff.mpr large))]
  exact ⟨_, rfl⟩

theorem holds_overwrite {out : Buffer} {value : Text} (fits : FitsIn out.size value) :
    Holds out (out.overwrite (utf8 value ++ [0])) value := by
  rcases fits with ⟨len, lent, room⟩
  rcases Option.map_eq_some_iff.mp lent with ⟨memory, there, rfl⟩
  have valid := out.len_le memory there
  have cut : (memory.take ((utf8 value).length + 1)).length = (utf8 value).length + 1 := by
    rw [List.length_take]
    omega
  refine ⟨rfl, memory.take ((utf8 value).length + 1), memory.drop ((utf8 value).length + 1),
    ?_, cut, cut.trans_le room, ?_⟩
  · rw [there, List.take_append_drop]
  · rw [memory_overwrite, there, List.length_append]
    rfl

/-- A character other than NUL has no zero byte. -/
theorem zero_notMem_utf8EncodeChar {c : Char} (other : c ≠ '\x00') :
    0 ∉ String.utf8EncodeChar c := by
  intro member
  by_cases ascii : c.toNat < 128
  · rw [utf8EncodeChar_ascii ascii, List.mem_singleton] at member
    have value : (0 : UInt8).toNat = c.toNat := by
      rw [member]
      exact toNat_ofNat_byte (by omega)
    exact other (Char.toNat_inj.mp value.symm)
  · have high := le_toNat_of_mem_utf8EncodeChar (Nat.not_lt.mp ascii) member
    contradiction

/-- A string is read back up to its first NUL. -/
theorem takeWhile_utf8_append (value : Text) (after : Bytes) :
    (utf8 value ++ 0 :: after).takeWhile (· ≠ 0) = utf8 (untilNul value) := by
  induction value with
  | nil => rfl
  | cons c value ih =>
      by_cases nul : c = '\x00'
      · subst nul
        rfl
      · have bytes : ∀ byte ∈ String.utf8EncodeChar c, decide (byte ≠ 0) = true := by
          intro byte member
          rw [decide_eq_true_iff]
          rintro rfl
          exact zero_notMem_utf8EncodeChar nul member
        rw [utf8_cons, List.append_assoc, List.takeWhile_append_of_pos bytes, ih, untilNul,
          untilNul, List.takeWhile_cons, if_pos (by simpa using nul), utf8_cons]

theorem Holds.cString_eq {before after : Buffer} {value : Text}
    (holds : Holds before after value) : after.cString = some (utf8 (untilNul value)) := by
  rcases holds with ⟨-, old, kept, -, -, -, written⟩
  rw [cString, written, Option.map_some, List.append_assoc]
  exact congrArg some (takeWhile_utf8_append value kept)

end Buffer

/-! ## Three fields -/

/-- The three output buffers of a call, and the one for what went wrong. -/
structure Outputs where
  id : Buffer
  relay : Buffer
  token : Buffer
  err : Buffer

/-- The sizes of the three output buffers. -/
structure Sizes where
  id : Option Nat
  relay : Option Nat
  token : Option Nat

def Outputs.sizes (outs : Outputs) : Sizes :=
  ⟨outs.id.size, outs.relay.size, outs.token.size⟩

/-- Buffers of the given sizes in which every write shows. -/
def Outputs.filled (sizes : Sizes) : Outputs :=
  ⟨.filled sizes.id, .filled sizes.relay, .filled sizes.token, .filled none⟩

theorem Outputs.sizes_filled (sizes : Sizes) : (filled sizes).sizes = sizes := by
  simp only [filled, Outputs.sizes, Buffer.size_filled]

section Calls

variable {Id Url : Type} (iroh : Iroh Id Url) (codec : TicketCodec)

/-- What the ticket names, for a string that `cstr` could read. -/
def readTicket (ticket : Option Text) : Except String Peer :=
  match ticket with
  | none => .error "ticket must not be null"
  | some text => Peer.parseTicket iroh codec (untilNul text)

/-- `qh_ticket_parse`, down to the bytes it writes. -/
def qhTicketParseInto (ticket : Option Text) (outs : Outputs) : Code × Outputs :=
  match readTicket iroh codec ticket with
  | .error message => (.err, { outs with err := outs.err.writeErr message.toList })
  | .ok peer =>
      let id := outs.id.writeStrOrErr outs.err peer.endpointId
      if id.code ≠ .ok then (.err, { outs with id := id.out, err := id.err })
      else
        let relay := outs.relay.writeStrOrErr id.err peer.relayUrl
        if relay.code ≠ .ok then
          (.err, { outs with id := id.out, relay := relay.out, err := relay.err })
        else
          let token := outs.token.writeStrOrErr relay.err peer.token
          (token.code, ⟨id.out, relay.out, token.out, token.err⟩)

/-- A call that fails leaves the three buffers as they were, and one that does
not leaves a field of the ticket in each. -/
def AllOrNone (ticket : Option Text) (outs : Outputs) : Prop :=
  let result := qhTicketParseInto iroh codec ticket outs
  (result.1 = .err →
    result.2.id = outs.id ∧ result.2.relay = outs.relay ∧ result.2.token = outs.token) ∧
  (result.1 = .ok → ∃ peer, readTicket iroh codec ticket = .ok peer ∧
    outs.id.Holds result.2.id peer.endpointId ∧ outs.relay.Holds result.2.relay peer.relayUrl ∧
    outs.token.Holds result.2.token peer.token)

/-- A call writes all three or none, whatever is in buffers of the given sizes. -/
def WritesAllOrNone (ticket : Option Text) (sizes : Sizes) : Prop :=
  ∀ outs : Outputs, outs.sizes = sizes → AllOrNone iroh codec ticket outs

/-- The id fits, and the relay or the token does not. -/
def FitsInPart (ticket : Option Text) (sizes : Sizes) : Prop :=
  ∃ peer, readTicket iroh codec ticket = .ok peer ∧ Buffer.FitsIn sizes.id peer.endpointId ∧
    ¬ (Buffer.FitsIn sizes.relay peer.relayUrl ∧ Buffer.FitsIn sizes.token peer.token)

variable {iroh codec} {ticket : Option Text} {outs : Outputs} {peer : Peer}

theorem qhTicketParseInto_of_error {message : String}
    (refused : readTicket iroh codec ticket = .error message) :
    qhTicketParseInto iroh codec ticket outs =
      (.err, { outs with err := outs.err.writeErr message.toList }) := by
  rw [qhTicketParseInto, refused]

theorem exists_qhTicketParseInto_of_large_id (read : readTicket iroh codec ticket = .ok peer)
    (large : ¬ Buffer.FitsIn outs.id.size peer.endpointId) :
    ∃ told, qhTicketParseInto iroh codec ticket outs = (.err, { outs with err := told }) := by
  rcases Buffer.exists_writeStrOrErr_of_not_fitsIn large outs.err with ⟨told, unwritten⟩
  rw [qhTicketParseInto, read]
  simp only [unwritten]
  exact ⟨told, rfl⟩

/-- The id is written before the relay and the token are looked at. -/
theorem exists_qhTicketParseInto_of_part (read : readTicket iroh codec ticket = .ok peer)
    (fits : Buffer.FitsIn outs.id.size peer.endpointId)
    (part : ¬ (Buffer.FitsIn outs.relay.size peer.relayUrl ∧
      Buffer.FitsIn outs.token.size peer.token)) :
    ∃ after, qhTicketParseInto iroh codec ticket outs = (.err, after) ∧
      after.id = outs.id.overwrite (utf8 peer.endpointId ++ [0]) := by
  rw [qhTicketParseInto, read]
  simp only [Buffer.writeStrOrErr_of_fitsIn fits]
  by_cases relayed : Buffer.FitsIn outs.relay.size peer.relayUrl
  · have large : ¬ Buffer.FitsIn outs.token.size peer.token := fun small => part ⟨relayed, small⟩
    rcases Buffer.exists_writeStrOrErr_of_not_fitsIn large outs.err with ⟨told, unwritten⟩
    simp only [Buffer.writeStrOrErr_of_fitsIn relayed, unwritten]
    exact ⟨_, rfl, rfl⟩
  · rcases Buffer.exists_writeStrOrErr_of_not_fitsIn relayed outs.err with ⟨told, unwritten⟩
    simp only [unwritten]
    exact ⟨_, rfl, rfl⟩

theorem qhTicketParseInto_of_fits (read : readTicket iroh codec ticket = .ok peer)
    (identified : Buffer.FitsIn outs.id.size peer.endpointId)
    (relayed : Buffer.FitsIn outs.relay.size peer.relayUrl)
    (secret : Buffer.FitsIn outs.token.size peer.token) :
    qhTicketParseInto iroh codec ticket outs =
      (.ok, ⟨outs.id.overwrite (utf8 peer.endpointId ++ [0]),
        outs.relay.overwrite (utf8 peer.relayUrl ++ [0]),
        outs.token.overwrite (utf8 peer.token ++ [0]), outs.err⟩) := by
  rw [qhTicketParseInto, read]
  simp only [Buffer.writeStrOrErr_of_fitsIn identified, Buffer.writeStrOrErr_of_fitsIn relayed,
    Buffer.writeStrOrErr_of_fitsIn secret]
  rfl

/-- A call fails with the three buffers as they were, or after it has written the id, or
has room for all three. -/
theorem qhTicketParseInto_cases (iroh : Iroh Id Url) (codec : TicketCodec)
    (ticket : Option Text) (outs : Outputs) :
    (∃ told, qhTicketParseInto iroh codec ticket outs = (.err, { outs with err := told })) ∨
    (FitsInPart iroh codec ticket outs.sizes ∧
      ∃ after, qhTicketParseInto iroh codec ticket outs = (.err, after)) ∨
    ∃ peer, readTicket iroh codec ticket = .ok peer ∧
      Buffer.FitsIn outs.id.size peer.endpointId ∧ Buffer.FitsIn outs.relay.size peer.relayUrl ∧
      Buffer.FitsIn outs.token.size peer.token := by
  cases read : readTicket iroh codec ticket with
  | error message => exact Or.inl ⟨_, qhTicketParseInto_of_error read⟩
  | ok peer =>
      by_cases identified : Buffer.FitsIn outs.id.size peer.endpointId
      · by_cases both : Buffer.FitsIn outs.relay.size peer.relayUrl ∧
          Buffer.FitsIn outs.token.size peer.token
        · exact Or.inr (Or.inr ⟨peer, rfl, identified, both⟩)
        · rcases exists_qhTicketParseInto_of_part read identified both with ⟨after, failed, -⟩
          exact Or.inr (Or.inl ⟨⟨peer, read, identified, both⟩, after, failed⟩)
      · exact Or.inl (exists_qhTicketParseInto_of_large_id read identified)

/-- The strings that a call returns are those that it leaves in the buffers. -/
theorem qhTicketParse_eq_ok_iff_into {text : Text} {idLen relayLen tokenLen : Nat} {strings : Peer}
    (sized : outs.sizes = ⟨some idLen, some relayLen, some tokenLen⟩) :
    let result := qhTicketParseInto iroh codec (some text) outs
    qhTicketParse iroh codec text idLen relayLen tokenLen = .ok strings ↔
      result.1 = .ok ∧ result.2.id.cString = some (utf8 strings.endpointId) ∧
        result.2.relay.cString = some (utf8 strings.relayUrl) ∧
        result.2.token.cString = some (utf8 strings.token) := by
  intro result
  have sizes : outs.id.size = some idLen ∧ outs.relay.size = some relayLen ∧
      outs.token.size = some tokenLen := by
    simpa only [Outputs.sizes, Sizes.mk.injEq] using sized
  rw [qhTicketParse_eq_ok_iff]
  constructor
  · rintro ⟨peer, parsed, identified, relayed, secret, rfl⟩
    have fits : Buffer.FitsIn outs.id.size peer.endpointId ∧
        Buffer.FitsIn outs.relay.size peer.relayUrl ∧ Buffer.FitsIn outs.token.size peer.token := by
      rw [sizes.1, sizes.2.1, sizes.2.2]
      simp only [Buffer.fitsIn_some_iff]
      exact ⟨identified, relayed, secret⟩
    have stored : result = _ := qhTicketParseInto_of_fits parsed fits.1 fits.2.1 fits.2.2
    rw [stored]
    exact ⟨rfl, (Buffer.holds_overwrite fits.1).cString_eq,
      (Buffer.holds_overwrite fits.2.1).cString_eq, (Buffer.holds_overwrite fits.2.2).cString_eq⟩
  · rintro ⟨done, identified, relayed, secret⟩
    rcases qhTicketParseInto_cases iroh codec (some text) outs with
      ⟨told, failed⟩ | ⟨-, after, failed⟩ | ⟨peer, parsed, fitsId, fitsRelay, fitsToken⟩
    · cases done.symm.trans (congrArg Prod.fst failed)
    · cases done.symm.trans (congrArg Prod.fst failed)
    · have stored : result = _ := qhTicketParseInto_of_fits parsed fitsId fitsRelay fitsToken
      rw [stored] at identified relayed secret
      have idText : untilNul peer.endpointId = strings.endpointId := utf8_injective
        (Option.some.inj ((Buffer.holds_overwrite fitsId).cString_eq.symm.trans identified))
      have relayText : untilNul peer.relayUrl = strings.relayUrl := utf8_injective
        (Option.some.inj ((Buffer.holds_overwrite fitsRelay).cString_eq.symm.trans relayed))
      have tokenText : untilNul peer.token = strings.token := utf8_injective
        (Option.some.inj ((Buffer.holds_overwrite fitsToken).cString_eq.symm.trans secret))
      rw [sizes.1, Buffer.fitsIn_some_iff] at fitsId
      rw [sizes.2.1, Buffer.fitsIn_some_iff] at fitsRelay
      rw [sizes.2.2, Buffer.fitsIn_some_iff] at fitsToken
      exact ⟨peer, parsed, fitsId, fitsRelay, fitsToken, by rw [idText, relayText, tokenText]⟩

theorem allOrNone_of_not_fitsInPart (apart : ¬ FitsInPart iroh codec ticket outs.sizes) :
    AllOrNone iroh codec ticket outs := by
  rw [AllOrNone]
  rcases qhTicketParseInto_cases iroh codec ticket outs with
    ⟨told, failed⟩ | ⟨part, -⟩ | ⟨peer, read, identified, relayed, secret⟩
  · rw [failed]
    exact ⟨fun _ => ⟨rfl, rfl, rfl⟩, by rintro ⟨⟩⟩
  · exact absurd part apart
  · rw [qhTicketParseInto_of_fits read identified relayed secret]
    refine ⟨by rintro ⟨⟩, fun _ => ⟨peer, read, ?_⟩⟩
    exact ⟨Buffer.holds_overwrite identified, Buffer.holds_overwrite relayed,
      Buffer.holds_overwrite secret⟩

/-- A call in which only the id fits is seen in its buffer. -/
theorem not_allOrNone_filled {sizes : Sizes} (part : FitsInPart iroh codec ticket sizes) :
    ¬ AllOrNone iroh codec ticket (.filled sizes) := by
  rcases part with ⟨peer, read, fits, part⟩
  rintro ⟨unchanged, -⟩
  have sized := Outputs.sizes_filled sizes
  have identified : Buffer.FitsIn (Outputs.filled sizes).sizes.id peer.endpointId := by rwa [sized]
  have others : ¬ (Buffer.FitsIn (Outputs.filled sizes).sizes.relay peer.relayUrl ∧
      Buffer.FitsIn (Outputs.filled sizes).sizes.token peer.token) := by rwa [sized]
  rcases exists_qhTicketParseInto_of_part read identified others with ⟨after, failed, written⟩
  rw [failed] at unchanged
  exact Buffer.overwrite_filled_ne fits (written.symm.trans (unchanged rfl).1)

variable (iroh codec) in
/-- All three are written or none, unless the id fits and one of the others does
not. -/
theorem writesAllOrNone_iff (ticket : Option Text) (sizes : Sizes) :
    WritesAllOrNone iroh codec ticket sizes ↔ ¬ FitsInPart iroh codec ticket sizes := by
  constructor
  · intro whole part
    exact not_allOrNone_filled part (whole _ (Outputs.sizes_filled sizes))
  · rintro apart outs rfl
    exact allOrNone_of_not_fitsInPart apart

end Calls

/-- The buffers of the extension and a token of 512 letters. -/
theorem not_writesAllOrNone_long :
    ¬ WritesAllOrNone textIroh TicketCodec.json (some (ticketText (tokenTicket longToken)))
      ⟨some endpointIdLen, some relayUrlLen, some tokenLen⟩ := by
  intro whole
  have minted := toTicket_tokenTicket longToken
  have read : readTicket textIroh TicketCodec.json (some (ticketText (tokenTicket longToken))) =
      .ok ⟨onesKey.toZ32, onesPeer.relayUrl, longToken⟩ := by
    rw [readTicket, untilNul_eq_self (nul_notMem_ticket TicketCodec.lawful_json minted),
      parseTicket_tokenTicket]
  have fits : Buffer.FitsIn (some endpointIdLen) onesKey.toZ32 := by
    rw [Buffer.fitsIn_some_iff]
    decide +kernel
  have large : ¬ Buffer.FitsIn (some tokenLen) longToken := by
    rw [Buffer.fitsIn_some_iff]
    decide +kernel
  have part : FitsInPart textIroh TicketCodec.json (some (ticketText (tokenTicket longToken)))
      ⟨some endpointIdLen, some relayUrlLen, some tokenLen⟩ :=
    ⟨_, read, fits, fun both => large both.2⟩
  exact not_allOrNone_filled part (whole _ (Outputs.sizes_filled _))

end Quackhole.Ticket
