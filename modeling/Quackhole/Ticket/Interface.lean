import Quackhole.Ticket.Peer

/-!
# Tickets across the C interface

Strings cross the interface between the core and the extension ended by a NUL,
in buffers whose size the caller chooses.  A string that does not fit is
refused, and one with a NUL inside is read up to it.
-/

namespace Quackhole.Ticket

open Quackhole.Word

/-- What the other side reads of a string: the characters before the first
NUL. -/
def untilNul (text : Text) : Text :=
  text.takeWhile (· ≠ '\x00')

/-- Write a string into a caller's buffer of `outLen` bytes. -/
def writeStrOrErr (outLen : Nat) (value : Text) : Except String Text :=
  if outLen < (utf8 value).length + 1 then
    .error ("a " ++ toString outLen ++ " byte buffer does not fit " ++
      toString (utf8 value).length ++ " bytes")
  else .ok (untilNul value)

/-- `QH_ENDPOINT_ID_LEN`. -/
def endpointIdLen : Nat := 80

/-- `QH_ADDRESS_LEN`. -/
def addressLen : Nat := 96

/-- `QH_SECRET_NAME_LEN`. -/
def secretNameLen : Nat := 64

/-- `QH_RELAY_URL_LEN`. -/
def relayUrlLen : Nat := 512

/-- `QH_TOKEN_LEN`. -/
def tokenLen : Nat := 512

/-- `QH_TICKET_LEN`. -/
def ticketLen : Nat := 2048

section Calls

variable {Id Url : Type} (iroh : Iroh Id Url) (codec : TicketCodec)

/-- `qh_ticket_mint`. -/
def qhTicketMint (endpointId relayUrl token : Text) (outLen : Nat) : Except String Text :=
  (Peer.new iroh (untilNul endpointId) (untilNul relayUrl) (untilNul token)).bind fun peer =>
    (peer.toTicket codec).bind (writeStrOrErr outLen)

/-- `qh_ticket_parse`: the three fields, each in its own buffer. -/
def qhTicketParse (ticket : Text) (idLen relayLen tokenLen : Nat) : Except String Peer :=
  (Peer.parseTicket iroh codec (untilNul ticket)).bind fun peer =>
    (writeStrOrErr idLen peer.endpointId).bind fun endpointId =>
      (writeStrOrErr relayLen peer.relayUrl).bind fun relayUrl =>
        (writeStrOrErr tokenLen peer.token).map fun token => ⟨endpointId, relayUrl, token⟩

/-- A peer of an endpoint id alone, for the spellings that ignore the rest. -/
def peerFromId (endpointId : Text) : Except String Peer :=
  Peer.new iroh (untilNul endpointId) [] []

/-- `qh_peer_address`. -/
def qhPeerAddress (endpointId : Text) (outLen : Nat) : Except String Text :=
  (peerFromId iroh endpointId).bind fun peer => writeStrOrErr outLen peer.address

/-- `qh_peer_secret_name`. -/
def qhPeerSecretName (endpointId : Text) (outLen : Nat) : Except String Text :=
  (peerFromId iroh endpointId).bind fun peer => writeStrOrErr outLen peer.secretName

end Calls

/-- A string without a NUL is read whole. -/
theorem untilNul_eq_self {text : Text} (absent : '\x00' ∉ text) : untilNul text = text := by
  rw [untilNul, List.takeWhile_eq_self_iff]
  intro c member
  rw [decide_eq_true_eq]
  rintro rfl
  exact absent member

/-- Only a string without a NUL is read whole. -/
theorem untilNul_eq_self_iff {text : Text} : untilNul text = text ↔ '\x00' ∉ text := by
  constructor
  · intro whole member
    have read := List.takeWhile_eq_self_iff.mp whole _ member
    simp at read
  · exact untilNul_eq_self

/-- What is cut off is nothing, or begins with the NUL. -/
theorem exists_eq_untilNul (text : Text) :
    ∃ rest, text = untilNul text ++ rest ∧ ∀ c ∈ rest.head?, c = '\x00' := by
  refine ⟨text.dropWhile (· ≠ '\x00'), (List.takeWhile_append_dropWhile).symm, fun c first => ?_⟩
  have stops := List.head?_dropWhile_not (fun c : Char => decide (c ≠ '\x00')) text
  rw [Option.mem_def.mp first] at stops
  simpa using stops

/-- Cutting twice is cutting once. -/
theorem untilNul_untilNul (text : Text) : untilNul (untilNul text) = untilNul text := by
  apply untilNul_eq_self
  intro member
  simpa using List.mem_takeWhile_imp member

/-- What fits with its NUL is read up to its first NUL. -/
theorem writeStrOrErr_eq_ok_iff {outLen : Nat} {value read : Text} :
    writeStrOrErr outLen value = .ok read ↔
      (utf8 value).length + 1 ≤ outLen ∧ read = untilNul value := by
  rw [writeStrOrErr]
  by_cases large : outLen < (utf8 value).length + 1
  · rw [if_pos large]
    constructor
    · rintro ⟨⟩
    · rintro ⟨fits, -⟩
      omega
  · rw [if_neg large, Except.ok.injEq]
    constructor
    · rintro rfl
      exact ⟨Nat.not_lt.mp large, rfl⟩
    · rintro ⟨-, rfl⟩
      rfl

/-- What was written is read up to its first NUL. -/
theorem writeStrOrErr_eq_ok {outLen : Nat} {value read : Text}
    (written : writeStrOrErr outLen value = .ok read) : read = untilNul value :=
  (writeStrOrErr_eq_ok_iff.mp written).2

/-- A call in two stages succeeds when both do. -/
theorem bind_eq_ok_iff {α β : Type} {first : Except String α} {next : α → Except String β}
    {result : β} :
    first.bind next = .ok result ↔ ∃ middle, first = .ok middle ∧ next middle = .ok result := by
  cases first with
  | ok middle => simp [Except.bind]
  | error message => simp [Except.bind]

section Calls

variable {Id Url : Type} {iroh : Iroh Id Url} {codec : TicketCodec}

theorem nul_notMem_ticket (lawful : codec.Lawful) {peer : Peer} {ticket : Text}
    (minted : peer.toTicket codec = .ok ticket) : '\x00' ∉ ticket := by
  rw [Peer.toTicket] at minted
  split at minted
  · cases minted
  · intro member
    rw [← Except.ok.inj minted] at member
    rcases List.mem_append.mp member with marked | carried
    · revert marked
      decide
    · have safe := (lawful.payload _).2 _ carried
      revert safe
      decide

/-- A ticket that is read before a NUL is read from the whole text. -/
theorem parseTicket_of_untilNul {ticket : Text} {peer : Peer}
    (read : Peer.parseTicket iroh codec (untilNul ticket) = .ok peer) :
    Peer.parseTicket iroh codec ticket = .ok peer := by
  rcases parseTicket_eq_ok_iff.mp read with ⟨fields, carried, identified, relayed, made⟩
  rcases exists_eq_untilNul ticket with ⟨rest, whole, nul⟩
  refine parseTicket_eq_ok_iff.mpr ⟨fields, ?_, identified, relayed, made⟩
  rw [whole]
  apply carriedTicket_of_prefix carried
  intro c first
  rw [nul c first]
  decide

/-- A ticket is minted where there is a peer, a relay and room for the whole of it. -/
theorem qhTicketMint_eq_ok_iff (lawful : codec.Lawful) {endpointId relayUrl token ticket : Text}
    {outLen : Nat} :
    qhTicketMint iroh codec endpointId relayUrl token outLen = .ok ticket ↔
      ∃ peer, Peer.new iroh (untilNul endpointId) (untilNul relayUrl) (untilNul token) = .ok peer ∧
        peer.toTicket codec = .ok ticket ∧ (utf8 ticket).length + 1 ≤ outLen := by
  rw [qhTicketMint, bind_eq_ok_iff]
  apply exists_congr
  intro peer
  rw [bind_eq_ok_iff]
  constructor
  · rintro ⟨made, written, minted, stored⟩
    rcases writeStrOrErr_eq_ok_iff.mp stored with ⟨fits, rfl⟩
    rw [untilNul_eq_self (nul_notMem_ticket lawful minted)]
    exact ⟨made, minted, fits⟩
  · rintro ⟨made, minted, fits⟩
    refine ⟨made, ticket, minted, writeStrOrErr_eq_ok_iff.mpr ⟨fits, ?_⟩⟩
    exact (untilNul_eq_self (nul_notMem_ticket lawful minted)).symm

/-- A ticket is read where each of its three fields fits its buffer. -/
theorem qhTicketParse_eq_ok_iff {ticket : Text} {idLen relayLen tokenLen : Nat} {read : Peer} :
    qhTicketParse iroh codec ticket idLen relayLen tokenLen = .ok read ↔
      ∃ peer, Peer.parseTicket iroh codec (untilNul ticket) = .ok peer ∧
        (utf8 peer.endpointId).length + 1 ≤ idLen ∧ (utf8 peer.relayUrl).length + 1 ≤ relayLen ∧
        (utf8 peer.token).length + 1 ≤ tokenLen ∧
        read = ⟨untilNul peer.endpointId, untilNul peer.relayUrl, untilNul peer.token⟩ := by
  rw [qhTicketParse, bind_eq_ok_iff]
  apply exists_congr
  intro peer
  apply and_congr_right
  intro parsed
  rw [bind_eq_ok_iff]
  constructor
  · rintro ⟨endpointId, first, rest⟩
    rcases bind_eq_ok_iff.mp rest with ⟨relayUrl, second, last⟩
    rcases writeStrOrErr_eq_ok_iff.mp first with ⟨identified, rfl⟩
    rcases writeStrOrErr_eq_ok_iff.mp second with ⟨relayed, rfl⟩
    cases third : writeStrOrErr tokenLen peer.token with
    | error message =>
        rw [third] at last
        cases last
    | ok token =>
        rcases writeStrOrErr_eq_ok_iff.mp third with ⟨secret, rfl⟩
        rw [third] at last
        exact ⟨identified, relayed, secret, (Except.ok.inj last).symm⟩
  · rintro ⟨identified, relayed, secret, rfl⟩
    refine ⟨_, writeStrOrErr_eq_ok_iff.mpr ⟨identified, rfl⟩, ?_⟩
    apply bind_eq_ok_iff.mpr
    refine ⟨_, writeStrOrErr_eq_ok_iff.mpr ⟨relayed, rfl⟩, ?_⟩
    rw [writeStrOrErr_eq_ok_iff.mpr ⟨secret, rfl⟩]
    rfl

/-- A ticket minted for a bound endpoint carries the token up to its first
NUL. -/
theorem token_of_qhTicketMint (crates : iroh.Lawful) (lawful : codec.Lawful) {endpointId : Id}
    {relayUrl token ticket : Text} {outLen : Nat}
    (minted : qhTicketMint iroh codec (iroh.toZ32 endpointId) relayUrl token outLen = .ok ticket) :
    ∃ read, Peer.parseTicket iroh codec ticket = .ok read ∧ read.token = untilNul token := by
  rcases (qhTicketMint_eq_ok_iff lawful).mp minted with ⟨peer, made, mint, -⟩
  rcases Peer.new_eq_ok_iff.mp made with ⟨parsed, -, rfl⟩
  exact parseTicket_toTicket lawful (crates.toZ32_ne_nil parsed)
    (crates.exists_parseEndpointId_toZ32 parsed) mint

end Calls

end Quackhole.Ticket
