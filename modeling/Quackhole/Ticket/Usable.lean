import Quackhole.Ticket.Keys

/-!
# Accepted tickets

A ticket is refused where its relay is the empty text, and the relay is trimmed
after that.  A relay of blanks passes the test, and makes a peer that has no
relay and no ticket.
-/

namespace Quackhole.Ticket

open Quackhole.Word

section Iroh

variable {isKey : Bytes → Bool} {Url : Type} (iroh : Iroh (Key isKey) Url) (codec : TicketCodec)

/-- A peer that can be handed on: it has a relay and a normalised id, and its
ticket is read as the peer itself. -/
structure Peer.Usable (peer : Peer) : Prop where
  relayed : peer.relayUrl ≠ []
  normalised : ∃ key : Key isKey, peer.endpointId = key.toZ32
  reminted : ∃ ticket, peer.toTicket codec = .ok ticket ∧
    Peer.parseTicket iroh codec ticket = .ok peer

/-- A relay of blanks is refused by whoever reads the ticket that a text carries,
and by whoever makes a ticket of the same fields. -/
def RefusesRelayless (input : Text) : Prop :=
  ∀ ticket, carriedTicket codec input = some ticket → Blank ticket.r →
    (∀ peer, Peer.parseTicket iroh codec input ≠ .ok peer) ∧
      ∀ peer minted, Peer.new iroh ticket.e ticket.r ticket.t = .ok peer →
        peer.toTicket codec ≠ .ok minted

/-- Whatever is accepted is usable. -/
def AcceptsUsable (input : Text) : Prop :=
  (∀ peer, Peer.parseTicket iroh codec input = .ok peer → peer.Usable iroh codec) ∧
    RefusesRelayless iroh codec input

/-- The text carries a ticket of a real id whose relay is one or more blanks. -/
def CarriesBlankRelay (input : Text) : Prop :=
  ∃ ticket, carriedTicket codec input = some ticket ∧ ticket.r ≠ [] ∧ Blank ticket.r ∧
    ∃ key, iroh.parseEndpointId ticket.e = .ok key

end Iroh

section Peers

variable {Id Url : Type} {iroh : Iroh Id Url} {codec : TicketCodec}

/-- No ticket is minted of a relay of blanks. -/
theorem toTicket_ne_ok_of_blank {endpointId relayUrl token : Text} {peer : Peer} {minted : Text}
    (blank : Blank relayUrl) (made : Peer.new iroh endpointId relayUrl token = .ok peer) :
    peer.toTicket codec ≠ .ok minted := by
  rcases Peer.new_eq_ok_iff.mp made with ⟨id, -, rfl⟩
  rw [Peer.toTicket, if_pos (by simpa using trim_eq_nil_iff.mpr blank)]
  rintro ⟨⟩

end Peers

section Accepted

variable {isKey : Bytes → Bool} {Url : Type} (isStrict : Bool) (parseUrl : Text → Option Url)
  (scheme urlText : Url → Text) {codec : TicketCodec}

/-- A peer whose relay is not blank is usable, whatever form its id had. -/
theorem usable_of_new (lawful : codec.Lawful) {endpointId relayUrl token : Text} {peer : Peer}
    (made : Peer.new (keyIroh isKey isStrict parseUrl scheme urlText) endpointId relayUrl token =
      .ok peer)
    (relayed : ¬ Blank relayUrl) :
    peer.Usable (keyIroh isKey isStrict parseUrl scheme urlText) codec := by
  rcases exists_toTicket lawful (parseEndpointId_toZ32 isStrict parseUrl scheme urlText)
    (lawful_keyIroh isStrict parseUrl scheme urlText).toZ32_ne_nil made relayed with
    ⟨payload, minted, -, read⟩
  rcases Peer.new_eq_ok_iff.mp made with ⟨key, -, rfl⟩
  constructor
  · exact mt trim_eq_nil_iff.mp relayed
  · exact ⟨key, rfl⟩
  · have again := read [] [] (by decide) (by simp)
    rw [List.nil_append, List.append_nil] at again
    exact ⟨_, minted, again⟩

/-- What is accepted is usable unless the relay of the ticket is made of blanks. -/
theorem acceptsUsable_iff (lawful : codec.Lawful) (input : Text) :
    AcceptsUsable (keyIroh isKey isStrict parseUrl scheme urlText) codec input ↔
      ¬ CarriesBlankRelay (keyIroh isKey isStrict parseUrl scheme urlText) codec input := by
  constructor
  · rintro ⟨-, refuses⟩ ⟨ticket, carried, relayed, blank, key, accepted⟩
    apply (refuses ticket carried blank).1
    exact parseTicket_eq_ok_iff.mpr ⟨ticket, carried, ne_nil_of_accepted accepted, relayed,
      Peer.new_eq_ok_iff.mpr ⟨key, accepted, rfl⟩⟩
  · intro filled
    have relayed : ∀ peer ticket, carriedTicket codec input = some ticket →
        Peer.parseTicket (keyIroh isKey isStrict parseUrl scheme urlText) codec input = .ok peer →
        ¬ Blank ticket.r := by
      intro peer ticket carried read blank
      rcases parseTicket_eq_ok_iff.mp read with ⟨other, same, -, nonempty, made⟩
      obtain rfl := Option.some.inj (carried.symm.trans same)
      rcases Peer.new_eq_ok_iff.mp made with ⟨key, accepted, -⟩
      exact filled ⟨ticket, carried, nonempty, blank, key, accepted⟩
    constructor
    · intro peer read
      rcases parseTicket_eq_ok_iff.mp read with ⟨ticket, carried, -, -, made⟩
      exact usable_of_new isStrict parseUrl scheme urlText lawful made
        (relayed peer ticket carried read)
    · intro ticket carried blank
      constructor
      · exact fun peer read => relayed peer ticket carried read blank
      · exact fun peer minted made => toTicket_ne_ok_of_blank blank made

end Accepted

/-! ## Tickets of one key -/

/-- The ticket of the key, with a blank for a relay. -/
def blankTicket : TicketJson :=
  ⟨onesKey.toZ32, [' '], []⟩

/-- The text of a ticket. -/
def ticketText (ticket : TicketJson) : Text :=
  [] ++ (ticketMarker ++ TicketCodec.json.encode (utf8 (TicketCodec.json.toString ticket))) ++ []

/-- The ticket of the peer, with its relay. -/
def onesTicket : TicketJson :=
  ⟨onesPeer.endpointId, onesPeer.relayUrl, onesPeer.token⟩

/-- The ticket of the key, with the relay and another token. -/
def tokenTicket (token : Text) : TicketJson :=
  ⟨onesKey.toZ32, onesPeer.relayUrl, token⟩

/-- A token of 512 letters. -/
def longToken : Text :=
  List.replicate 512 'a'

theorem carriedTicket_ticketText (ticket : TicketJson) :
    carriedTicket TicketCodec.json (ticketText ticket) = some ticket :=
  carriedTicket_append TicketCodec.lawful_json ticket (by decide) (by simp)

theorem toTicket_tokenTicket (token : Text) :
    Peer.toTicket TicketCodec.json ⟨onesKey.toZ32, onesPeer.relayUrl, token⟩ =
      .ok (ticketText (tokenTicket token)) := by
  have relayed : onesPeer.relayUrl ≠ [] := by decide
  rw [Peer.toTicket, if_neg (by simpa using relayed), ticketText, List.nil_append,
    List.append_nil]
  rfl

theorem accepted_onesKey : textIroh.parseEndpointId onesKey.toZ32 = .ok onesKey :=
  parseEndpointId_toZ32 true some _ _ onesKey

theorem new_tokenTicket (token : Text) :
    Peer.new textIroh onesKey.toZ32 onesPeer.relayUrl token =
      .ok ⟨onesKey.toZ32, onesPeer.relayUrl, token⟩ := by
  have solid : Solid onesPeer.relayUrl := by decide
  apply Peer.new_eq_ok_iff.mpr
  refine ⟨onesKey, accepted_onesKey, ?_⟩
  rw [trim_eq_self solid]
  rfl

theorem parseTicket_tokenTicket (token : Text) :
    Peer.parseTicket textIroh TicketCodec.json (ticketText (tokenTicket token)) =
      .ok ⟨onesKey.toZ32, onesPeer.relayUrl, token⟩ :=
  parseTicket_eq_ok_iff.mpr ⟨tokenTicket token, carriedTicket_ticketText _,
    ne_nil_of_accepted accepted_onesKey, by simp [tokenTicket, onesPeer], new_tokenTicket token⟩

theorem not_acceptsUsable_blank :
    ¬ AcceptsUsable textIroh TicketCodec.json (ticketText blankTicket) := by
  intro usable
  have read : Peer.parseTicket textIroh TicketCodec.json (ticketText blankTicket) =
      .ok ⟨onesKey.toZ32, [], []⟩ :=
    parseTicket_eq_ok_iff.mpr ⟨blankTicket, carriedTicket_ticketText blankTicket,
      ne_nil_of_accepted accepted_onesKey, by decide,
      Peer.new_eq_ok_iff.mpr ⟨onesKey, accepted_onesKey, rfl⟩⟩
  exact (usable.1 _ read).relayed rfl

theorem acceptsUsable_onesTicket :
    AcceptsUsable textIroh TicketCodec.json (ticketText onesTicket) := by
  apply (acceptsUsable_iff true some _ _ TicketCodec.lawful_json _).mpr
  rintro ⟨ticket, carried, -, blank, -⟩
  obtain rfl := Option.some.inj ((carriedTicket_ticketText onesTicket).symm.trans carried)
  have filled : ¬ Blank onesTicket.r := by decide
  exact filled blank

end Quackhole.Ticket
