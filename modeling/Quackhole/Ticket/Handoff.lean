import Quackhole.Ticket.Interface
import Quackhole.Ticket.Usable

/-!
# From the machine that serves to the one that attaches

A ticket is minted into one buffer and read into three.  The one for the ticket
has room for a relay and a token that the other two have not.
-/

namespace Quackhole.Ticket

open Quackhole.Word

/-- The reading side has room for the relay and the token, each with its NUL. -/
def HasRoom (relayUrl token : Text) : Prop :=
  (utf8 (trim relayUrl)).length + 1 ≤ relayUrlLen ∧ (utf8 token).length + 1 ≤ tokenLen

theorem Key.length_utf8_toZ32 {isKey : Bytes → Bool} (key : Key isKey) :
    (utf8 key.toZ32).length = 52 := by
  have ascii : ∀ c ∈ key.toZ32, String.utf8EncodeChar c = [UInt8.ofNat c.toNat] := by
    intro c member
    apply utf8EncodeChar_ascii
    have letters : zBase32.letters.all (fun letter => decide (letter.toNat < 128)) = true := by
      decide
    exact of_decide_eq_true (List.all_eq_true.mp letters c (key.mem_letters_of_mem_toZ32 c member))
  rw [utf8, List.length_flatMap, List.map_congr_left fun c member => congrArg _ (ascii c member)]
  simp [key.length_toZ32]

section Iroh

variable {isKey : Bytes → Bool} {Url : Type} (isStrict : Bool) (parseUrl : Text → Option Url)
  (scheme urlText : Url → Text) {codec : TicketCodec}

/-- A ticket that was minted from strings without a NUL is read as the peer of
its id, its trimmed relay and its token. -/
theorem parseTicket_of_qhTicketMint (lawful : codec.Lawful)
    {endpointId relayUrl token ticket : Text} {outLen : Nat} (idNul : '\x00' ∉ endpointId)
    (relayNul : '\x00' ∉ relayUrl) (tokenNul : '\x00' ∉ token)
    (minted : qhTicketMint (keyIroh isKey isStrict parseUrl scheme urlText) codec endpointId
      relayUrl token outLen = .ok ticket) :
    ∃ key : Key isKey,
      (keyIroh isKey isStrict parseUrl scheme urlText).parseEndpointId endpointId = .ok key ∧
      Peer.parseTicket (keyIroh isKey isStrict parseUrl scheme urlText) codec (untilNul ticket) =
        .ok ⟨key.toZ32, trim relayUrl, token⟩ := by
  rcases (qhTicketMint_eq_ok_iff lawful).mp minted with ⟨peer, made, mint, -⟩
  rw [untilNul_eq_self idNul, untilNul_eq_self relayNul, untilNul_eq_self tokenNul] at made
  rcases Peer.new_eq_ok_iff.mp made with ⟨key, accepted, rfl⟩
  have relayed : ¬ Blank relayUrl := fun blank => toTicket_ne_ok_of_blank blank made mint
  rcases (usable_of_new isStrict parseUrl scheme urlText lawful made relayed).reminted with
    ⟨again, reminted, read⟩
  obtain rfl := Except.ok.inj (mint.symm.trans reminted)
  rw [untilNul_eq_self (nul_notMem_ticket lawful mint)]
  exact ⟨key, accepted, read⟩

/-- A ticket is refused where there is no room for its relay or its token. -/
theorem exists_error_of_large {Id : Type} {iroh : Iroh Id Url} {ticket : Text} {peer : Peer}
    {idLen relayLen tokenLen : Nat}
    (read : Peer.parseTicket iroh codec (untilNul ticket) = .ok peer)
    (large : ¬ ((utf8 peer.relayUrl).length + 1 ≤ relayLen ∧
      (utf8 peer.token).length + 1 ≤ tokenLen)) :
    ∃ message, qhTicketParse iroh codec ticket idLen relayLen tokenLen = .error message := by
  cases result : qhTicketParse iroh codec ticket idLen relayLen tokenLen with
  | error message => exact ⟨message, rfl⟩
  | ok strings =>
      rcases qhTicketParse_eq_ok_iff.mp result with ⟨other, parsed, -, relayed, secret, -⟩
      obtain rfl := Except.ok.inj (read.symm.trans parsed)
      exact absurd ⟨relayed, secret⟩ large

/-- What is minted is read where there is room for the relay and the token, and
is refused elsewhere. -/
theorem qhTicketParse_of_qhTicketMint (lawful : codec.Lawful)
    {endpointId relayUrl token ticket : Text} (idNul : '\x00' ∉ endpointId)
    (relayNul : '\x00' ∉ relayUrl) (tokenNul : '\x00' ∉ token)
    (minted : qhTicketMint (keyIroh isKey isStrict parseUrl scheme urlText) codec endpointId
      relayUrl token ticketLen = .ok ticket) :
    ∃ key : Key isKey,
      (keyIroh isKey isStrict parseUrl scheme urlText).parseEndpointId endpointId = .ok key ∧
      (HasRoom relayUrl token →
        qhTicketParse (keyIroh isKey isStrict parseUrl scheme urlText) codec ticket endpointIdLen
          relayUrlLen tokenLen = .ok ⟨key.toZ32, trim relayUrl, token⟩) ∧
      (¬ HasRoom relayUrl token → ∃ message,
        qhTicketParse (keyIroh isKey isStrict parseUrl scheme urlText) codec ticket endpointIdLen
          relayUrlLen tokenLen = .error message) := by
  rcases parseTicket_of_qhTicketMint isStrict parseUrl scheme urlText lawful idNul relayNul
    tokenNul minted with ⟨key, accepted, read⟩
  refine ⟨key, accepted, ?_, ?_⟩
  · rintro ⟨relayed, secret⟩
    apply qhTicketParse_eq_ok_iff.mpr
    refine ⟨_, read, ?_, relayed, secret, ?_⟩
    · rw [key.length_utf8_toZ32]
      decide
    · have idWhole := untilNul_eq_self
        ((lawful_keyIroh isStrict parseUrl scheme urlText).nul_notMem_toZ32 key)
      have relayWhole := untilNul_eq_self (mt mem_of_mem_trim relayNul)
      rw [relayWhole, untilNul_eq_self tokenNul]
      exact congrArg (Peer.mk · (trim relayUrl) token) idWhole.symm
  · exact exists_error_of_large read

end Iroh

/-! ## Tokens of one key -/

theorem qhTicketMint_tokenTicket {token : Text} (nul : '\x00' ∉ token)
    (fits : (utf8 (ticketText (tokenTicket token))).length + 1 ≤ ticketLen) :
    qhTicketMint textIroh TicketCodec.json onesKey.toZ32 onesPeer.relayUrl token ticketLen =
      .ok (ticketText (tokenTicket token)) := by
  have idNul : '\x00' ∉ onesKey.toZ32 := by decide +kernel
  have relayNul : '\x00' ∉ onesPeer.relayUrl := by decide
  apply (qhTicketMint_eq_ok_iff TicketCodec.lawful_json).mpr
  refine ⟨⟨onesKey.toZ32, onesPeer.relayUrl, token⟩, ?_, ?_, fits⟩
  · rw [untilNul_eq_self idNul, untilNul_eq_self relayNul, untilNul_eq_self nul]
    exact new_tokenTicket token
  · exact toTicket_tokenTicket token

theorem qhTicketParse_of_qhTicketMint_short :
    qhTicketParse textIroh TicketCodec.json (ticketText (tokenTicket "tok".toList)) endpointIdLen
      relayUrlLen tokenLen = .ok ⟨onesKey.toZ32, trim onesPeer.relayUrl, "tok".toList⟩ := by
  have nul : '\x00' ∉ "tok".toList := by decide
  have minted := qhTicketMint_tokenTicket nul (by decide +kernel)
  rcases qhTicketParse_of_qhTicketMint true some _ _ TicketCodec.lawful_json
    (by decide +kernel) (by decide) nul minted with ⟨key, accepted, read, -⟩
  obtain rfl := Except.ok.inj (accepted_onesKey.symm.trans accepted)
  exact read ⟨by decide, by decide⟩

/-- A token of 512 letters is minted and not read. -/
theorem qhTicketParse_long_refused :
    qhTicketMint textIroh TicketCodec.json onesKey.toZ32 onesPeer.relayUrl longToken ticketLen =
        .ok (ticketText (tokenTicket longToken)) ∧
      ∃ message, qhTicketParse textIroh TicketCodec.json (ticketText (tokenTicket longToken))
        endpointIdLen relayUrlLen tokenLen = .error message := by
  have nul : '\x00' ∉ longToken := by decide +kernel
  have long : ¬ (utf8 longToken).length + 1 ≤ tokenLen := by decide +kernel
  have whole := untilNul_eq_self
    (nul_notMem_ticket TicketCodec.lawful_json (toTicket_tokenTicket longToken))
  constructor
  · exact qhTicketMint_tokenTicket nul (by decide +kernel)
  · have read : Peer.parseTicket textIroh TicketCodec.json
        (untilNul (ticketText (tokenTicket longToken))) =
          .ok ⟨onesKey.toZ32, onesPeer.relayUrl, longToken⟩ := by
      rw [whole, parseTicket_tokenTicket]
    exact exists_error_of_large read fun room => long room.2

end Quackhole.Ticket
