import Quackhole.Ticket.Identity
import Quackhole.Word.Base64
import Quackhole.Word.Json
import Quackhole.Word.Search

/-!
# Peers and their tickets

Everything one machine needs in order to reach another, and the spellings
derived from it: the ticket, the address a client dials and the name of the
secret the token is filed under.  The last section is the C interface, which
hands strings over in buffers of a fixed size and ends them at the first NUL.
-/

namespace Quackhole.Ticket

open Quackhole.Word

/-- The version marker of a ticket. -/
def ticketMarker : Text :=
  "qh1_".toList

/-- The last label of an address the tunnel owns. -/
def irohSuffix : Text :=
  ".iroh".toList

/-- The port every address names. -/
def quackPort : Text :=
  "9494".toList

/-- The start of a secret's name, which a bare endpoint id cannot be. -/
def secretMarker : Text :=
  "qh_".toList

/-- The wire form of a ticket. -/
structure TicketJson where
  e : Text
  r : Text
  t : Text
deriving DecidableEq

/-- The codecs a ticket goes through: `serde_json` and unpadded URL-safe
base64. -/
structure TicketCodec where
  toString : TicketJson → Text
  fromSlice : Bytes → Option TicketJson
  encode : Bytes → Text
  decode : Text → Option Bytes

/-- Both codecs read back what they write, and base64 keeps to its alphabet. -/
structure TicketCodec.Lawful (codec : TicketCodec) : Prop where
  fromSlice_toString : ∀ ticket, codec.fromSlice (utf8 (codec.toString ticket)) = some ticket
  decode_encode : ∀ bytes, codec.decode (codec.encode bytes) = some bytes
  isUrlSafe_of_mem_encode : ∀ bytes, ∀ c ∈ codec.encode bytes, Base64.IsUrlSafe c
  encode_ne_nil : ∀ bytes, bytes ≠ [] → codec.encode bytes ≠ []
  toString_ne_nil : ∀ ticket, codec.toString ticket ≠ []

/-- One remote database, as the local one knows it. -/
structure Peer where
  endpointId : Text
  relayUrl : Text
  token : Text
deriving DecidableEq

section Iroh

variable {Id Url : Type} (iroh : Iroh Id Url) (codec : TicketCodec)

/-- Validate an endpoint id and pair it with a relay and a token. -/
def Peer.new (endpointId relayUrl token : Text) : Except String Peer :=
  (iroh.parseEndpointId endpointId).map fun parsed =>
    { endpointId := iroh.toZ32 parsed, relayUrl := trim relayUrl, token := token }

namespace Peer

/-- The address a client dials. -/
def address (peer : Peer) : Text :=
  "quack:".toList ++ peer.endpointId ++ irohSuffix ++ ':' :: quackPort

theorem address_eq (peer : Peer) :
    peer.address = "quack:".toList ++ peer.endpointId ++ ".iroh:9494".toList := by
  have suffix : irohSuffix ++ ':' :: quackPort = ".iroh:9494".toList := by decide
  exact (List.append_assoc _ _ _).trans (congrArg _ suffix)

/-- A DuckDB identifier naming this peer's secret. -/
def secretName (peer : Peer) : Text :=
  secretMarker ++ peer.endpointId

/-- The ticket of a peer, which is refused when there is no relay. -/
def toTicket (peer : Peer) : Except String Text :=
  if peer.relayUrl.isEmpty then
    .error ("cannot mint a ticket without a relay url: the holder would have to resolve this " ++
      "endpoint through pkarr, which routinely has not seen a server this new")
  else
    .ok (ticketMarker ++
      codec.encode (utf8 (codec.toString ⟨peer.endpointId, peer.relayUrl, peer.token⟩)))

end Peer

/-- The first run of ticket characters after the marker, if any. -/
def findTicket (text : Text) : Option Text :=
  (findWord ticketMarker text).bind fun start =>
    let rest := text.drop (start + ticketMarker.length)
    let run := rest.takeWhile fun c => c.isAlphanum || c == '-' || c == '_'
    if run.isEmpty then none
    else some ((text.drop start).take (ticketMarker.length + run.length))

/-- Read a ticket back. -/
def Peer.parseTicket (input : Text) : Except String Peer :=
  let raw := trim input
  if raw.isEmpty then .error "Paste the ticket your laptop printed."
  else
    match findTicket raw with
    | none =>
        .error (if (utf8 raw).length < 60 ∧ ' ' ∉ raw then
          "That looks like an endpoint id, not a ticket. The ticket starts with qh1_ and also " ++
            "carries the relay and token."
        else "No ticket in that text. Look for the string starting with qh1_.")
    | some found =>
        match (codec.decode (found.drop ticketMarker.length)).bind codec.fromSlice with
        | none =>
            .error ("That ticket is damaged -- it decodes to nothing. Copy the whole qh1_ string " ++
              "and try again.")
        | some ticket =>
            if ticket.e.isEmpty then .error "That ticket has no endpoint id in it."
            else if ticket.r.isEmpty then
              .error ("That ticket was minted before the endpoint knew its relay. Re-run the " ++
                "ticket line on your laptop.")
            else Peer.new iroh ticket.e ticket.r ticket.t

/-! ## What is minted is read back -/

variable {iroh : Iroh Id Url} {codec : TicketCodec}

/-- A peer is made of an accepted id and a trimmed relay. -/
theorem Peer.new_eq_ok_iff {endpointId relayUrl token : Text} {peer : Peer} :
    Peer.new iroh endpointId relayUrl token = .ok peer ↔
      ∃ id, iroh.parseEndpointId endpointId = .ok id ∧
        peer = ⟨iroh.toZ32 id, trim relayUrl, token⟩ := by
  rw [Peer.new]
  cases iroh.parseEndpointId endpointId with
  | error message =>
      constructor
      · rintro ⟨⟩
      · rintro ⟨id, ⟨⟩, -⟩
  | ok id =>
      constructor
      · intro made
        exact ⟨id, rfl, (Except.ok.inj made).symm⟩
      · rintro ⟨_, ⟨⟩, rfl⟩
        rfl

/-- The characters of a ticket are those of URL-safe base64. -/
theorem ticketChar_iff (c : Char) :
    (c.isAlphanum || c == '-' || c == '_') = true ↔ Base64.IsUrlSafe c := by
  simp [or_assoc, Base64.IsUrlSafe]

/-- A run of ticket characters is taken whole, up to a character that is not
one. -/
theorem takeWhile_append_of_isUrlSafe {text after : Text}
    (safe : ∀ c ∈ text, Base64.IsUrlSafe c) (stops : ∀ c ∈ after.head?, ¬ Base64.IsUrlSafe c) :
    (text ++ after).takeWhile (fun c => c.isAlphanum || c == '-' || c == '_') = text := by
  rw [List.takeWhile_append_of_pos fun c member => (ticketChar_iff c).mpr (safe c member)]
  cases after with
  | nil => simp
  | cons c after =>
      have other := mt (ticketChar_iff c).mp (stops c rfl)
      rw [List.takeWhile_cons, if_neg other, List.append_nil]

theorem not_isWhitespace_of_isUrlSafe {c : Char} (safe : Base64.IsUrlSafe c) :
    ¬ isWhitespace c := by
  rcases safe with alphanumeric | rfl | rfl
  · have range : 48 ≤ c.toNat ∧ c.toNat ≤ 122 := by
      delta Char.isAlphanum Char.isAlpha Char.isUpper Char.isLower Char.isDigit at alphanumeric
      simp [UInt32.le_iff_toNat_le] at alphanumeric
      omega
    intro blank
    simp [isWhitespace] at blank
    omega
  · decide
  · decide

/-- A marker and ticket characters after it are found as they stand, in any
text that has no marker before them and goes on with another character. -/
theorem findTicket_append {before text after : Text} (absent : ¬ ticketMarker <:+: before)
    (safe : ∀ c ∈ text, Base64.IsUrlSafe c) (nonempty : text ≠ [])
    (stops : ∀ c ∈ after.head?, ¬ Base64.IsUrlSafe c) :
    findTicket (before ++ (ticketMarker ++ text) ++ after) = some (ticketMarker ++ text) := by
  have shape : before ++ (ticketMarker ++ text) ++ after =
      before ++ ticketMarker ++ (text ++ after) := by
    simp
  have found : findWord ticketMarker (before ++ ticketMarker ++ (text ++ after)) =
      some before.length := findWord_append_of_unbordered (by decide)
    (show ∀ k < ticketMarker.length, 0 < k → ¬ ticketMarker.drop k <+: ticketMarker by decide)
    absent _
  have rest : (before ++ ticketMarker ++ (text ++ after)).drop
      (before.length + ticketMarker.length) = text ++ after := by
    rw [← List.length_append, List.drop_left]
  have run := takeWhile_append_of_isUrlSafe safe stops
  have ticket : ((before ++ ticketMarker ++ (text ++ after)).drop before.length).take
      (ticketMarker.length + text.length) = ticketMarker ++ text := by
    rw [List.append_assoc, List.drop_left, ← List.append_assoc, ← List.length_append,
      List.take_left]
  rw [shape, findTicket, found, Option.bind_some]
  simp only [rest, run, ticket]
  rw [if_neg (by simpa using nonempty)]

/-- What is found is the first marker, with the ticket characters after it. -/
theorem exists_of_findTicket {text found : Text} (marked : findTicket text = some found) :
    ∃ before run after, text = before ++ (ticketMarker ++ run) ++ after ∧
      ¬ ticketMarker <:+: before ∧ (∀ c ∈ run, Base64.IsUrlSafe c) ∧ run ≠ [] ∧
      ∀ c ∈ after.head?, ¬ Base64.IsUrlSafe c := by
  rcases Option.bind_eq_some_iff.mp marked with ⟨start, occurs, rest⟩
  rcases eq_append_of_findWord (by decide) occurs with ⟨whole, absent⟩
  have chars : (fun c : Char => c.isAlphanum || c == '-' || c == '_') =
      fun c => decide (Base64.IsUrlSafe c) := by
    funext c
    rw [Bool.eq_iff_iff, decide_eq_true_iff]
    exact ticketChar_iff c
  simp only [chars] at rest
  split at rest
  · cases rest
  · rename_i nonempty
    refine ⟨text.take start,
      (text.drop (start + ticketMarker.length)).takeWhile fun c => decide (Base64.IsUrlSafe c),
      (text.drop (start + ticketMarker.length)).dropWhile fun c => decide (Base64.IsUrlSafe c),
      ?_, absent, ?_, ?_, ?_⟩
    · rw [List.append_assoc, List.append_assoc, List.takeWhile_append_dropWhile,
        ← List.append_assoc]
      exact whole
    · intro c member
      simpa using List.mem_takeWhile_imp member
    · simpa using nonempty
    · intro c first
      have stops := List.head?_dropWhile_not (fun c => decide (Base64.IsUrlSafe c))
        (text.drop (start + ticketMarker.length))
      rw [Option.mem_def.mp first] at stops
      simpa using stops

/-- What trimming leaves after a ticket begins as before. -/
theorem head?_rdropWhile {after : Text} {c : Char}
    (first : c ∈ (after.rdropWhile isWhitespace).head?) : c ∈ after.head? := by
  rcases List.rdropWhile_prefix isWhitespace after with ⟨cut, whole⟩
  rw [← whole, List.head?_append, Option.mem_def.mp first]
  rfl

/-- The payload of a ticket is not empty and has ticket characters only. -/
theorem TicketCodec.Lawful.payload (lawful : codec.Lawful) (ticket : TicketJson) :
    codec.encode (utf8 (codec.toString ticket)) ≠ [] ∧
      ∀ c ∈ codec.encode (utf8 (codec.toString ticket)), Base64.IsUrlSafe c := by
  constructor
  · apply lawful.encode_ne_nil
    intro empty
    exact lawful.toString_ne_nil ticket (utf8_injective empty)
  · exact lawful.isUrlSafe_of_mem_encode _

theorem solid_ticket {text : Text} (safe : ∀ c ∈ text, Base64.IsUrlSafe c) :
    Solid (ticketMarker ++ text) := by
  intro c member
  rcases List.mem_append.mp member with marked | carried
  · have solid : Solid ticketMarker := by decide
    exact solid c marked
  · exact not_isWhitespace_of_isUrlSafe (safe c carried)

variable (codec) in
/-- The ticket that is carried by a text, if one can be made out. -/
def carriedTicket (input : Text) : Option TicketJson :=
  (findTicket (trim input)).bind fun found =>
    (codec.decode (found.drop ticketMarker.length)).bind codec.fromSlice

/-- A text is read as what its ticket makes, if neither the id nor the relay in the ticket
is empty. -/
theorem parseTicket_of_carried {input : Text} {ticket : TicketJson}
    (carried : carriedTicket codec input = some ticket) (identified : ticket.e ≠ [])
    (relayed : ticket.r ≠ []) :
    Peer.parseTicket iroh codec input = Peer.new iroh ticket.e ticket.r ticket.t := by
  rcases Option.bind_eq_some_iff.mp carried with ⟨found, marked, decoded⟩
  have nonempty : trim input ≠ [] := by
    intro empty
    rw [empty] at marked
    cases marked
  rw [Peer.parseTicket]
  simp only [marked, decoded]
  simp [identified, relayed, nonempty]

/-- Nothing else is read. -/
theorem parseTicket_eq_ok_iff {input : Text} {peer : Peer} :
    Peer.parseTicket iroh codec input = .ok peer ↔
      ∃ ticket, carriedTicket codec input = some ticket ∧ ticket.e ≠ [] ∧ ticket.r ≠ [] ∧
        Peer.new iroh ticket.e ticket.r ticket.t = .ok peer := by
  constructor
  · intro read
    simp only [Peer.parseTicket] at read
    split at read
    · cases read
    · split at read
      · cases read
      · rename_i found marked
        split at read
        · cases read
        · rename_i ticket decoded
          split at read
          · cases read
          · rename_i identified
            split at read
            · cases read
            · rename_i relayed
              have carried : carriedTicket codec input = some ticket := by
                rw [carriedTicket, marked, Option.bind_some, decoded]
              exact ⟨ticket, carried, by simpa using identified, by simpa using relayed, read⟩
  · rintro ⟨ticket, carried, identified, relayed, made⟩
    rw [parseTicket_of_carried carried identified relayed, made]

/-- A ticket of three fields is carried by whatever it was pasted inside. -/
theorem carriedTicket_append (lawful : codec.Lawful) (ticket : TicketJson) {before after : Text}
    (absent : ¬ ticketMarker <:+: before) (stops : ∀ c ∈ after.head?, ¬ Base64.IsUrlSafe c) :
    carriedTicket codec
        (before ++ (ticketMarker ++ codec.encode (utf8 (codec.toString ticket))) ++ after) =
      some ticket := by
  rcases lawful.payload ticket with ⟨nonempty, safe⟩
  have trimmed := trim_append_of_solid (by simp [ticketMarker]) (solid_ticket safe) before after
  have found := findTicket_append
    (fun isInfix => absent (isInfix.trans (List.dropWhile_suffix isWhitespace).isInfix))
    safe nonempty fun c first => stops c (head?_rdropWhile first)
  rw [carriedTicket, trimmed, found, Option.bind_some, List.drop_left, lawful.decode_encode,
    Option.bind_some, lawful.fromSlice_toString]

/-- The ticket that a text carries is carried however the text goes on, unless it goes on with
a ticket character. -/
theorem carriedTicket_of_prefix {text rest : Text} {ticket : TicketJson}
    (carried : carriedTicket codec text = some ticket)
    (stops : ∀ c ∈ rest.head?, ¬ isWhitespace c ∧ ¬ Base64.IsUrlSafe c) :
    carriedTicket codec (text ++ rest) = some ticket := by
  rcases Option.bind_eq_some_iff.mp carried with ⟨found, marked, decoded⟩
  rcases exists_of_findTicket marked with ⟨before, run, after, whole, absent, safe, nonempty, ends⟩
  have own : findTicket (trim text) = some (ticketMarker ++ run) := by
    rw [whole]
    exact findTicket_append absent safe nonempty ends
  cases marked.symm.trans own
  rcases exists_eq_trim text with ⟨blanks, blanks', split, front, back⟩
  have shape : text ++ rest =
      blanks ++ before ++ (ticketMarker ++ run) ++ (after ++ (blanks' ++ rest)) := by
    rw [split, whole]
    simp only [List.append_assoc]
  have still : findTicket (trim (text ++ rest)) = some (ticketMarker ++ run) := by
    rw [shape, trim_append_of_solid (by simp [ticketMarker]) (solid_ticket safe),
      dropWhile_append_of_blank front]
    apply findTicket_append _ safe nonempty
    · intro c first
      have next := head?_rdropWhile first
      cases after with
      | cons d after => exact ends c next
      | nil =>
          cases blanks' with
          | cons d blanks' =>
              cases next
              exact fun ticketed =>
                not_isWhitespace_of_isUrlSafe ticketed (back _ List.mem_cons_self)
          | nil => exact (stops c next).2
    · exact fun isInfix => absent (isInfix.trans (List.dropWhile_suffix isWhitespace).isInfix)
  rw [carriedTicket, still]
  exact decoded

variable (iroh) in
/-- A ticket of the three fields is read as the peer they make, in whatever it
was pasted inside. -/
theorem parseTicket_append (lawful : codec.Lawful) (ticket : TicketJson) (identified : ticket.e ≠ [])
    (relayed : ticket.r ≠ []) {before after : Text} (absent : ¬ ticketMarker <:+: before)
    (stops : ∀ c ∈ after.head?, ¬ Base64.IsUrlSafe c) :
    Peer.parseTicket iroh codec
        (before ++ (ticketMarker ++ codec.encode (utf8 (codec.toString ticket))) ++ after) =
      Peer.new iroh ticket.e ticket.r ticket.t :=
  parseTicket_of_carried (carriedTicket_append lawful ticket absent stops) identified relayed

/-- Whatever makes a peer makes a ticket, and the ticket is read back as the
peer in whatever it was pasted inside. -/
theorem exists_toTicket (lawful : codec.Lawful)
    (exact : ∀ parsed, iroh.parseEndpointId (iroh.toZ32 parsed) = .ok parsed)
    (filled : ∀ parsed, iroh.toZ32 parsed ≠ []) {endpointId relay token : Text} {peer : Peer}
    (made : Peer.new iroh endpointId relay token = .ok peer)
    (relayed : ¬ Blank relay) :
    ∃ payload, peer.toTicket codec = .ok (ticketMarker ++ payload) ∧
      (∀ c ∈ payload, Base64.IsUrlSafe c) ∧
      ∀ before after : Text, ¬ ticketMarker <:+: before →
        (∀ c ∈ after.head?, ¬ Base64.IsUrlSafe c) →
        Peer.parseTicket iroh codec (before ++ (ticketMarker ++ payload) ++ after) = .ok peer := by
  rcases Peer.new_eq_ok_iff.mp made with ⟨parsed, -, rfl⟩
  have remains : trim relay ≠ [] := mt trim_eq_nil_iff.mp relayed
  have safe := (lawful.payload ⟨iroh.toZ32 parsed, trim relay, token⟩).2
  refine ⟨_, ?_, safe, fun before after absent stops => ?_⟩
  · rw [Peer.toTicket, if_neg (by simpa using remains)]
  · rw [parseTicket_append iroh lawful _ (filled parsed) remains absent stops]
    apply Peer.new_eq_ok_iff.mpr
    exact ⟨parsed, exact parsed, by rw [trim_trim]⟩

/-- A peer read from a ticket has a printed id and a relay without blanks around
it. -/
theorem exists_of_parseTicket {input : Text} {peer : Peer}
    (read : Peer.parseTicket iroh codec input = .ok peer) :
    ∃ id relay, peer.endpointId = iroh.toZ32 id ∧ peer.relayUrl = trim relay := by
  rcases parseTicket_eq_ok_iff.mp read with ⟨ticket, -, -, -, made⟩
  rcases Peer.new_eq_ok_iff.mp made with ⟨id, -, rfl⟩
  exact ⟨id, ticket.r, rfl, rfl⟩

/-- The token of a minted ticket is what a reader of the ticket takes out of
it. -/
theorem parseTicket_toTicket (lawful : codec.Lawful) {peer : Peer} {ticket : Text}
    (identified : peer.endpointId ≠ [])
    (accepted : ∃ parsed, iroh.parseEndpointId peer.endpointId = .ok parsed)
    (minted : peer.toTicket codec = .ok ticket) :
    ∃ read, Peer.parseTicket iroh codec ticket = .ok read ∧ read.token = peer.token := by
  rw [Peer.toTicket] at minted
  split at minted
  · cases minted
  · rename_i relayed
    rcases accepted with ⟨parsed, accepted⟩
    have empty : ¬ ticketMarker <:+: [] := by decide
    have ends : ∀ c ∈ ([] : Text).head?, ¬ Base64.IsUrlSafe c := by simp
    have read := parseTicket_append iroh lawful ⟨peer.endpointId, peer.relayUrl, peer.token⟩
      identified (by simpa using relayed) empty ends
    rw [List.nil_append, List.append_nil, Except.ok.inj minted, Peer.new, accepted] at read
    exact ⟨_, read, rfl⟩

end Iroh

/-! ## The codecs -/

/-- The JSON object of a ticket. -/
def TicketJson.toJson (ticket : TicketJson) : Json :=
  .object [(['e'], .string ticket.e), (['r'], .string ticket.r), (['t'], .string ticket.t)]

/-- A string member, which is empty where it is absent. -/
def stringOrDefault : Option Json → Option Text
  | some (.string text) => some text
  | some _ => none
  | none => some []

/-- The ticket in a JSON object.  Only the endpoint id is required. -/
def TicketJson.ofJson (value : Json) : Option TicketJson :=
  (value.property ['e']).bind fun e =>
    (stringOrDefault (some e)).bind fun e =>
      (stringOrDefault (value.property ['r'])).bind fun r =>
        (stringOrDefault (value.property ['t'])).map fun t => ⟨e, r, t⟩

/-- JSON with the keys `e`, `r` and `t`, in URL-safe base64. -/
def TicketCodec.json : TicketCodec where
  toString ticket := ticket.toJson.stringify
  fromSlice bytes :=
    if utf8 (fromUtf8Lossy bytes) = bytes then
      (Json.parse (fromUtf8Lossy bytes)).bind TicketJson.ofJson
    else none
  encode := Base64.encode
  decode := Base64.decode

theorem TicketJson.readable_toJson (ticket : TicketJson) : Json.Readable ticket.toJson := by
  apply Json.readable_object
  · simp
  · intro member inside
    simp only [List.mem_cons, List.not_mem_nil, or_false] at inside
    rcases inside with rfl | rfl | rfl <;> exact Json.readable_string _

/-- A ticket is read back from its JSON text. -/
theorem TicketCodec.lawful_json : TicketCodec.json.Lawful where
  fromSlice_toString ticket := by
    have read : Json.parse ticket.toJson.stringify = some ticket.toJson :=
      Json.parse_stringify ticket.readable_toJson
    simp only [TicketCodec.json, fromUtf8Lossy_utf8, if_true, read]
    rfl
  decode_encode := Base64.decode_encode
  isUrlSafe_of_mem_encode _ _ := Base64.isUrlSafe_of_mem_encode
  encode_ne_nil _ := Base64.encode_ne_nil
  toString_ne_nil ticket := by simp [TicketCodec.json, TicketJson.toJson, Json.stringify]

end Quackhole.Ticket
