import Quackhole.Word.Json

/-!
# What is said across the shared buffer

A reply of the bridge is cut into chunks that fit in the data region, and the
shim puts what it hears together again.  Here both are functions of the list of
chunks; how a chunk crosses the buffer is the business of the two workers.
-/

namespace Quackhole.Web

open Quackhole.Word

/-- `STATE`: only the shim writes `IDLE`, and only the bridge the others. -/
inductive Signal where
  | idle
  | chunk
  | error
  deriving DecidableEq, Repr

/-- `FLAGS`: more chunks follow. -/
def moreFlag : Nat := 1

/-- `FLAGS`: the chunk is the metadata. -/
def metaFlag : Nat := 2

/-- `flags & flag`. -/
def hasFlag (flags flag : Nat) : Bool :=
  flags &&& flag != 0

/-- The arguments of `writeChunk`. -/
structure Chunk where
  bytes : Bytes
  flags : Nat
  state : Signal
  deriving DecidableEq, Repr

/-- The status and the headers of a response.  The headers are the properties of
an object, so no name is there twice. -/
structure Head where
  status : Nat
  headers : List (Text × Text)
  distinct : (headers.map Prod.fst).Nodup

/-- What a request comes to in the bridge.  The message of an error is the string
of Unicode scalar values that is encoded. -/
inductive Reply where
  | response (head : Head) (body : Bytes)
  | failure (message : Text)

/-! ## The bridge -/

/-- The headers as an object. -/
def headersJson (headers : List (Text × Text)) : Json :=
  .object (headers.map fun header => (header.1, .string header.2))

/-- `{ status: res.status, headers: res.headers }`. -/
def Head.json (head : Head) : Json :=
  .object [("status".toList, .number (decimal head.status)),
    ("headers".toList, headersJson head.headers)]

/-- The chunk with the metadata. -/
def metaChunk (head : Head) : Chunk :=
  ⟨utf8 head.json.stringify, metaFlag, .chunk⟩

/-- The chunk that `fail` writes. -/
def failChunk (message : Text) : Chunk :=
  ⟨utf8 message, 0, .error⟩

/-- The loop that writes the body in pieces of the size of the data region. -/
def chunksFrom (limit : Nat) (body : Bytes) : Nat → Nat → List Chunk
  | 0, _ => []
  | fuel + 1, start =>
      if start < body.length then
        let stop := min (start + limit) body.length
        ⟨(body.drop start).take (stop - start), if stop < body.length then moreFlag else 0, .chunk⟩ ::
          chunksFrom limit body fuel (start + limit)
      else []

/-- The chunks of a body: an empty one is still a chunk. -/
def bodyChunks (limit : Nat) (body : Bytes) : List Chunk :=
  if body.length = 0 then [⟨body, 0, .chunk⟩] else chunksFrom limit body body.length 0

/-- The calls of `writeChunk` for a reply. -/
def Reply.chunks (limit : Nat) : Reply → List Chunk
  | .response head body => metaChunk head :: bodyChunks limit body
  | .failure message => [failChunk message]

/-- The chunks that get written: `data.set` raises on one that is too long, and
the handler turns that into a failure, once. -/
def sendable (limit : Nat) (rangeError : Text) : List Chunk → List Chunk
  | [] => []
  | chunk :: chunks =>
      if chunk.bytes.length ≤ limit then chunk :: sendable limit rangeError chunks
      else if chunk.state = .error then []
      else if (failChunk rangeError).bytes.length ≤ limit then [failChunk rangeError]
      else []

/-! ## The shim -/

/-- `TextDecoder.decode`: a byte order mark is dropped, and what is no UTF-8 is
replaced. -/
def textDecode : Bytes → Text
  | 0xEF :: 0xBB :: 0xBF :: bytes => fromUtf8Lossy bytes
  | bytes => fromUtf8Lossy bytes

/-- The text of an error, or a stand-in for an empty one. -/
def errorText (payload : Bytes) : Text :=
  if textDecode payload = [] then "bridge error".toList else textDecode payload

/-- How a call of `roundTrip` ends. -/
inductive Outcome where
  | returned (status headers : Option Json) (body : Bytes)
  | bridgeError (message : Text)
  /-- `JSON.parse` raises. -/
  | unparsable
  | noMetadata
  | deadline

/-- What `roundTrip` has put together so far. -/
structure Heard where
  metadata : Option Json
  chunks : List Bytes

/-- Nothing yet. -/
def Heard.nothing : Heard :=
  ⟨none, []⟩

/-- The end of `roundTrip`, after the loop. -/
def Heard.result (heard : Heard) : Outcome :=
  match heard.metadata with
  | none => .noMetadata
  | some metadata =>
      if metadata.truthy then
        .returned (metadata.property "status".toList) (metadata.property "headers".toList)
          heard.chunks.flatten
      else .noMetadata

/-- What `roundTrip` does with a chunk once it has released the buffer: it goes
on, or it ends. -/
def Heard.react (heard : Heard) (chunk : Chunk) : Heard ⊕ Outcome :=
  if chunk.state = .error then .inr (.bridgeError (errorText chunk.bytes))
  else if hasFlag chunk.flags metaFlag then
    match Json.parse (textDecode chunk.bytes) with
    | none => .inr .unparsable
    | some metadata => .inl { heard with metadata := some metadata }
  else
    let heard := { heard with chunks := heard.chunks ++ [chunk.bytes] }
    if hasFlag chunk.flags moreFlag then .inl heard else .inr heard.result

/-- Hearing these chunks one after the other comes to this outcome at the last of
them, or to none. -/
def Heard.ComesTo : Heard → List Chunk → Option Outcome → Prop
  | _, [], expected => expected = none
  | heard, chunk :: chunks, expected =>
      match heard.react chunk with
      | .inl heard => heard.ComesTo chunks expected
      | .inr outcome => expected = some outcome ∧ chunks = []

/-- A text without the byte order mark that decoding drops. -/
def withoutMark : Text → Text
  | '\uFEFF' :: text => text
  | text => text

/-- What the reply should come to in the shim. -/
def Reply.outcome : Reply → Outcome
  | .response head body =>
      .returned (some (.number (decimal head.status))) (some (headersJson head.headers)) body
  | .failure message =>
      .bridgeError
        (if withoutMark message = [] then "bridge error".toList else withoutMark message)

/-- What the bridge answers with: what is too long for the data region is an
error, unless the error is too long itself. -/
def Reply.produced (limit : Nat) (rangeError : Text) : Reply → Option Reply
  | .response head body =>
      if (metaChunk head).bytes.length ≤ limit then some (.response head body)
      else if (failChunk rangeError).bytes.length ≤ limit then some (.failure rangeError)
      else none
  | .failure message =>
      if (failChunk message).bytes.length ≤ limit then some (.failure message) else none

/-- The metadata or the message fits in the data region. -/
def Reply.Fits (limit : Nat) : Reply → Prop
  | .response head _ => (metaChunk head).bytes.length ≤ limit
  | .failure message => (failChunk message).bytes.length ≤ limit

/-- A reply that fits is what the bridge answers with. -/
theorem Reply.Fits.produced {limit : Nat} {reply : Reply} (fits : reply.Fits limit)
    (rangeError : Text) : reply.produced limit rangeError = some reply := by
  cases reply with
  | response head body => exact if_pos fits
  | failure message => exact if_pos fits

/-! ## What is heard is what was said -/

/-- Encoding and decoding a text drops a byte order mark in front of it. -/
theorem textDecode_utf8 (text : Text) : textDecode (utf8 text) = withoutMark text := by
  unfold textDecode
  split
  · rename_i bytes marked
    have read : fromUtf8Lossy (utf8 text) = '\uFEFF' :: fromUtf8Lossy bytes := by
      rw [marked]
      exact fromUtf8Lossy_utf8_append ['\uFEFF'] bytes
    rw [fromUtf8Lossy_utf8] at read
    rw [read]
    rfl
  · rename_i unmarked
    rw [fromUtf8Lossy_utf8]
    unfold withoutMark
    split
    · exact absurd rfl (unmarked _)
    · rfl

/-- The metadata reads back as what was written. -/
theorem readable_head (head : Head) : head.json.Readable := by
  have headers : (headersJson head.headers).Readable := by
    apply Json.readable_object
    · rw [List.map_map]
      exact head.distinct
    · rintro _ member
      obtain ⟨header, _, rfl⟩ := List.mem_map.mp member
      exact Json.readable_string _
  have status : (Json.number (decimal head.status)).Readable := by
    apply Json.readable_number (Json.isNumber_decimal head.status)
    exact fun c member => Json.isNumberChar_of_isDigit (isDigit_of_mem_decimal member)
  apply Json.readable_object
  · simp
  · rintro member inside
    rcases List.mem_pair.mp inside with rfl | rfl
    · exact status
    · exact headers

theorem parse_metaChunk (head : Head) :
    Json.parse (textDecode (metaChunk head).bytes) = some head.json := by
  have brace : withoutMark head.json.stringify = head.json.stringify := rfl
  rw [metaChunk, textDecode_utf8, brace, Json.parse_stringify (readable_head head)]

theorem hasFlag_meta : hasFlag metaFlag metaFlag = true := by
  decide

/-- The flags of a piece with more to follow. -/
theorem hasFlag_more : hasFlag moreFlag metaFlag = false ∧ hasFlag moreFlag moreFlag = true := by
  decide

/-- The flags of the last piece. -/
theorem hasFlag_none : hasFlag 0 metaFlag = false ∧ hasFlag 0 moreFlag = false := by
  decide

/-- Hearing the metadata goes on with it. -/
theorem react_metaChunk (heard : Heard) (head : Head) :
    heard.react (metaChunk head) = .inl { heard with metadata := some head.json } := by
  have signalled : (metaChunk head).state ≠ .error := Signal.noConfusion
  have flagged : hasFlag (metaChunk head).flags metaFlag = true := hasFlag_meta
  rw [Heard.react, if_neg signalled, if_pos flagged, parse_metaChunk]

/-- A piece with more to follow is kept. -/
theorem react_piece (heard : Heard) (bytes : Bytes) :
    heard.react ⟨bytes, moreFlag, .chunk⟩ =
      .inl { heard with chunks := heard.chunks ++ [bytes] } := by
  simp [Heard.react, hasFlag_more]

/-- The end of `roundTrip`, when the metadata was heard. -/
theorem result_head (head : Head) (chunks : List Bytes) :
    (Heard.mk (some head.json) chunks).result =
      (Reply.response head chunks.flatten).outcome :=
  rfl

/-- The last piece of a body ends the call. -/
theorem react_last (head : Head) (earlier : List Bytes) (bytes : Bytes) :
    (Heard.mk (some head.json) earlier).react ⟨bytes, 0, .chunk⟩ =
      .inr (Reply.response head (earlier.flatten ++ bytes)).outcome := by
  simp [Heard.react, hasFlag_none, result_head]

/-- The message of a failure ends the call. -/
theorem react_failChunk (heard : Heard) (message : Text) :
    heard.react (failChunk message) = .inr (Reply.failure message).outcome := by
  have signalled : (failChunk message).state = .error := rfl
  rw [Heard.react, if_pos signalled, errorText, failChunk, textDecode_utf8]
  rfl

/-- What the pieces of a body come to, once the metadata has been heard. -/
theorem comesTo_chunksFrom {limit : Nat} (positive : 0 < limit) (head : Head) (body : Bytes)
    {fuel start : Nat} (enough : body.length ≤ start + fuel) (inside : start < body.length)
    (earlier : List Bytes) :
    (Heard.mk (some head.json) earlier).ComesTo (chunksFrom limit body fuel start)
      (some (Reply.response head (earlier.flatten ++ body.drop start)).outcome) := by
  induction fuel generalizing start earlier with
  | zero => omega
  | succ fuel ih =>
      rw [chunksFrom, if_pos inside]
      by_cases more : start + limit < body.length
      · have whole : min (start + limit) body.length = start + limit := min_eq_left more.le
        have rest := ih (by omega) more (earlier ++ [(body.drop start).take limit])
        have joined : (body.drop start).take limit ++ body.drop (start + limit) =
            body.drop start := by
          rw [← List.drop_drop, List.take_append_drop]
        rw [List.flatten_append, List.flatten_singleton, List.append_assoc, joined] at rest
        simp only [whole, if_pos more, Nat.add_sub_cancel_left, Heard.ComesTo, react_piece]
        exact rest
      · have whole : min (start + limit) body.length = body.length :=
          min_eq_right (Nat.le_of_not_lt more)
        have taken : (body.drop start).take (body.length - start) = body.drop start := by
          rw [← List.length_drop, List.take_length]
        have done : chunksFrom limit body fuel (start + limit) = [] := by
          cases fuel with
          | zero => rfl
          | succ fuel => rw [chunksFrom, if_neg more]
        simp only [whole, lt_irrefl, if_false, taken, Heard.ComesTo, react_last, done, and_self]

/-- Hearing all the chunks of a reply comes to the reply. -/
theorem comesTo_chunks {limit : Nat} (positive : 0 < limit) (reply : Reply) :
    Heard.nothing.ComesTo (reply.chunks limit) (some reply.outcome) := by
  cases reply with
  | failure message =>
      simp only [Reply.chunks, Heard.ComesTo, react_failChunk, and_self]
  | response head body =>
      simp only [Reply.chunks, Heard.ComesTo, react_metaChunk]
      by_cases empty : body.length = 0
      · obtain rfl := List.length_eq_zero_iff.mp empty
        have last : (Heard.mk (some head.json) []).react ⟨[], 0, .chunk⟩ =
            .inr (Reply.response head []).outcome := react_last head [] []
        simp only [bodyChunks, List.length_nil, if_true, Heard.ComesTo, Heard.nothing, last,
          and_self]
      · have heard := comesTo_chunksFrom positive head body (Nat.le_of_eq (Nat.zero_add _).symm)
          (Nat.pos_of_ne_zero empty) []
        rw [bodyChunks, if_neg empty]
        exact heard

/-- The pieces of a body fit in the data region. -/
theorem length_le_of_mem_chunksFrom {limit : Nat} {body : Bytes} {fuel start : Nat} {chunk : Chunk}
    (member : chunk ∈ chunksFrom limit body fuel start) : chunk.bytes.length ≤ limit := by
  induction fuel generalizing start with
  | zero => cases member
  | succ fuel ih =>
      rw [chunksFrom] at member
      split at member
      · rcases List.mem_cons.mp member with rfl | later
        · simp only [List.length_take]
          omega
        · exact ih later
      · cases member

theorem length_le_of_mem_bodyChunks {limit : Nat} {body : Bytes} {chunk : Chunk}
    (member : chunk ∈ bodyChunks limit body) : chunk.bytes.length ≤ limit := by
  unfold bodyChunks at member
  split at member
  · rename_i empty
    obtain rfl := List.mem_singleton.mp member
    exact empty.le.trans (Nat.zero_le _)
  · exact length_le_of_mem_chunksFrom member

/-- Chunks that all fit are all written. -/
theorem sendable_eq_self {limit : Nat} {rangeError : Text} {chunks : List Chunk}
    (fit : ∀ chunk ∈ chunks, chunk.bytes.length ≤ limit) :
    sendable limit rangeError chunks = chunks := by
  induction chunks with
  | nil => rfl
  | cons chunk chunks ih =>
      rw [sendable, if_pos (fit chunk List.mem_cons_self),
        ih fun chunk member => fit chunk (List.mem_cons_of_mem _ member)]

/-- Hearing what gets written comes to what the bridge answers with. -/
theorem comesTo_sendable {limit : Nat} (positive : 0 < limit) (rangeError : Text) (reply : Reply) :
    Heard.nothing.ComesTo (sendable limit rangeError (reply.chunks limit))
      ((reply.produced limit rangeError).map Reply.outcome) := by
  have failing : ∀ message, Heard.nothing.ComesTo [failChunk message]
      (some (Reply.failure message).outcome) :=
    fun message => comesTo_chunks positive (.failure message)
  cases reply with
  | failure message =>
      by_cases fits : (failChunk message).bytes.length ≤ limit
      · simp only [Reply.chunks, sendable, Reply.produced, if_pos fits]
        exact failing message
      · have signalled : (failChunk message).state = .error := rfl
        simp only [Reply.chunks, sendable, Reply.produced, if_neg fits, if_pos signalled]
        rfl
  | response head body =>
      by_cases fits : (metaChunk head).bytes.length ≤ limit
      · have all : ∀ chunk ∈ (Reply.response head body).chunks limit,
            chunk.bytes.length ≤ limit := by
          intro chunk member
          rcases List.mem_cons.mp member with rfl | piece
          · exact fits
          · exact length_le_of_mem_bodyChunks piece
        rw [sendable_eq_self all, Reply.produced, if_pos fits]
        exact comesTo_chunks positive _
      · have signalled : (metaChunk head).state ≠ .error := Signal.noConfusion
        simp only [Reply.chunks, sendable, Reply.produced, if_neg fits, if_neg signalled]
        split
        · exact failing rangeError
        · rfl

end Quackhole.Web
