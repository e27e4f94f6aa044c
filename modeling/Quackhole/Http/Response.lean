import Quackhole.Compress.Negotiation

/-!
# Parsing a response

`parseResponse` reads a status line, a header block and a body framed by a
transfer coding, by a length, or by the end of the stream.  The width of `usize`
is a parameter: the same parser runs in a 64-bit process and in a browser.
-/

namespace Quackhole.Http

open Quackhole.Word
open Quackhole.Compress

/-- A parsed response.  `status` is 0 only if the status line was unreadable. -/
structure Response where
  status : Nat
  reason : Text
  headers : List (Text × Text)
  body : Bytes
  deriving DecidableEq, Repr

/-- `Response::header`: the first field of that name. -/
def headerValue (headers : List (Text × Text)) (name : Text) : Option Text :=
  (headers.find? fun header => eqIgnoreAsciiCase header.1 name).map Prod.snd

/-- The ways in which a response is malformed. -/
inductive ParseError where
  | noHeaderTerminator
  | shortBody (promised sent : Nat)
  | unterminatedSizeLine
  | badChunkSize (sizeText : Text)
  | chunkPastEnd
  | missingLastChunk
  deriving DecidableEq, Repr

/-- The text of the error. -/
def ParseError.message (hidden : Char → Bool) : ParseError → Text
  | noHeaderTerminator => "quackhole: malformed response (no header terminator)".toList
  | shortBody promised sent =>
      "quackhole: peer promised ".toList ++ decimal promised ++ " body bytes but sent ".toList ++
        decimal sent
  | unterminatedSizeLine =>
      "quackhole: malformed chunked body (unterminated size line)".toList
  | badChunkSize sizeText => "quackhole: malformed chunk size ".toList ++ debug hidden sizeText
  | chunkPastEnd => "quackhole: chunk size runs past the end of the body".toList
  | missingLastChunk => "quackhole: chunked body ended before its terminating chunk".toList

/-- `usize::MAX + 1`, for a pointer of that many bits. -/
def usizeLimit (bits : Nat) : Nat :=
  Nat.pow 2 bits

/-- The size in a chunk's size line, without its extension. -/
def chunkSizeText (line : Bytes) : Text :=
  trim (beforeFirst ';' (fromUtf8Lossy line))

/-- `decode_chunked`: the loop over the chunks, from what has been collected and
what is left of the data. -/
def decodeChunks (bits : Nat) (out data : Bytes) : Except ParseError Bytes :=
  if _nonempty : data ≠ [] then
    match findWord (utf8 crlf) data with
    | none => .error .unterminatedSizeLine
    | some lineEnd =>
        match parseUnsigned 16 (usizeLimit bits) (chunkSizeText (data.take lineEnd)) with
        | none => .error (.badChunkSize (chunkSizeText (data.take lineEnd)))
        | some chunkSize =>
            let rest := data.drop (lineEnd + 2)
            -- Trailers, if any, are ignored.
            if chunkSize = 0 then .ok out
            else if chunkSize > rest.length then .error .chunkPastEnd
            else decodeChunks bits (out ++ rest.take chunkSize) ((rest.drop chunkSize).drop 2)
  else .error .missingLastChunk
termination_by data.length
decreasing_by
  have positive := List.length_pos_iff.mpr ‹data ≠ []›
  simp only [List.length_drop]
  omega

/-- The status line: a version, a code and whatever follows it. -/
def parseStatusLine (line : Text) : Nat × Text :=
  match splitOnce ' ' line with
  | none => (0, [])
  | some (_, rest) =>
      match splitOnce ' ' rest with
      | none => ((parseUnsigned 10 65536 rest).getD 0, [])
      | some (code, reason) => ((parseUnsigned 10 65536 code).getD 0, reason)

/-- One line of the header block. -/
def parseHeader (line : Text) : Option (Text × Text) :=
  (splitOnce ':' line).map fun header => (trim header.1, trim header.2)

/-- A response whose body has not been read. -/
def parseHead (head : Bytes) : Response :=
  let lines := splitWord crlf (fromUtf8Lossy head)
  let statusLine := parseStatusLine (lines.headD [])
  { status := statusLine.1
    reason := statusLine.2
    headers := lines.tail.filterMap parseHeader
    body := [] }

/-- Does the head frame its body in chunks? -/
def isChunked (headers : List (Text × Text)) : Bool :=
  (headerValue headers "transfer-encoding".toList).any fun coding =>
    eqIgnoreAsciiCase coding "chunked".toList

/-- The length the head promises. -/
def promisedLength (bits : Nat) (headers : List (Text × Text)) : Option Nat :=
  (headerValue headers "content-length".toList).bind (parseUnsigned 10 (usizeLimit bits))

/-- The body, out of the bytes that follow the head. -/
def readBody (bits : Nat) (expectBody : Bool) (headers : List (Text × Text)) (rest : Bytes) :
    Except ParseError Bytes :=
  if !expectBody then .ok []
  else if isChunked headers then decodeChunks bits [] rest
  else
    match promisedLength bits headers with
    | some len => if len > rest.length then .error (.shortBody len rest.length)
        else .ok (rest.take len)
    | none => .ok rest

/-- `parse_response`: a status line, a header block and a body. -/
def parseResponse (bits : Nat) (bytes : Bytes) (expectBody : Bool) :
    Except ParseError Response :=
  match findWord headTerminator bytes with
  | none => .error .noHeaderTerminator
  | some split => do
      let response := parseHead (bytes.take split)
      let body ← readBody bits expectBody response.headers (bytes.drop (split + 4))
      .ok { response with body }

/-! ## What a successful parse says -/

/-- A response is parsed from a head that has ended and from a body that reads. -/
theorem parseResponse_eq_ok_iff {bits : Nat} {bytes : Bytes} {expectBody : Bool}
    {response : Response} :
    parseResponse bits bytes expectBody = .ok response ↔
      ∃ split body, findWord headTerminator bytes = some split ∧
        readBody bits expectBody (parseHead (bytes.take split)).headers
          (bytes.drop (split + 4)) = .ok body ∧
        { parseHead (bytes.take split) with body } = response := by
  unfold parseResponse
  cases findWord headTerminator bytes with
  | none => simp
  | some split =>
      cases read : readBody bits expectBody (parseHead (bytes.take split)).headers
          (bytes.drop (split + 4)) with
      | error reason => simp [bind, Except.bind, read]
      | ok body => simp [bind, Except.bind, read]

/-- The size text is what is in front of the extension, without the blanks around it,
whatever the bytes of the extension are. -/
theorem chunkSizeText_append {text : Text} {extension : Bytes} (whole : ';' ∉ text)
    (extended : extension = [] ∨ ∃ rest, extension = utf8 [';'] ++ rest) :
    chunkSizeText (utf8 text ++ extension) = trim text := by
  rw [chunkSizeText, fromUtf8Lossy_utf8_append, beforeFirst_append whole]
  rcases extended with rfl | ⟨rest, rfl⟩
  · rintro c ⟨⟩
  · rw [fromUtf8Lossy_utf8_append]
    rintro c ⟨⟩
    rfl

/-- The chunk at the front of a chunked body: where its size line ends, its
size, and the data after the size line. -/
def FirstChunk (bits : Nat) (data : Bytes) (lineEnd size : Nat) : Prop :=
  findWord (utf8 crlf) data = some lineEnd ∧
    parseUnsigned 16 (usizeLimit bits) (chunkSizeText (data.take lineEnd)) = some size

/-- The loop reads the chunk at the front. -/
theorem decodeChunks_of_firstChunk {bits : Nat} {out data : Bytes} {lineEnd size : Nat}
    (first : FirstChunk bits data lineEnd size) :
    decodeChunks bits out data =
      if size = 0 then .ok out
      else if size > (data.drop (lineEnd + 2)).length then .error .chunkPastEnd
      else decodeChunks bits (out ++ (data.drop (lineEnd + 2)).take size)
        (((data.drop (lineEnd + 2)).drop size).drop 2) := by
  obtain ⟨found, parsed⟩ := first
  have nonempty : data ≠ [] := by
    rintro rfl
    exact Option.some_ne_none _ found.symm
  rw [decodeChunks, dif_pos nonempty, found]
  simp only [parsed]

/-- Data that decodes begins with a chunk. -/
theorem exists_firstChunk {bits : Nat} {out data body : Bytes}
    (decoded : decodeChunks bits out data = .ok body) :
    ∃ lineEnd size, FirstChunk bits data lineEnd size := by
  rw [decodeChunks] at decoded
  split at decoded
  · split at decoded
    · cases decoded
    · rename_i lineEnd found
      split at decoded
      · cases decoded
      · rename_i size parsed
        exact ⟨lineEnd, size, found, parsed⟩
  · cases decoded

/-- The loop succeeds exactly when the first chunk is the last one, or fits and
is followed by chunks that decode. -/
theorem decodeChunks_eq_ok_iff {bits : Nat} {out data body : Bytes} :
    decodeChunks bits out data = .ok body ↔
      ∃ lineEnd size, FirstChunk bits data lineEnd size ∧
        (size = 0 ∧ out = body ∨
          0 < size ∧ size ≤ (data.drop (lineEnd + 2)).length ∧
            decodeChunks bits (out ++ (data.drop (lineEnd + 2)).take size)
              (((data.drop (lineEnd + 2)).drop size).drop 2) = .ok body) := by
  constructor
  · intro decoded
    obtain ⟨lineEnd, size, first⟩ := exists_firstChunk decoded
    refine ⟨lineEnd, size, first, ?_⟩
    rw [decodeChunks_of_firstChunk first] at decoded
    split at decoded
    · rename_i last
      exact Or.inl ⟨last, Except.ok.inj decoded⟩
    · rename_i more
      split at decoded
      · cases decoded
      · rename_i fits
        exact Or.inr ⟨Nat.pos_of_ne_zero more, Nat.le_of_not_lt fits, decoded⟩
  · rintro ⟨lineEnd, size, first, ⟨rfl, rfl⟩ | ⟨positive, fits, decoded⟩⟩
    · rw [decodeChunks_of_firstChunk first, if_pos rfl]
    · rw [decodeChunks_of_firstChunk first, if_neg (Nat.ne_of_gt positive),
        if_neg (Nat.not_lt.mpr fits)]
      exact decoded

end Quackhole.Http
