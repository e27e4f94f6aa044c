import Quackhole.Http.Response
import Quackhole.Http.Request

/-!
# A response written down and read back

A response is written as a status line, header lines, an empty line and a body
in one of three framings.  Whatever bytes the body holds, and whatever follows a
body whose end the framing announces, the parser returns what was written.
-/

namespace Quackhole.Http

open Quackhole.Word
open Quackhole.Compress

/-! ## What is written -/

/-- A header that says nothing about the framing of the body. -/
structure PlainHeader where
  name : Text
  value : Text
  nameFilled : name ≠ []
  nameTrimmed : trim name = name
  nameWhole : ':' ∉ name
  nameLine : ¬ crlf <:+: name
  valueTrimmed : trim value = value
  valueLine : ¬ crlf <:+: value
  notLength : eqIgnoreAsciiCase name "content-length".toList = false
  notCoding : eqIgnoreAsciiCase name "transfer-encoding".toList = false

/-- The name and the value. -/
def PlainHeader.field (header : PlainHeader) : Text × Text :=
  (header.name, header.value)

/-- A status line. -/
structure StatusLine where
  version : Text
  status : Nat
  reason : Text
  versionSolid : ' ' ∉ version
  versionLine : ¬ crlf <:+: version
  statusFits : status < 65536
  reasonLine : ¬ crlf <:+: reason

def StatusLine.text (line : StatusLine) : Text :=
  line.version ++ ' ' :: (decimal line.status ++ ' ' :: line.reason)

/-- The size line of a chunk: the size in hex digits of any case behind any
number of zeros, blanks around it, and possibly an extension of any bytes. -/
structure SizeLine (size : Nat) where
  before : Text
  digits : Text
  after : Text
  extension : Bytes
  blankBefore : Blank before
  written : ∃ zeros, asciiLower digits = List.replicate zeros '0' ++ Nat.toDigits 16 size
  blankAfter : Blank after
  extended : extension = [] ∨ ∃ rest, extension = utf8 [';'] ++ rest
  line : ¬ [13, 10] <:+: utf8 (before ++ digits ++ after) ++ extension

def SizeLine.bytes {size : Nat} (line : SizeLine size) : Bytes :=
  utf8 (line.before ++ line.digits ++ line.after) ++ line.extension

/-- A chunk of a body. -/
structure Chunk where
  data : Bytes
  filled : data ≠ []
  sizeLine : SizeLine data.length

def Chunk.bytes (chunk : Chunk) : Bytes :=
  chunk.sizeLine.bytes ++ utf8 crlf ++ chunk.data ++ utf8 crlf

/-- The ways of framing a body: the header that announces it, if any, and the
bytes after the empty line. -/
inductive Framed (body : Bytes) : Option (Text × Text) → Bytes → Prop where
  /-- By `Content-Length`, with anything after the body. -/
  | length {name : Text} (trailing : Bytes)
      (named : eqIgnoreAsciiCase name "content-length".toList = true) :
      Framed body (some (name, decimal body.length)) (body ++ trailing)
  /-- By `Transfer-Encoding: chunked`, up to a zero chunk, with anything after
  it. -/
  | chunked {name coding : Text} (chunks : List Chunk) (last : SizeLine 0) (trailer : Bytes)
      (named : eqIgnoreAsciiCase name "transfer-encoding".toList = true)
      (coded : eqIgnoreAsciiCase coding "chunked".toList = true)
      (split : chunks.flatMap Chunk.data = body) :
      Framed body (some (name, coding))
        (chunks.flatMap Chunk.bytes ++ (last.bytes ++ utf8 crlf ++ trailer))
  /-- By the end of the stream. -/
  | endOfStream : Framed body none body

/-- A response with the framing header, if any, between other headers. -/
structure Serialized where
  statusLine : StatusLine
  before : List PlainHeader
  framing : Option (Text × Text)
  after : List PlainHeader
  /-- What follows the empty line. -/
  wire : Bytes

namespace Serialized

variable (written : Serialized)

/-- The headers in the order they are written. -/
def headers : List (Text × Text) :=
  written.before.map PlainHeader.field ++ written.framing.toList ++
    written.after.map PlainHeader.field

def lines : List Text :=
  written.statusLine.text :: written.headers.map renderField

def bytes : Bytes :=
  utf8 (written.lines.flatMap (· ++ crlf) ++ crlf) ++ written.wire

/-- The response that was written, with this body. -/
def response (body : Bytes) : Response where
  status := written.statusLine.status
  reason := written.statusLine.reason
  headers := written.headers
  body := body

end Serialized

/-! ## The head -/

/-- What a line needs to be a header line that is read back. -/
structure Readable (field : Text × Text) : Prop where
  nameTrimmed : trim field.1 = field.1
  nameWhole : ':' ∉ field.1
  nameLine : ¬ crlf <:+: field.1
  valueTrimmed : trim field.2 = field.2
  valueLine : ¬ crlf <:+: field.2

theorem PlainHeader.readable (header : PlainHeader) : Readable header.field :=
  ⟨header.nameTrimmed, header.nameWhole, header.nameLine, header.valueTrimmed, header.valueLine⟩

theorem renderField_eq (field : Text × Text) :
    renderField field = field.1 ++ ':' :: (' ' :: field.2) := by
  simp [renderField]

theorem not_infix_crlf_of_solid {text : Text} (solid : Solid text) : ¬ crlf <:+: text := by
  intro isInfix
  have member : '\r' ∈ text := isInfix.subset (by simp [crlf])
  exact solid '\r' member (by decide)

/-- A name that is a given one up to case is read back. -/
theorem readable_of_eqIgnoreAsciiCase {name lower value : Text}
    (named : eqIgnoreAsciiCase name lower = true) (solid : Solid (asciiLower lower))
    (whole : ':' ∉ asciiLower lower) (valueSolid : Solid value) : Readable (name, value) := by
  have nameSolid := solid_of_eqIgnoreAsciiCase named solid
  constructor
  · exact trim_eq_self nameSolid
  · intro member
    have lowered := mem_asciiLower rfl member
    rw [eqIgnoreAsciiCase_iff.mp named] at lowered
    exact whole lowered
  · exact not_infix_crlf_of_solid nameSolid
  · exact trim_eq_self valueSolid
  · exact not_infix_crlf_of_solid valueSolid

/-- A framing header is read back. -/
theorem Framed.readable {body wire : Bytes} {framing : Option (Text × Text)}
    (framed : Framed body framing wire) : ∀ field ∈ framing, Readable field := by
  rintro field member
  cases framed with
  | length trailing named =>
      obtain rfl := Option.some.inj member
      exact readable_of_eqIgnoreAsciiCase named (by decide) (by decide) (solid_decimal _)
  | chunked chunks last trailer named coded split =>
      obtain rfl := Option.some.inj member
      exact readable_of_eqIgnoreAsciiCase named (by decide) (by decide)
        (solid_of_eqIgnoreAsciiCase coded (by decide))
  | endOfStream => cases member

theorem Readable.not_infix_renderField {field : Text × Text} (readable : Readable field) :
    ¬ crlf <:+: renderField field := by
  intro isInfix
  rw [renderField_eq] at isInfix
  rcases infix_pair_append_cons (by decide) (by decide) isInfix with name | rest
  · exact readable.nameLine name
  · have blank : crlf <:+: [] ++ ' ' :: field.2 := rest
    rcases infix_pair_append_cons (by decide) (by decide) blank with empty | value
    · exact absurd (List.infix_nil.mp empty) crlf_ne_nil
    · exact readable.valueLine value

theorem Readable.parseHeader_renderField {field : Text × Text} (readable : Readable field) :
    parseHeader (renderField field) = some field := by
  have value : trim (' ' :: field.2) = field.2 := by
    have trimmed : trim ([' '] ++ field.2 ++ []) = trim field.2 :=
      trim_append_append (by decide) (by decide) field.2
    rwa [List.append_nil, readable.valueTrimmed] at trimmed
  rw [parseHeader, renderField_eq, splitOnce_append readable.nameWhole, Option.map_some, value,
    readable.nameTrimmed]

theorem StatusLine.not_infix_text (line : StatusLine) : ¬ crlf <:+: line.text := by
  intro isInfix
  rcases infix_pair_append_cons (by decide) (by decide) isInfix with version | rest
  · exact line.versionLine version
  · rcases infix_pair_append_cons (by decide) (by decide) rest with code | reason
    · exact not_infix_crlf_of_solid (solid_decimal line.status) code
    · exact line.reasonLine reason

theorem StatusLine.parseStatusLine_text (line : StatusLine) :
    parseStatusLine line.text = (line.status, line.reason) := by
  have code : ' ' ∉ decimal line.status := fun member =>
    solid_decimal line.status ' ' member (by decide)
  rw [StatusLine.text, parseStatusLine, splitOnce_append line.versionSolid]
  dsimp only
  rw [splitOnce_append code]
  dsimp only
  rw [parseUnsigned_decimal line.statusFits]
  rfl

namespace Serialized

variable {written : Serialized}

/-- The head ends where the header lines do, and is read as what was written. -/
theorem parseHead_lines (readable : ∀ field ∈ written.headers, Readable field) :
    findWord headTerminator written.bytes =
        some (utf8 (crlf.intercalate written.lines)).length ∧
      parseHead (utf8 (crlf.intercalate written.lines)) = written.response [] := by
  have nonempty : written.lines ≠ [] := by simp [lines]
  have absent : ∀ line ∈ written.lines, ¬ crlf <:+: line := by
    intro line member
    rcases List.mem_cons.mp member with rfl | header
    · exact written.statusLine.not_infix_text
    · rcases List.mem_map.mp header with ⟨field, fieldMem, rfl⟩
      exact (readable field fieldMem).not_infix_renderField
  constructor
  · apply findWord_headTerminator_lines nonempty _ absent
    intro line member
    rcases List.mem_cons.mp member with rfl | header
    · simp [StatusLine.text]
    · rcases List.mem_map.mp header with ⟨field, -, rfl⟩
      simp [renderField]
  · have parsed : (written.headers.map renderField).filterMap parseHeader = written.headers := by
      rw [List.filterMap_map]
      apply (List.filterMap_congr fun field member =>
        (readable field member).parseHeader_renderField).trans
      exact List.filterMap_some
    rw [parseHead, fromUtf8Lossy_utf8, splitWord_crlf_intercalate nonempty absent]
    simp only [lines, List.headD_cons, List.tail_cons, parsed,
      written.statusLine.parseStatusLine_text, response]

/-- What follows the head is what was written after it. -/
theorem drop_bytes (written : Serialized) :
    written.bytes.take (utf8 (crlf.intercalate written.lines)).length =
        utf8 (crlf.intercalate written.lines) ∧
      written.bytes.drop ((utf8 (crlf.intercalate written.lines)).length + 4) = written.wire := by
  have shape : written.bytes =
      utf8 (crlf.intercalate written.lines) ++ (headTerminator ++ written.wire) := by
    rw [bytes, flatMap_append_eq_intercalate crlf (by simp [lines])]
    simp [headTerminator]
  rw [shape]
  constructor
  · exact List.take_left
  · rw [List.drop_append]
    simp [headTerminator]

/-- A response is read as its head and whatever its framing makes of the rest. -/
theorem parseResponse_bytes {bits : Nat} {expectBody : Bool} {body : Bytes}
    (readable : ∀ field ∈ written.headers, Readable field)
    (read : readBody bits expectBody written.headers written.wire = .ok body) :
    parseResponse bits written.bytes expectBody = .ok (written.response body) := by
  rcases parseHead_lines readable with ⟨found, head⟩
  rcases written.drop_bytes with ⟨taken, dropped⟩
  rw [parseResponse_eq_ok_iff]
  refine ⟨_, body, found, ?_, ?_⟩
  · rw [taken, head, dropped]
    exact read
  · rw [taken, head]
    rfl

end Serialized

/-! ## The chunks -/

namespace SizeLine

variable {size : Nat}

theorem digitsValue_digits (line : SizeLine size) : digitsValue 16 0 line.digits = some size := by
  rcases line.written with ⟨zeros, written⟩
  rw [← digitsValue_asciiLower, written, digitsValue_zeros (by omega),
    digitsValue_toDigits (by omega) (by omega)]

theorem digits_ne_nil (line : SizeLine size) : line.digits ≠ [] := by
  rcases line.written with ⟨zeros, written⟩
  intro empty
  rw [empty] at written
  have lengths := congrArg List.length written
  simp only [asciiLower, List.map_nil, List.length_nil, List.length_append] at lengths
  exact Nat.toDigits_ne_nil (b := 16) (n := size) (List.length_eq_zero_iff.mp (by omega))

/-- The size text is the digits: the blanks are trimmed off and the extension is
cut away, whatever its bytes are. -/
theorem chunkSizeText_bytes (line : SizeLine size) : chunkSizeText line.bytes = line.digits := by
  have digit := exists_toDigit_of_digitsValue line.digitsValue_digits
  have solid : Solid line.digits := by
    intro c member
    rcases digit c member with ⟨d, read⟩
    exact not_isWhitespace_of_toDigit read
  have whole : ';' ∉ line.before ++ line.digits ++ line.after := by
    simp only [List.mem_append, not_or]
    refine ⟨⟨fun blank => ?_, fun member => ?_⟩, fun blank => ?_⟩
    · exact absurd (line.blankBefore _ blank) (by decide)
    · rcases digit ';' member with ⟨d, read⟩
      exact absurd (toDigit_eq_some_iff.mp read).1 (by simp [toDigit])
    · exact absurd (line.blankAfter _ blank) (by decide)
  rw [bytes, chunkSizeText_append whole line.extended,
    trim_append_append line.blankBefore line.blankAfter, trim_eq_self solid]

/-- A size line and CRLF begin a chunk of that size. -/
theorem firstChunk {bits : Nat} (line : SizeLine size) (fits : size < usizeLimit bits)
    (rest : Bytes) :
    FirstChunk bits (line.bytes ++ utf8 crlf ++ rest) line.bytes.length size := by
  constructor
  · exact findWord_pair_line (by decide) line.line
  · rw [List.append_assoc, List.take_left, line.chunkSizeText_bytes]
    exact parseUnsigned_eq_some line.digits_ne_nil line.digitsValue_digits fits

/-- What follows a size line and CRLF. -/
theorem drop_bytes (line : SizeLine size) (rest : Bytes) :
    (line.bytes ++ utf8 crlf ++ rest).drop (line.bytes.length + 2) = rest := by
  rw [List.drop_append_of_le_length (by simp), List.drop_append]
  simp

end SizeLine

/-- A chunk is read off the front. -/
theorem Chunk.decodeChunks_bytes {bits : Nat} (chunk : Chunk)
    (fits : chunk.data.length < usizeLimit bits) (out rest : Bytes) :
    decodeChunks bits out (chunk.bytes ++ rest) =
      decodeChunks bits (out ++ chunk.data) rest := by
  have shape : chunk.bytes ++ rest =
      chunk.sizeLine.bytes ++ utf8 crlf ++ (chunk.data ++ (utf8 crlf ++ rest)) := by
    simp [Chunk.bytes]
  have positive : chunk.data.length ≠ 0 := by simpa using chunk.filled
  rw [shape, decodeChunks_of_firstChunk (chunk.sizeLine.firstChunk fits _),
    chunk.sizeLine.drop_bytes, if_neg positive, if_neg (by simp), List.take_left, List.drop_left]
  rfl

/-- A zero chunk ends the body. -/
theorem SizeLine.decodeChunks_last {bits : Nat} (line : SizeLine 0) (out trailer : Bytes) :
    decodeChunks bits out (line.bytes ++ utf8 crlf ++ trailer) = .ok out := by
  have fits : 0 < usizeLimit bits := Nat.pow_pos (by omega)
  rw [decodeChunks_of_firstChunk (line.firstChunk fits _), if_pos rfl]

/-- Chunks up to a zero chunk are read as the data in them. -/
theorem decodeChunks_bytes {bits : Nat} {chunks : List Chunk}
    (fits : ∀ chunk ∈ chunks, chunk.data.length < usizeLimit bits) (last : SizeLine 0)
    (out trailer : Bytes) :
    decodeChunks bits out (chunks.flatMap Chunk.bytes ++ (last.bytes ++ utf8 crlf ++ trailer)) =
      .ok (out ++ chunks.flatMap Chunk.data) := by
  induction chunks generalizing out with
  | nil => simpa using last.decodeChunks_last out trailer
  | cons chunk chunks ih =>
      have rest := ih (fun other member => fits other (List.mem_cons_of_mem chunk member))
        (out ++ chunk.data)
      rw [List.flatMap_cons, List.append_assoc,
        chunk.decodeChunks_bytes (fits chunk List.mem_cons_self), rest, List.flatMap_cons,
        List.append_assoc]

/-! ## The framing -/

/-- Headers that are not of that name do not hide one that is. -/
theorem headerValue_eq_of_forall {before after : List (Text × Text)} {framing : Option (Text × Text)}
    {name : Text} (other : ∀ field ∈ before, eqIgnoreAsciiCase field.1 name = false)
    (otherAfter : ∀ field ∈ after, eqIgnoreAsciiCase field.1 name = false) :
    headerValue (before ++ framing.toList ++ after) name =
      (framing.filter fun field => eqIgnoreAsciiCase field.1 name).map Prod.snd := by
  have absent : ∀ fields : List (Text × Text),
      (∀ field ∈ fields, eqIgnoreAsciiCase field.1 name = false) →
        fields.find? (fun field => eqIgnoreAsciiCase field.1 name) = none := by
    intro fields different
    rw [List.find?_eq_none]
    intro field member
    simp [different field member]
  rw [headerValue, List.find?_append, List.find?_append, absent before other,
    absent after otherAfter, Option.none_or, Option.or_none]
  cases framing with
  | none => rfl
  | some field =>
      cases same : eqIgnoreAsciiCase field.1 name <;> simp [same, Option.filter]

theorem Serialized.headerValue_headers (written : Serialized) {name : Text}
    (plain : ∀ header : PlainHeader, eqIgnoreAsciiCase header.name name = false) :
    headerValue written.headers name =
      (written.framing.filter fun field => eqIgnoreAsciiCase field.1 name).map Prod.snd := by
  apply headerValue_eq_of_forall
  · rintro field member
    rcases List.mem_map.mp member with ⟨header, -, rfl⟩
    exact plain header
  · rintro field member
    rcases List.mem_map.mp member with ⟨header, -, rfl⟩
    exact plain header

/-- The body is what the framing frames. -/
theorem Framed.readBody_wire {bits : Nat} {body : Bytes} {written : Serialized}
    (framed : Framed body written.framing written.wire)
    (fits : written.wire.length < usizeLimit bits) :
    readBody bits true written.headers written.wire = .ok body := by
  have coding := written.headerValue_headers PlainHeader.notCoding
  have length := written.headerValue_headers PlainHeader.notLength
  rw [readBody, if_neg (by simp), isChunked, promisedLength, coding, length]
  generalize written.framing = framing at framed
  generalize written.wire = wire at framed fits
  cases framed with
  | length trailing named =>
      rename_i name
      have other : eqIgnoreAsciiCase name "transfer-encoding".toList = false := by
        rw [eqIgnoreAsciiCase, eqIgnoreAsciiCase_iff.mp named]
        decide
      rw [List.length_append] at fits
      simp only [Option.filter, other, named, if_true, Option.map_some, Option.bind_some,
        parseUnsigned_decimal (Nat.lt_of_le_of_lt (Nat.le_add_right _ _) fits)]
      simp
  | chunked chunks last trailer named coded split =>
      subst split
      have each : ∀ chunk ∈ chunks, chunk.data.length < usizeLimit bits := by
        intro chunk member
        rcases List.append_of_mem member with ⟨before, behind, rfl⟩
        simp only [List.flatMap_append, List.flatMap_cons, Chunk.bytes, List.length_append] at fits
        omega
      simp only [Option.filter, named, if_true, Option.map_some, Option.any_some, coded]
      simpa using decodeChunks_bytes each last [] trailer
  | endOfStream => simp [Option.filter]

/-- A response that was written in any framing is read back: the status, the
reason, every header in its place and the body; without the body when none is
expected. -/
theorem parseResponse_serialized (bits : Nat) (body : Bytes) (written : Serialized)
    (framed : Framed body written.framing written.wire)
    (fits : written.bytes.length < usizeLimit bits) :
    parseResponse bits written.bytes true = .ok (written.response body) ∧
      parseResponse bits written.bytes false = .ok (written.response []) := by
  have readable : ∀ field ∈ written.headers, Readable field := by
    rintro field member
    simp only [Serialized.headers, List.mem_append, List.mem_map, Option.mem_toList] at member
    rcases member with (⟨header, -, rfl⟩ | framing) | ⟨header, -, rfl⟩
    · exact header.readable
    · exact framed.readable field framing
    · exact header.readable
  have wireFits : written.wire.length < usizeLimit bits := by
    rw [Serialized.bytes, List.length_append] at fits
    exact Nat.lt_of_le_of_lt (Nat.le_add_left _ _) fits
  constructor
  · exact Serialized.parseResponse_bytes readable (framed.readBody_wire wireFits)
  · exact Serialized.parseResponse_bytes readable rfl

/-- A chunk that holds a blank line, under a size with a zero, blanks and an
extension that is not UTF-8. -/
def blankLineChunk : Chunk where
  data := utf8 "0\r\n\r\n".toList
  filled := by decide
  sizeLine :=
    { before := [' ']
      digits := "05".toList
      after := ['\t']
      extension := utf8 [';'] ++ [255]
      blankBefore := by decide
      written := ⟨1, by decide⟩
      blankAfter := by decide
      extended := Or.inr ⟨[255], rfl⟩
      line := by decide }

/-- The zero chunk, written `00`. -/
def zeroChunk : SizeLine 0 where
  before := []
  digits := "00".toList
  after := []
  extension := []
  blankBefore := by decide
  written := ⟨1, by decide⟩
  blankAfter := by decide
  extended := Or.inl rfl
  line := by decide

/-- A response in one chunk, with a trailer. -/
def chunkedResponse : Serialized where
  statusLine :=
    { version := "HTTP/1.1".toList
      status := 200
      reason := "OK".toList
      versionSolid := by decide
      versionLine := by decide
      statusFits := by decide
      reasonLine := by decide }
  before := []
  framing := some ("transfer-Encoding".toList, "CHUNKED".toList)
  after :=
    [{ name := "X-Keep".toList
       value := "yes: 5".toList
       nameFilled := by decide
       nameTrimmed := by decide
       nameWhole := by decide
       nameLine := by decide
       valueTrimmed := by decide
       valueLine := by decide
       notLength := by decide
       notCoding := by decide }]
  wire := [blankLineChunk].flatMap Chunk.bytes ++
    (zeroChunk.bytes ++ utf8 crlf ++ utf8 "X-Trailer: 1".toList)

theorem parseResponse_chunkedResponse :
    parseResponse 64 chunkedResponse.bytes true =
        .ok (chunkedResponse.response (utf8 "0\r\n\r\n".toList)) ∧
      parseResponse 64 chunkedResponse.bytes false = .ok (chunkedResponse.response []) :=
  parseResponse_serialized 64 _ chunkedResponse
    (.chunked [blankLineChunk] zeroChunk _ (by decide) (by decide) (by decide)) (by decide +kernel)

end Quackhole.Http
