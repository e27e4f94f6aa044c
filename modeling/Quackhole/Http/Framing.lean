import Quackhole.Http.Request

/-!
# Who frames a request

The serialiser writes five fields that frame the exchange and means to be their
only author.  Every reader in the repository takes a head apart in the same way:
it splits the text at CRLF, drops the request line, cuts each line at its first
colon and trims the name.  This file says when the head, read like that, has the
framing the serialiser wrote and no other.
-/

namespace Quackhole.Http

open Quackhole.Word
open Quackhole.Compress

/-! ## Reading a head -/

/-- The lines of a head as text. -/
def readLines (head : Bytes) : List Text :=
  splitWord crlf (fromUtf8Lossy head)

/-- A line as a field: its trimmed name and what follows the first colon. -/
def readField (line : Text) : Option (Text × Text) :=
  (splitOnce ':' line).map fun field => (trim field.1, field.2)

/-- What follows the colon of each line that carries the name. -/
def fieldValues (name : Text) (lines : List Text) : List Text :=
  ((lines.filterMap readField).filter fun field => eqIgnoreAsciiCase field.1 name).map Prod.snd

@[simp]
theorem fieldValues_nil (name : Text) : fieldValues name [] = [] :=
  rfl

@[simp]
theorem fieldValues_append (name : Text) (first second : List Text) :
    fieldValues name (first ++ second) = fieldValues name first ++ fieldValues name second := by
  simp [fieldValues, List.filterMap_append]

/-- The name a rendered field is read under stops at the first colon of the
name it was given. -/
theorem exists_readField_renderField (field : Text × Text) :
    ∃ value, readField (renderField field) = some (trim (beforeFirst ':' field.1), value) := by
  have cut := splitOnce_append_fst ':' field.1 (' ' :: field.2)
  have shape : renderField field = field.1 ++ ':' :: ' ' :: field.2 := by
    simp [renderField]
  rw [← shape] at cut
  obtain ⟨⟨name, value⟩, split, name_eq⟩ := Option.map_eq_some_iff.mp cut
  refine ⟨value, ?_⟩
  change name = beforeFirst ':' field.1 at name_eq
  rw [readField, split, ← name_eq]
  rfl

/-- A name without colons and blanks is read back with its value. -/
theorem readField_renderField {name : Text} (whole : ':' ∉ name)
    (solid : Solid name) (value : Text) :
    readField (renderField (name, value)) = some (name, ' ' :: value) := by
  have shape : renderField (name, value) = name ++ ':' :: ' ' :: value := by
    simp [renderField]
  rw [readField, shape, splitOnce_append whole]
  simp [trim_eq_self solid]

/-- No rendered field is read under the name exactly when none is cut to it. -/
theorem fieldValues_renderField_eq_nil_iff {name : Text} {fields : List (Text × Text)} :
    fieldValues name (fields.map renderField) = [] ↔
      ∀ field ∈ fields, ¬ eqIgnoreAsciiCase (trim (beforeFirst ':' field.1)) name = true := by
  induction fields with
  | nil => simp
  | cons field fields ih =>
      obtain ⟨value, read⟩ := exists_readField_renderField field
      have split : fieldValues name ((field :: fields).map renderField) =
          fieldValues name [renderField field] ++ fieldValues name (fields.map renderField) := by
        rw [← fieldValues_append]
        rfl
      rw [split, List.append_eq_nil_iff, ih, List.forall_mem_cons]
      refine and_congr_left fun _ => ?_
      simp [fieldValues, read]

/-! ## The framing fields -/

/-- The fields whose author is the serialiser. -/
inductive FramingField where
  | host
  | contentLength
  | connection
  | transferEncoding
  | acceptEncoding
  deriving DecidableEq, Repr

namespace FramingField

/-- The name of a framing field. -/
def name : FramingField → Text
  | host => "Host".toList
  | contentLength => "Content-Length".toList
  | connection => "Connection".toList
  | transferEncoding => "Transfer-Encoding".toList
  | acceptEncoding => acceptHeader

/-- The values a request is to be read with, as they follow the colon: the
given host and port, `close`, `gzip`, no transfer coding, and the length of the
body when there is one. -/
def values (req : Request) : FramingField → List Text
  | host => [' ' :: hostPort req]
  | contentLength =>
      if req.body.isSome then [' ' :: decimal (req.body.getD []).length] else []
  | connection => [" close".toList]
  | transferEncoding => []
  | acceptEncoding => [' ' :: acceptValue]

@[simp]
theorem name_host : host.name = "Host".toList :=
  rfl

@[simp]
theorem name_contentLength : contentLength.name = "Content-Length".toList :=
  rfl

@[simp]
theorem name_connection : connection.name = "Connection".toList :=
  rfl

@[simp]
theorem name_acceptEncoding : acceptEncoding.name = acceptHeader :=
  rfl

theorem eqIgnoreAsciiCase_name (first second : FramingField) :
    eqIgnoreAsciiCase first.name second.name = decide (first = second) := by
  cases first <;> cases second <;> decide

theorem eqIgnoreAsciiCase_contentType (field : FramingField) :
    eqIgnoreAsciiCase "Content-Type".toList field.name = false := by
  cases field <;> decide

theorem colon_not_mem_name (field : FramingField) : ':' ∉ field.name := by
  cases field <;> decide

theorem solid_name (field : FramingField) : Solid field.name := by
  cases field <;> decide

/-- A framing field is read under its own name and under no other one. -/
theorem fieldValues_own (field name : FramingField) (value : Text) :
    fieldValues name.name [renderField (field.name, value)] =
      if field = name then [' ' :: value] else [] := by
  have read := readField_renderField (colon_not_mem_name field) (solid_name field) value
  simp only [fieldValues, List.filterMap_cons, read, List.filterMap_nil, List.filter_cons,
    eqIgnoreAsciiCase_name, List.filter_nil, decide_eq_true_eq]
  split <;> rfl

end FramingField

/-- The filter knows exactly the framing fields. -/
theorem isFramingHeader_iff {name : Text} :
    isFramingHeader name = true ↔
      ∃ field : FramingField, eqIgnoreAsciiCase name field.name = true := by
  have lowered : ∀ field : FramingField, asciiLower field.name =
      match field with
      | .host => "host".toList
      | .contentLength => "content-length".toList
      | .connection => "connection".toList
      | .transferEncoding => "transfer-encoding".toList
      | .acceptEncoding => asciiLower acceptHeader := by
    intro field
    cases field <;> rfl
  simp only [isFramingHeader, eqIgnoreAsciiCase_iff, lowered, Bool.or_eq_true, beq_iff_eq]
  constructor
  · rintro ((((isHost | isLength) | isConnection) | isTransfer) | isAccept)
    · exact ⟨.host, isHost⟩
    · exact ⟨.contentLength, isLength⟩
    · exact ⟨.connection, isConnection⟩
    · exact ⟨.transferEncoding, isTransfer⟩
    · exact ⟨.acceptEncoding, isAccept⟩
  · rintro ⟨field, same⟩
    cases field
    · exact Or.inl (Or.inl (Or.inl (Or.inl same)))
    · exact Or.inl (Or.inl (Or.inl (Or.inr same)))
    · exact Or.inl (Or.inl (Or.inr same))
    · exact Or.inl (Or.inr same)
    · exact Or.inr same

/-- The values read in the fields the serialiser writes are its own ones, with
those of the caller's headers that are read as framing. -/
theorem fieldValues_writtenFields (req : Request) (field : FramingField) :
    ∃ before after, before ++ after = field.values req ∧
      fieldValues field.name ((writtenFields req).map renderField) =
        before ++ fieldValues field.name ((keptHeaders req).map renderField) ++ after := by
  have hostRead := FramingField.fieldValues_own .host field (hostPort req)
  have acceptRead := FramingField.fieldValues_own .acceptEncoding field acceptValue
  have connectionRead := FramingField.fieldValues_own .connection field "close".toList
  rw [FramingField.name_host] at hostRead
  rw [FramingField.name_acceptEncoding] at acceptRead
  rw [FramingField.name_connection] at connectionRead
  have typeRead : fieldValues field.name
      [renderField ("Content-Type".toList, effectiveContentType req)] = [] := by
    have whole : ':' ∉ "Content-Type".toList := by decide
    have solid : Solid "Content-Type".toList := by decide
    have read := readField_renderField whole solid (effectiveContentType req)
    simp only [fieldValues, List.filterMap_cons, read, List.filterMap_nil,
      List.filter_cons, FramingField.eqIgnoreAsciiCase_contentType, List.filter_nil, List.map_nil,
      Bool.false_eq_true, if_false]
  have bodyRead : fieldValues field.name ((bodyFields req).map renderField) =
      if field = .contentLength ∧ req.body.isSome then
        [' ' :: decimal (req.body.getD []).length] else [] := by
    have lengthRead := FramingField.fieldValues_own .contentLength field
      (decimal (req.body.getD []).length)
    unfold bodyFields
    by_cases hasBody : req.body.isSome
    · rw [FramingField.name_contentLength] at lengthRead
      rw [if_pos hasBody, List.map_cons, ← List.singleton_append, fieldValues_append, lengthRead]
      have rest : fieldValues field.name
          ((if namesContentType (keptHeaders req) then []
            else [("Content-Type".toList, effectiveContentType req)]).map renderField) = [] := by
        split
        · rfl
        · exact typeRead
      rw [rest, List.append_nil]
      simp [hasBody, eq_comm]
    · simp [hasBody]
  have assembled : (writtenFields req).map renderField =
      [renderField ("Host".toList, hostPort req)] ++ (keptHeaders req).map renderField ++
        ((bodyFields req).map renderField ++ ([renderField (acceptHeader, acceptValue)] ++
          [renderField ("Connection".toList, "close".toList)])) := by
    simp only [writtenFields, List.map_append, List.map_cons, List.map_nil, List.cons_append,
      List.nil_append, List.append_assoc]
  have read := congrArg (fieldValues field.name) assembled
  simp only [fieldValues_append, hostRead, acceptRead, connectionRead, bodyRead] at read
  refine ⟨_, _, ?_, read⟩
  cases field <;> simp [FramingField.values]

/-! ## The head among the bytes -/

theorem OneLine.append {first second : Text} (left : OneLine first) (right : OneLine second) :
    OneLine (first ++ second) :=
  ⟨fun member => (List.mem_append.mp member).elim left.1 right.1,
    fun member => (List.mem_append.mp member).elim left.2 right.2⟩

theorem OneLine.not_isInfix {text : Text} (oneLine : OneLine text) : ¬ crlf <:+: text :=
  fun isInfix => oneLine.1 (isInfix.subset (by simp [crlf]))

theorem oneLine_decimal (n : Nat) : OneLine (decimal n) := by
  have digit : ∀ c, c.isDigit = false → c ∉ decimal n := fun c other member => by
    rw [isDigit_of_mem_decimal member] at other
    exact Bool.noConfusion other
  exact ⟨digit '\r' rfl, digit '\n' rfl⟩

theorem oneLine_renderField {field : Text × Text} (name : OneLine field.1)
    (value : OneLine field.2) : OneLine (renderField field) :=
  (name.append (by decide)).append value

/-- Every field of an accepted request is one line. -/
theorem oneLine_of_mem_writtenFields {req : Request} (accepted : Accepted req)
    {field : Text × Text} (member : field ∈ writtenFields req) :
    OneLine field.1 ∧ OneLine field.2 := by
  simp only [writtenFields, List.mem_append, List.mem_cons, List.not_mem_nil, or_false] at member
  rcases member with ((rfl | kept) | described) | rfl | rfl
  · have name : OneLine "Host".toList := by decide
    exact ⟨name, (accepted.host.append (by decide)).append accepted.port⟩
  · have given := (List.mem_filter.mp kept).1
    exact ⟨accepted.names field given, accepted.values field given⟩
  · unfold bodyFields at described
    split at described
    · rename_i hasBody
      rcases List.mem_cons.mp described with rfl | typed
      · have name : OneLine "Content-Length".toList := by decide
        exact ⟨name, oneLine_decimal _⟩
      · split at typed
        · exact absurd typed List.not_mem_nil
        · rename_i unnamed
          have name : OneLine "Content-Type".toList := by decide
          rw [List.mem_singleton.mp typed]
          exact ⟨name, accepted.contentType hasBody (by simpa using unnamed)⟩
    · exact absurd described List.not_mem_nil
  · exact ⟨by decide, by decide⟩
  · exact ⟨by decide, by decide⟩

/-- The request line contains a CRLF only where the method does. -/
theorem not_infix_requestLine {req : Request} (accepted : Accepted req)
    (method : ¬ crlf <:+: req.method) : ¬ crlf <:+: requestLine req := by
  have pathOk : OneLine (if req.path = [] then "/".toList else req.path) := by
    split
    · decide
    · exact accepted.path
  have blank : OneLine " ".toList := by decide
  have version : OneLine " HTTP/1.1".toList := by decide
  have rest := (blank.append pathOk).append version
  intro isInfix
  apply method
  refine infix_pair_of_append rest.2 ?_
  simpa [requestLine, crlf] using isInfix

theorem not_infix_headLines {req : Request} (accepted : Accepted req)
    (method : ¬ crlf <:+: req.method) : ∀ line ∈ headLines req, ¬ crlf <:+: line := by
  intro line member
  rcases List.mem_cons.mp member with rfl | written
  · exact not_infix_requestLine accepted method
  · obtain ⟨field, fieldMem, rfl⟩ := List.mem_map.mp written
    obtain ⟨name, value⟩ := oneLine_of_mem_writtenFields accepted fieldMem
    exact (oneLine_renderField name value).not_isInfix

theorem headLines_filled (req : Request) : ∀ line ∈ headLines req, line ≠ [] := by
  intro line member
  rcases List.mem_cons.mp member with rfl | written
  · simp [requestLine]
  · obtain ⟨field, _, rfl⟩ := List.mem_map.mp written
    simp [renderField]

/-- The first blank line of the bytes ends the head, whatever follows. -/
theorem headEnd_headText {req : Request} (accepted : Accepted req)
    (method : ¬ crlf <:+: req.method) (rest : Bytes) :
    headEnd (utf8 (headText req) ++ rest) = some (utf8 (headText req)).length := by
  have found := findWord_headTerminator_lines (by simp [headLines]) (headLines_filled req)
    (not_infix_headLines accepted method) rest
  have joined := congrArg utf8 (flatMap_append_eq_intercalate crlf
    (show headLines req ≠ [] by simp [headLines]))
  rw [headText, headEnd, found, utf8_append, joined]
  simp

/-- The head is read as the lines that were written and the two empty texts
around its last line end. -/
theorem readLines_headText {req : Request} (accepted : Accepted req)
    (method : ¬ crlf <:+: req.method) :
    readLines (utf8 (headText req)) = headLines req ++ [[], []] := by
  rw [readLines, fromUtf8Lossy_utf8, headText, crlf,
    splitWord_pair_lines (by decide) _ (not_infix_headLines accepted method)]
  rfl

/-! ## The framing is the serialiser's -/

/-- The output is a head and the body, the first blank line ends the head, the
head's lines are the ones written, and each framing field is read with the
serialiser's values only. -/
def OwnFraming (req : Request) (out : Bytes) : Prop :=
  ∃ head, out = head ++ req.body.getD [] ∧
    headEnd out = some head.length ∧
    readLines head = headLines req ++ [[], []] ∧
    ∀ field : FramingField, fieldValues field.name (readLines head).tail = field.values req

/-- The method brings no line end, and no header that passes the filter is read
under a framing name. -/
def NoSmuggling (req : Request) : Prop :=
  ¬ crlf <:+: req.method ∧
    ∀ header ∈ req.headers, isFramingHeader (trim (beforeFirst ':' header.1)) = true →
      isFramingHeader header.1 = true

instance (req : Request) : Decidable (NoSmuggling req) :=
  inferInstanceAs (Decidable (_ ∧ _))

/-- The headers that pass the filter bring no framing value exactly when none of
them is cut to a framing name. -/
theorem keptHeaders_silent_iff (req : Request) :
    (∀ field : FramingField,
        fieldValues field.name ((keptHeaders req).map renderField) = []) ↔
      ∀ header ∈ req.headers, isFramingHeader (trim (beforeFirst ':' header.1)) = true →
        isFramingHeader header.1 = true := by
  constructor
  · intro silent header member framing
    by_contra passes
    have kept : header ∈ keptHeaders req := List.mem_filter.mpr ⟨member, by simpa using passes⟩
    obtain ⟨field, same⟩ := isFramingHeader_iff.mp framing
    exact fieldValues_renderField_eq_nil_iff.mp (silent field) header kept same
  · intro filtered field
    refine fieldValues_renderField_eq_nil_iff.mpr fun header kept same => ?_
    obtain ⟨member, passes⟩ := List.mem_filter.mp kept
    rw [filtered header member (isFramingHeader_iff.mpr ⟨field, same⟩)] at passes
    exact Bool.noConfusion passes

/-- A framing field is read with exactly the serialiser's values when the
caller's headers bring none. -/
theorem fieldValues_headLines_iff (req : Request) (field : FramingField) :
    fieldValues field.name (headLines req ++ [[], []]).tail = field.values req ↔
      fieldValues field.name ((keptHeaders req).map renderField) = [] := by
  obtain ⟨before, after, own, read⟩ := fieldValues_writtenFields req field
  have blank : fieldValues field.name [[], []] = [] := rfl
  rw [headLines, List.cons_append, List.tail_cons, fieldValues_append, blank, List.append_nil,
    read, ← own]
  constructor
  · intro equal
    have lengths := congrArg List.length equal
    simp only [List.length_append] at lengths
    exact List.length_eq_zero_iff.mp (by omega)
  · intro silent
    rw [silent, List.append_nil]

theorem noSmuggling_of_ownFraming {req : Request} {out : Bytes} (own : OwnFraming req out) :
    NoSmuggling req := by
  obtain ⟨head, outEq, _, lines, values⟩ := own
  refine ⟨fun isInfix => ?_, (keptHeaders_silent_iff req).mp fun field => ?_⟩
  · have member : requestLine req ∈ readLines head := by
      rw [lines]
      simp [headLines]
    refine not_infix_of_mem_splitWord crlf_ne_nil member (isInfix.trans ?_)
    exact List.IsPrefix.isInfix ⟨_, by rw [requestLine, List.append_assoc, List.append_assoc]⟩
  · rw [← fieldValues_headLines_iff, ← lines]
    exact values field

theorem ownFraming_of_noSmuggling {req : Request} {out : Bytes}
    (built : buildRequest req = .ok out) (clean : NoSmuggling req) : OwnFraming req out := by
  obtain ⟨accepted, rfl⟩ := buildRequest_eq_ok_iff.mp built
  have lines := readLines_headText accepted clean.1
  refine ⟨utf8 (headText req), rfl, headEnd_headText accepted clean.1 _, lines, fun field => ?_⟩
  rw [lines, fieldValues_headLines_iff]
  exact (keptHeaders_silent_iff req).mpr clean.2 field

/-- On every request the serialiser accepts, the framing is its own exactly when
the method contains no CRLF and no header name that passes the filter is cut to
a framing name by the readers. -/
theorem ownFraming_iff_noSmuggling {req : Request} {out : Bytes}
    (built : buildRequest req = .ok out) : OwnFraming req out ↔ NoSmuggling req :=
  ⟨noSmuggling_of_ownFraming, ownFraming_of_noSmuggling built⟩

/-- A statement as the clients send it. -/
def plainRequest : Request where
  method := "POST".toList
  path := "/quack".toList
  host := "peer.iroh".toList
  port := "9494".toList
  headers := [("X-Keep".toList, "yes".toList)]
  body := some (utf8 "hi".toList)
  contentType := []

theorem buildRequest_plainRequest :
    buildRequest plainRequest = .ok (utf8 (headText plainRequest) ++ utf8 "hi".toList) :=
  buildRequest_eq_ok_iff.mpr ⟨by constructor <;> decide, rfl⟩

theorem ownFraming_plainRequest :
    OwnFraming plainRequest (utf8 (headText plainRequest) ++ utf8 "hi".toList) :=
  (ownFraming_iff_noSmuggling buildRequest_plainRequest).mpr (by decide)

/-- A header name that ends in a blank. -/
def blankNameRequest : Request :=
  { plainRequest with headers := [("Transfer-Encoding ".toList, "chunked".toList)] }

/-- A method that brings a whole head of its own. -/
def splitMethodRequest : Request :=
  { plainRequest with method := "GET / HTTP/1.1\r\nHost: evil\r\n\r\nPOST".toList }

/-- Both requests are accepted; the first is read with a transfer coding, the
second with another head in front. -/
theorem framing_not_own :
    (∃ out, buildRequest blankNameRequest = .ok out ∧ ¬ OwnFraming blankNameRequest out) ∧
      ∃ out, buildRequest splitMethodRequest = .ok out ∧ ¬ OwnFraming splitMethodRequest out := by
  constructor
  · refine ⟨_, buildRequest_eq_ok_iff.mpr ⟨by constructor <;> decide, rfl⟩, fun own => ?_⟩
    exact absurd (noSmuggling_of_ownFraming own) (by decide)
  · refine ⟨_, buildRequest_eq_ok_iff.mpr ⟨by constructor <;> decide, rfl⟩, fun own => ?_⟩
    exact absurd (noSmuggling_of_ownFraming own) (by decide)

end Quackhole.Http
