import Quackhole.Compress.Negotiation

/-!
# Serialising a request

`buildRequest` is the serialiser both clients share.  Its result is described
by a list of lines, the request line and one line for each field it writes, so
that everything proved about the bytes is proved about that list.
-/

namespace Quackhole.Http

open Quackhole.Word
open Quackhole.Compress

/-- A request to build.  Headers are the caller's; framing headers are ours. -/
structure Request where
  method : Text
  path : Text
  host : Text
  port : Text
  headers : List (Text × Text)
  body : Option Bytes
  /-- Used only when the caller supplied no Content-Type and there is a body. -/
  contentType : Text
  deriving DecidableEq

/-- `reject_injection`: refuse CR and LF in anything spliced into the head. -/
def rejectInjection (what value : Text) : Except Text Unit :=
  if '\r' ∈ value ∨ '\n' ∈ value then
    .error ("quackhole: ".toList ++ what ++ " must not contain CR or LF".toList)
  else .ok ()

/-- `is_framing_header`: headers we own.  A caller-supplied copy is dropped. -/
def isFramingHeader (name : Text) : Bool :=
  let lower := asciiLower name
  lower == "host".toList || lower == "content-length".toList || lower == "connection".toList ||
    lower == "transfer-encoding".toList || lower == asciiLower acceptHeader

/-- The loop over the caller's headers: the head so far and whether a
Content-Type has been seen. -/
def pushHeaders : List (Text × Text) → Text → Bool → Except Text (Text × Bool)
  | [], head, hasContentType => .ok (head, hasContentType)
  | (name, value) :: headers, head, hasContentType => do
      rejectInjection "header name".toList name
      rejectInjection "header value".toList value
      if isFramingHeader name then pushHeaders headers head hasContentType
      else
        pushHeaders headers (head ++ name ++ ": ".toList ++ value ++ crlf)
          (hasContentType || eqIgnoreAsciiCase name "content-type".toList)

/-- The type sent when the caller gave none. -/
def effectiveContentType (req : Request) : Text :=
  if req.contentType = [] then "application/octet-stream".toList else req.contentType

/-- The fields that describe the body, when there is one. -/
def pushBodyFields (req : Request) (head : Text) (hasContentType : Bool) : Except Text Text :=
  if req.body.isSome then
    let head := head ++ "Content-Length: ".toList ++ decimal (req.body.getD []).length ++ crlf
    if hasContentType then .ok head
    else do
      rejectInjection "content type".toList (effectiveContentType req)
      .ok (head ++ "Content-Type: ".toList ++ effectiveContentType req ++ crlf)
  else .ok head

/-- `build_request`: head, then body. -/
def buildRequest (req : Request) : Except Text Bytes := do
  rejectInjection "request path".toList req.path
  rejectInjection "host".toList req.host
  rejectInjection "port".toList req.port
  let path := if req.path = [] then "/".toList else req.path
  let head := req.method ++ " ".toList ++ path ++ " HTTP/1.1".toList ++ crlf
  let head := head ++ "Host: ".toList ++ req.host ++ ":".toList ++ req.port ++ crlf
  let (head, hasContentType) ← pushHeaders req.headers head false
  let head ← pushBodyFields req head hasContentType
  let head := head ++ acceptHeader ++ ": ".toList ++ acceptValue ++ crlf
  let head := head ++ "Connection: close".toList ++ crlf ++ crlf
  .ok (utf8 head ++ req.body.getD [])

/-! ## The lines of the head -/

/-- A line as it stands in the head. -/
def renderField (field : Text × Text) : Text :=
  field.1 ++ ": ".toList ++ field.2

/-- The caller's headers that survive the filter. -/
def keptHeaders (req : Request) : List (Text × Text) :=
  req.headers.filter fun header => !isFramingHeader header.1

/-- Whether a header that survives is a Content-Type. -/
def namesContentType (headers : List (Text × Text)) : Bool :=
  headers.any fun header => eqIgnoreAsciiCase header.1 "content-type".toList

/-- The fields that describe the body. -/
def bodyFields (req : Request) : List (Text × Text) :=
  if req.body.isSome then
    ("Content-Length".toList, decimal (req.body.getD []).length) ::
      if namesContentType (keptHeaders req) then []
      else [("Content-Type".toList, effectiveContentType req)]
  else []

/-- The value of the Host field. -/
def hostPort (req : Request) : Text :=
  req.host ++ ":".toList ++ req.port

/-- Every field of the head, in the order it is written. -/
def writtenFields (req : Request) : List (Text × Text) :=
  ("Host".toList, hostPort req) :: keptHeaders req ++ bodyFields req ++
    [(acceptHeader, acceptValue), ("Connection".toList, "close".toList)]

def requestLine (req : Request) : Text :=
  req.method ++ " ".toList ++ (if req.path = [] then "/".toList else req.path) ++
    " HTTP/1.1".toList

/-- The request line and one line for each field. -/
def headLines (req : Request) : List Text :=
  requestLine req :: (writtenFields req).map renderField

/-- The head: its lines, each ended by CRLF, and an empty line. -/
def headText (req : Request) : Text :=
  (headLines req).flatMap (· ++ crlf) ++ crlf

/-- No CR and no LF. -/
def OneLine (text : Text) : Prop :=
  '\r' ∉ text ∧ '\n' ∉ text

instance (text : Text) : Decidable (OneLine text) :=
  inferInstanceAs (Decidable (_ ∧ _))

/-- What `buildRequest` checks before it writes. -/
structure Accepted (req : Request) : Prop where
  path : OneLine req.path
  host : OneLine req.host
  port : OneLine req.port
  names : ∀ header ∈ req.headers, OneLine header.1
  values : ∀ header ∈ req.headers, OneLine header.2
  contentType : req.body.isSome → namesContentType (keptHeaders req) = false →
    OneLine (effectiveContentType req)

theorem rejectInjection_eq_ok_iff {what value : Text} {u : Unit} :
    rejectInjection what value = .ok u ↔ OneLine value := by
  unfold rejectInjection OneLine
  split
  · rename_i broken
    simp only [reduceCtorEq, false_iff, not_and_or, not_not]
    exact broken
  · rename_i whole
    simpa [not_or] using whole

/-- A check in front of a computation: the whole succeeds when the text is one
line and the computation succeeds. -/
theorem rejectInjection_bind_eq_ok_iff {β : Type} {what value : Text}
    {next : Except Text β} {result : β} :
    (rejectInjection what value >>= fun _ => next) = .ok result ↔
      OneLine value ∧ next = .ok result := by
  cases checked : rejectInjection what value with
  | ok u =>
      have oneLine := rejectInjection_eq_ok_iff.mp checked
      exact ⟨fun succeeded => ⟨oneLine, succeeded⟩, fun both => both.2⟩
  | error message =>
      have broken : ¬ OneLine value := fun oneLine => by
        rw [rejectInjection_eq_ok_iff (u := ()).mpr oneLine] at checked
        cases checked
      constructor
      · intro impossible
        cases impossible
      · rintro ⟨oneLine, _⟩
        exact absurd oneLine broken

/-- The loop succeeds exactly on headers without CR and LF, appends one line for
each header that is not ours, and remembers a Content-Type among them. -/
theorem pushHeaders_eq_ok_iff {headers : List (Text × Text)} {head : Text} {has : Bool}
    {result : Text × Bool} :
    pushHeaders headers head has = .ok result ↔
      (∀ header ∈ headers, OneLine header.1 ∧ OneLine header.2) ∧
        (head ++ ((headers.filter fun header => !isFramingHeader header.1).map
              renderField).flatMap (· ++ crlf),
            has || namesContentType (headers.filter fun header => !isFramingHeader header.1)) =
          result := by
  induction headers generalizing head has with
  | nil =>
      simp [pushHeaders, namesContentType]
  | cons header headers ih =>
      obtain ⟨name, value⟩ := header
      rw [pushHeaders, rejectInjection_bind_eq_ok_iff, rejectInjection_bind_eq_ok_iff]
      rw [List.forall_mem_cons, and_assoc, and_assoc]
      refine and_congr_right fun _ => and_congr_right fun _ => ?_
      by_cases framing : isFramingHeader name
      · rw [if_pos framing, ih, List.filter_cons_of_neg (by simpa using framing)]
      · rw [if_neg framing, ih, List.filter_cons_of_pos (by simpa using framing)]
        simp only [List.map_cons, List.flatMap_cons, namesContentType, List.any_cons,
          Bool.or_assoc, renderField, List.append_assoc]

theorem pushBodyFields_eq_ok_iff {req : Request} {head result : Text} :
    pushBodyFields req head (namesContentType (keptHeaders req)) = .ok result ↔
      (req.body.isSome → namesContentType (keptHeaders req) = false →
        OneLine (effectiveContentType req)) ∧
      head ++ ((bodyFields req).map renderField).flatMap (· ++ crlf) = result := by
  unfold pushBodyFields bodyFields
  by_cases hasBody : req.body.isSome
  · cases named : namesContentType (keptHeaders req) with
    | true => simp [hasBody, renderField]
    | false =>
        simp only [hasBody, if_true, Bool.false_eq_true, if_false, true_implies,
          rejectInjection_bind_eq_ok_iff]
        refine and_congr_right fun _ => ?_
        simp [renderField]
  · simp [hasBody]

/-- A computation in two stages succeeds when both do. -/
theorem bind_eq_ok_iff {α β : Type} {first : Except Text α} {next : α → Except Text β} {result : β} :
    (first >>= next) = .ok result ↔ ∃ middle, first = .ok middle ∧ next middle = .ok result := by
  cases first with
  | ok middle => simp [bind, Except.bind]
  | error message => simp [bind, Except.bind]

/-- The serialiser succeeds exactly on the requests that pass its checks, and
then writes the lines of the head, an empty line and the body. -/
theorem buildRequest_eq_ok_iff {req : Request} {out : Bytes} :
    buildRequest req = .ok out ↔
      Accepted req ∧ out = utf8 (headText req) ++ req.body.getD [] := by
  have written : ∀ described,
      described = req.method ++ " ".toList ++ (if req.path = [] then "/".toList else req.path) ++
          " HTTP/1.1".toList ++ crlf ++ "Host: ".toList ++ req.host ++ ":".toList ++ req.port ++ crlf ++
        ((keptHeaders req).map renderField).flatMap (· ++ crlf) ++
        ((bodyFields req).map renderField).flatMap (· ++ crlf) →
      described ++ acceptHeader ++ ": ".toList ++ acceptValue ++ crlf ++
        "Connection: close".toList ++ crlf ++ crlf = headText req := by
    rintro described rfl
    simp [headText, headLines, writtenFields, requestLine, hostPort, renderField]
  unfold buildRequest
  rw [rejectInjection_bind_eq_ok_iff, rejectInjection_bind_eq_ok_iff,
    rejectInjection_bind_eq_ok_iff, bind_eq_ok_iff]
  constructor
  · rintro ⟨pathOk, hostOk, portOk, ⟨head, has⟩, pushed, rest⟩
    obtain ⟨headersOk, pair⟩ := pushHeaders_eq_ok_iff.mp pushed
    obtain ⟨described, bodyPushed, outEq⟩ := bind_eq_ok_iff.mp rest
    cases pair
    rw [Bool.false_or] at bodyPushed
    obtain ⟨typeOk, describedEq⟩ := pushBodyFields_eq_ok_iff.mp bodyPushed
    refine ⟨⟨pathOk, hostOk, portOk, fun header member => (headersOk header member).1,
      fun header member => (headersOk header member).2, typeOk⟩, ?_⟩
    rw [← written described describedEq.symm]
    exact (Except.ok.inj outEq).symm
  · rintro ⟨accepted, rfl⟩
    refine ⟨accepted.path, accepted.host, accepted.port, (_, _),
      pushHeaders_eq_ok_iff.mpr ⟨fun header member =>
        ⟨accepted.names header member, accepted.values header member⟩, rfl⟩, ?_⟩
    refine bind_eq_ok_iff.mpr ⟨_, ?_, congrArg (fun head => Except.ok (utf8 head ++ _))
      (written _ rfl)⟩
    rw [Bool.false_or]
    exact pushBodyFields_eq_ok_iff.mpr ⟨accepted.contentType, rfl⟩

/-- Something is always written. -/
theorem buildRequest_ne_nil {req : Request} {out : Bytes} (built : buildRequest req = .ok out) :
    out ≠ [] := by
  obtain ⟨_, rfl⟩ := buildRequest_eq_ok_iff.mp built
  simp [headText]

end Quackhole.Http
