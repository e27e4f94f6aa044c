import Quackhole.Http.Receive

/-!
# The parser on two machines

The same parser runs in a 64-bit process and in a browser of 32 bits.  A size that only the
narrower one cannot represent is larger than anything it can hold, so that the machines agree on
what has chunks.  A declared length is another matter: what the wider one refuses as too short,
the narrower one takes up to the end of the stream.
-/

namespace Quackhole.Http

open Quackhole.Word
open Quackhole.Compress

variable {narrow wide : Nat}

theorem usizeLimit_le (ordered : narrow ≤ wide) : usizeLimit narrow ≤ usizeLimit wide :=
  Nat.pow_le_pow_right (by decide) ordered

/-- The limit only decides which numbers are read. -/
theorem exists_parseUnsigned (radix : Nat) (text : Text) :
    ∃ value : Option Nat, ∀ limit, parseUnsigned radix limit text = value.filter (· < limit) := by
  have cut (digits : Text) : ∃ value : Option Nat, ∀ limit,
      (if digits = [] then none else (digitsValue radix 0 digits).filter (· < limit)) =
        value.filter (· < limit) := by
    by_cases blank : digits = []
    · exact ⟨none, fun _ => if_pos blank⟩
    · exact ⟨digitsValue radix 0 digits, fun _ => if_neg blank⟩
  exact cut _

/-- A number that one machine reads is read by the other, if it can represent it. -/
theorem parseUnsigned_eq_some_of_limit {radix limit other n : Nat} {text : Text}
    (read : parseUnsigned radix limit text = some n) (small : n < other) :
    parseUnsigned radix other text = some n := by
  obtain ⟨value, filtered⟩ := exists_parseUnsigned radix text
  rw [filtered, Option.filter_eq_some_iff] at read ⊢
  exact ⟨read.1, decide_eq_true small⟩

theorem lt_of_parseUnsigned {radix limit n : Nat} {text : Text}
    (read : parseUnsigned radix limit text = some n) : n < limit := by
  obtain ⟨value, filtered⟩ := exists_parseUnsigned radix text
  rw [filtered, Option.filter_eq_some_iff] at read
  exact of_decide_eq_true read.2

theorem FirstChunk.of_limit {bits other lineEnd size : Nat} {data : Bytes}
    (first : FirstChunk bits data lineEnd size) (small : size < usizeLimit other) :
    FirstChunk other data lineEnd size :=
  ⟨first.1, parseUnsigned_eq_some_of_limit first.2 small⟩

/-! ## Bodies -/

/-- What one machine decodes, the other does if it can hold it: every size that counts is no
larger than what is left of the data. -/
theorem decodeChunks_of_limit {bits other : Nat} {out data body : Bytes}
    (held : data.length < usizeLimit other)
    (decoded : decodeChunks bits out data = .ok body) : decodeChunks other out data = .ok body := by
  -- The size line and the data of a chunk are taken off the data.
  induction steps : data.length using Nat.strong_induction_on generalizing out data with
  | _ steps ih =>
      obtain ⟨lineEnd, size, first, last | ⟨positive, fits, more⟩⟩ := decodeChunks_eq_ok_iff.mp decoded
      · obtain ⟨rfl, rfl⟩ := last
        exact decodeChunks_eq_ok_iff.mpr
          ⟨lineEnd, 0, first.of_limit (Nat.zero_lt_of_lt held), Or.inl ⟨rfl, rfl⟩⟩
      · have shorter : size ≤ data.length := by
          rw [List.length_drop] at fits
          omega
        have rest : (((data.drop (lineEnd + 2)).drop size).drop 2).length < data.length := by
          rw [List.length_drop] at fits
          simp only [List.length_drop]
          omega
        have decodedRest := ih _ (steps ▸ rest) (rest.trans held) more rfl
        exact decodeChunks_eq_ok_iff.mpr ⟨lineEnd, size,
          first.of_limit (shorter.trans_lt held), Or.inr ⟨positive, fits, decodedRest⟩⟩

/-- The body is framed by a length that the wider machine represents and the narrower one does
not. -/
def Oversized (narrow wide : Nat) (expectBody : Bool) (headers : List (Text × Text)) : Prop :=
  expectBody = true ∧ isChunked headers = false ∧
    ∃ n, promisedLength wide headers = some n ∧ usizeLimit narrow ≤ n

/-- Both machines are promised the same, or one of them cannot represent it. -/
theorem promisedLength_narrow (ordered : narrow ≤ wide) {headers : List (Text × Text)}
    (sized : ∀ n, promisedLength wide headers = some n → n < usizeLimit narrow) :
    promisedLength narrow headers = promisedLength wide headers := by
  rw [promisedLength, promisedLength] at *
  cases written : headerValue headers "content-length".toList with
  | none => rfl
  | some digits =>
      rw [written, Option.bind_some] at sized
      rw [Option.bind_some, Option.bind_some]
      cases read : parseUnsigned 10 (usizeLimit wide) digits with
      | some n => exact parseUnsigned_eq_some_of_limit read (sized n read)
      | none =>
          apply Option.eq_none_iff_forall_ne_some.mpr
          intro n readNarrow
          have small := (lt_of_parseUnsigned readNarrow).trans_le (usizeLimit_le ordered)
          rw [parseUnsigned_eq_some_of_limit readNarrow small] at read
          cases read

/-- A length that only the wider machine can represent is none to the narrower one. -/
theorem promisedLength_of_oversized {headers : List (Text × Text)} {n : Nat}
    (promised : promisedLength wide headers = some n) (large : usizeLimit narrow ≤ n) :
    promisedLength narrow headers = none := by
  rw [promisedLength] at promised ⊢
  obtain ⟨digits, written, read⟩ := Option.bind_eq_some_iff.mp promised
  obtain ⟨value, filtered⟩ := exists_parseUnsigned 10 digits
  rw [filtered, Option.filter_eq_some_iff] at read
  rw [written, Option.bind_some, filtered, read.1, Option.filter_some, if_neg]
  rw [decide_eq_true_eq]
  exact Nat.not_lt.mpr large

/-- Such a length is too long for what was sent, and makes the narrower machine take all of
it. -/
theorem readBody_of_oversized {expectBody : Bool} {headers : List (Text × Text)} {rest : Bytes}
    (held : rest.length < usizeLimit narrow)
    (excess : Oversized narrow wide expectBody headers) :
    ∃ n, promisedLength wide headers = some n ∧
      readBody wide expectBody headers rest = .error (.shortBody n rest.length) ∧
      readBody narrow expectBody headers rest = .ok rest := by
  obtain ⟨rfl, chunked, n, promised, large⟩ := excess
  have short : n > rest.length := held.trans_le large
  have absent := promisedLength_of_oversized promised large
  exact ⟨n, promised, by simp [readBody, chunked, promised, short],
    by simp [readBody, chunked, absent]⟩

/-- The wider machine reads the body that the narrower one reads, unless its length is one
that only it represents, and which no body that is held has. -/
theorem readBody_wide_iff (ordered : narrow ≤ wide) {expectBody : Bool}
    {headers : List (Text × Text)} {rest body : Bytes} (held : rest.length < usizeLimit narrow) :
    readBody wide expectBody headers rest = .ok body ↔
      readBody narrow expectBody headers rest = .ok body ∧
        ¬ Oversized narrow wide expectBody headers := by
  cases expectBody with
  | false => simp [readBody, Oversized]
  | true =>
      cases chunked : isChunked headers with
      | true =>
          have same : decodeChunks wide [] rest = .ok body ↔ decodeChunks narrow [] rest = .ok body :=
            ⟨decodeChunks_of_limit held,
              decodeChunks_of_limit (held.trans_le (usizeLimit_le ordered))⟩
          simp [readBody, Oversized, chunked, same]
      | false =>
          by_cases sized : ∀ n, promisedLength wide headers = some n → n < usizeLimit narrow
          · have none : ¬ Oversized narrow wide true headers := by
              rintro ⟨-, -, n, promised, large⟩
              exact absurd (sized n promised) (Nat.not_lt.mpr large)
            simp [readBody, chunked, promisedLength_narrow ordered sized, none]
          · obtain ⟨n, promisedLarge⟩ := not_forall.mp sized
            obtain ⟨promised, notSmall⟩ := Classical.not_imp.mp promisedLarge
            have large := Nat.not_lt.mp notSmall
            have excess : Oversized narrow wide true headers := ⟨rfl, chunked, n, promised, large⟩
            have short : n > rest.length := held.trans_le large
            simp [readBody, chunked, promised, excess, short]

/-! ## Responses -/

/-- The response declares a length that the wider machine represents and the narrower one does
not, and nothing else frames its body. -/
def OversizedResponse (narrow wide : Nat) (expectBody : Bool) (bytes : Bytes) : Prop :=
  ∃ split, findWord headTerminator bytes = some split ∧
    Oversized narrow wide expectBody (parseHead (bytes.take split)).headers

theorem parseResponse_wide_iff (ordered : narrow ≤ wide) {expectBody : Bool} {bytes : Bytes}
    {response : Response} (held : bytes.length < usizeLimit narrow) :
    parseResponse wide bytes expectBody = .ok response ↔
      parseResponse narrow bytes expectBody = .ok response ∧
        ¬ OversizedResponse narrow wide expectBody bytes := by
  have rest : ∀ split, (bytes.drop (split + 4)).length < usizeLimit narrow := fun split =>
    (List.drop_sublist _ _).length_le.trans_lt held
  rw [parseResponse_eq_ok_iff, parseResponse_eq_ok_iff]
  constructor
  · rintro ⟨split, body, ended, read, made⟩
    obtain ⟨readNarrow, sized⟩ := (readBody_wide_iff ordered (rest split)).mp read
    refine ⟨⟨split, body, ended, readNarrow, made⟩, ?_⟩
    rintro ⟨found, also, excess⟩
    obtain rfl : split = found := Option.some.inj (ended.symm.trans also)
    exact sized excess
  · rintro ⟨⟨split, body, ended, readNarrow, made⟩, sized⟩
    have notOver : ¬ Oversized narrow wide expectBody (parseHead (bytes.take split)).headers :=
      fun excess => sized ⟨split, ended, excess⟩
    exact ⟨split, body, ended,
      (readBody_wide_iff ordered (rest split)).mpr ⟨readNarrow, notOver⟩, made⟩

theorem parseResponse_of_oversized {expectBody : Bool} {bytes : Bytes}
    (held : bytes.length < usizeLimit narrow)
    (excess : OversizedResponse narrow wide expectBody bytes) :
    ∃ split n, findWord headTerminator bytes = some split ∧
      promisedLength wide (parseHead (bytes.take split)).headers = some n ∧
      parseResponse wide bytes expectBody =
        .error (.shortBody n (bytes.drop (split + 4)).length) ∧
      parseResponse narrow bytes expectBody =
        .ok { parseHead (bytes.take split) with body := bytes.drop (split + 4) } := by
  obtain ⟨split, ended, excess⟩ := excess
  have rest : (bytes.drop (split + 4)).length < usizeLimit narrow :=
    (List.drop_sublist _ _).length_le.trans_lt held
  obtain ⟨n, promised, short, whole⟩ := readBody_of_oversized rest excess
  refine ⟨split, n, ended, promised, ?_, ?_⟩
  · rw [parseResponse, ended]
    dsimp only
    rw [short]
    rfl
  · rw [parseResponse, ended]
    dsimp only
    rw [whole]
    rfl

/-! ## Streams -/

theorem length_le_of_decode {gzip : Codec} {raw bytes : Bytes}
    (read : raw.length ≤ maxResponseBytes) (decoded : decode gzip raw = .ok bytes) :
    bytes.length ≤ maxResponseBytes := by
  rw [decode, decodeWithin] at decoded
  split at decoded
  · exact Except.ok.inj decoded ▸ read
  · split at decoded
    · cases decoded
    · split at decoded
      · cases decoded
      · rename_i fits
        exact Except.ok.inj decoded ▸ Nat.le_of_not_lt fits

theorem maxResponseBytes_lt : maxResponseBytes < usizeLimit 32 := by
  decide

/-- A stream that is read to its end and decodes is parsed. -/
theorem requestResult_of_decode {gzip : Codec} {stream bytes : Bytes}
    (short : stream.length ≤ maxResponseBytes) (decoded : decode gzip stream = .ok bytes)
    (bits : Nat) (method : Text) :
    requestResult gzip bits method stream =
      some ((parseResponse bits bytes (method ≠ "HEAD".toList)).mapError .malformed) := by
  rw [requestResult, readToEnd, if_pos short, Option.map_some, receive, decoded]
  dsimp only
  cases parseResponse bits bytes (method ≠ "HEAD".toList) <;> rfl

/-- A response of three bytes that declares 2^32. -/
def oversizedStream : Bytes :=
  utf8 "HTTP/1.1 200 OK\r\nContent-Length: 4294967296\r\n\r\nabc".toList

end Quackhole.Http
