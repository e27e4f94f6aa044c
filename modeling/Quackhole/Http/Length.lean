import Quackhole.Http.Response

/-!
# A declared length

A `Content-Length` that does not fit `usize` does not parse, and a response whose length
does not parse is framed by the end of the stream.
-/

namespace Quackhole.Http

open Quackhole.Word
open Quackhole.Compress

/-- The first `Content-Length` of the head is a run of decimal digits that denote this
number, and there is no `Transfer-Encoding`. -/
structure Declares (bytes : Bytes) (split n : Nat) : Prop where
  ended : findWord headTerminator bytes = some split
  digits : ∃ digits, headerValue (parseHead (bytes.take split)).headers
    "content-length".toList = some digits ∧ digits ≠ [] ∧ digitsValue 10 0 digits = some n
  uncoded : headerValue (parseHead (bytes.take split)).headers "transfer-encoding".toList = none

/-- The parse succeeds exactly when that many bytes follow the head, and the body is
the first of them. -/
def Honours (bits : Nat) (bytes : Bytes) (split n : Nat) : Prop :=
  ((∃ response, parseResponse bits bytes true = .ok response) ↔
      n ≤ (bytes.drop (split + 4)).length) ∧
    ∀ response, parseResponse bits bytes true = .ok response →
      response.body = (bytes.drop (split + 4)).take n

/-- The length that is promised is the one that was declared, if it fits. -/
theorem Declares.promisedLength {bytes : Bytes} {split n : Nat} (declares : Declares bytes split n)
    (bits : Nat) :
    promisedLength bits (parseHead (bytes.take split)).headers =
      if n < usizeLimit bits then some n else none := by
  rcases declares.digits with ⟨digits, first, nonempty, read⟩
  rw [Http.promisedLength, first, Option.bind_some, parseUnsigned_of_digits nonempty read]

/-- The parse is the reading of a body of the declared length, or of all that follows. -/
theorem Declares.parseResponse_eq_ok_iff {bits : Nat} {bytes : Bytes} {split n : Nat}
    (declares : Declares bytes split n) {response : Response} :
    parseResponse bits bytes true = .ok response ↔
      (n < usizeLimit bits → n ≤ (bytes.drop (split + 4)).length) ∧
        response = { parseHead (bytes.take split) with
          body := if n < usizeLimit bits then (bytes.drop (split + 4)).take n
            else bytes.drop (split + 4) } := by
  have plain : isChunked (parseHead (bytes.take split)).headers = false := by
    rw [isChunked, declares.uncoded]
    rfl
  have body : readBody bits true (parseHead (bytes.take split)).headers
      (bytes.drop (split + 4)) =
        if n < usizeLimit bits then
          if n > (bytes.drop (split + 4)).length then
            .error (.shortBody n (bytes.drop (split + 4)).length)
          else .ok ((bytes.drop (split + 4)).take n)
        else .ok (bytes.drop (split + 4)) := by
    simp only [readBody, plain, declares.promisedLength bits]
    by_cases fits : n < usizeLimit bits <;> simp [fits]
  rw [Http.parseResponse_eq_ok_iff]
  constructor
  · rintro ⟨found, read, ended, readAs, rfl⟩
    obtain rfl : split = found := Option.some.inj (declares.ended.symm.trans ended)
    rw [body] at readAs
    by_cases fits : n < usizeLimit bits
    · by_cases enough : n ≤ (bytes.drop (split + 4)).length
      · rw [if_pos fits, if_neg (Nat.not_lt.mpr enough)] at readAs
        cases readAs
        exact ⟨fun _ => enough, by rw [if_pos fits]⟩
      · rw [if_pos fits, if_pos (Nat.lt_of_not_le enough)] at readAs
        cases readAs
    · rw [if_neg fits] at readAs
      cases readAs
      exact ⟨fun small => absurd small fits, by rw [if_neg fits]⟩
  · rintro ⟨enough, rfl⟩
    refine ⟨split, _, declares.ended, ?_, rfl⟩
    rw [body]
    by_cases fits : n < usizeLimit bits
    · rw [if_pos fits, if_neg (Nat.not_lt.mpr (enough fits)), if_pos fits]
    · rw [if_neg fits, if_neg fits]

/-- A declared length is honoured exactly when it fits `usize`, or is the length of all
that follows the head. -/
theorem honours_iff {bits : Nat} {bytes : Bytes} {split n : Nat}
    (declares : Declares bytes split n) :
    Honours bits bytes split n ↔
      n < usizeLimit bits ∨ n = (bytes.drop (split + 4)).length := by
  have parsed : ∀ response, parseResponse bits bytes true = .ok response ↔ _ :=
    fun response => declares.parseResponse_eq_ok_iff
  by_cases fits : n < usizeLimit bits
  · apply iff_of_true _ (Or.inl fits)
    constructor
    · constructor
      · rintro ⟨response, read⟩
        exact ((parsed response).mp read).1 fits
      · intro enough
        exact ⟨_, (parsed _).mpr ⟨fun _ => enough, rfl⟩⟩
    · intro response read
      rw [((parsed response).mp read).2, if_pos fits]
  · rw [or_iff_right fits]
    have whole := (parsed _).mpr ⟨fun small => absurd small fits, rfl⟩
    constructor
    · rintro ⟨exact, taken⟩
      have enough := exact.mp ⟨_, whole⟩
      have same := taken _ whole
      rw [if_neg fits] at same
      have size := congrArg List.length same
      rw [List.length_take, Nat.min_eq_left enough] at size
      exact size.symm
    · intro same
      constructor
      · exact iff_of_true ⟨_, whole⟩ (Nat.le_of_eq same)
      · intro response read
        rw [((parsed response).mp read).2, if_neg fits, same, List.take_length]

/-- A response of three bytes that declares this length. -/
def declaring (digits : String) : Bytes :=
  utf8 ("HTTP/1.1 200 OK\r\nContent-Length: ".toList ++ digits.toList ++ "\r\n\r\nabc".toList)

/-- A response of three bytes that declares as many is read whole on either machine. -/
theorem honours_three : Honours 32 (declaring "3") 34 3 ∧ Honours 64 (declaring "3") 34 3 := by
  have declares : Declares (declaring "3") 34 3 := by
    constructor
    · decide +kernel
    · exact ⟨['3'], by decide +kernel, by decide, rfl⟩
    · decide +kernel
  constructor
  · exact (honours_iff declares).mpr (Or.inl (by decide))
  · exact (honours_iff declares).mpr (Or.inl (by decide))

/-- One that declares the least length that does not fit is read as three bytes. -/
theorem not_honoured_unsized :
    Declares (declaring "4294967296") 43 4294967296 ∧
      ¬ Honours 32 (declaring "4294967296") 43 4294967296 ∧
      Declares (declaring "18446744073709551616") 53 18446744073709551616 ∧
      ¬ Honours 64 (declaring "18446744073709551616") 53 18446744073709551616 := by
  have short : ∀ {bits split n : Nat} {bytes : Bytes} {response : Response},
      parseResponse bits bytes true = .ok response → (bytes.drop (split + 4)).length < n →
      ¬ Honours bits bytes split n := by
    intro bits split n bytes response read less honours
    exact absurd (honours.1.mp ⟨response, read⟩) (Nat.not_le.mpr less)
  have read : ∀ {bits : Nat} {digits : String} {body : Bytes},
      (parseResponse bits (declaring digits) true).toOption.map Response.body = some body →
      ∃ response, parseResponse bits (declaring digits) true = .ok response := by
    intro bits digits body parsed
    cases result : parseResponse bits (declaring digits) true with
    | error reason =>
        rw [result] at parsed
        cases parsed
    | ok response => exact ⟨response, rfl⟩
  refine ⟨⟨by decide +kernel, ⟨"4294967296".toList, by decide +kernel, by decide, rfl⟩,
    by decide +kernel⟩, ?_, ⟨by decide +kernel, ⟨"18446744073709551616".toList,
    by decide +kernel, by decide, rfl⟩, by decide +kernel⟩, ?_⟩
  · have parsed : (parseResponse 32 (declaring "4294967296") true).toOption.map Response.body =
        some (utf8 "abc".toList) := by
      decide +kernel
    rcases read parsed with ⟨response, parsed⟩
    exact short parsed (by decide +kernel)
  · have parsed : (parseResponse 64 (declaring "18446744073709551616") true).toOption.map
        Response.body = some (utf8 "abc".toList) := by
      decide +kernel
    rcases read parsed with ⟨response, parsed⟩
    exact short parsed (by decide +kernel)

end Quackhole.Http
