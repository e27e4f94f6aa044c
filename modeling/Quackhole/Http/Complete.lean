import Quackhole.Http.Framing

/-!
# Complete requests

A server acts on a request once its header block has ended and as many body
bytes have arrived as its Content-Length declares.  No proper prefix of what the
serialiser writes is a complete request, so a server that was handed less than
all of it has nothing to act on.
-/

namespace Quackhole.Http

open Quackhole.Word
open Quackhole.Compress

/-- The length of the body the head declares, none meaning no body. -/
def declaredLength (head : Bytes) : Nat :=
  ((fieldValues FramingField.contentLength.name (readLines head).tail).head?.bind fun value =>
    digitsValue 10 0 (trim value)).getD 0

/-- The header block has ended and the declared body is there. -/
def isComplete (bytes : Bytes) : Bool :=
  match headEnd bytes with
  | none => false
  | some n => decide (declaredLength (bytes.take n) ≤ (bytes.drop n).length)

/-- An HTTP token: no blanks, no control characters and no colon. -/
def IsToken (text : Text) : Prop :=
  ∀ c ∈ text, isWhitespace c = false ∧ ¬ (c.toNat < 32 ∨ c.toNat = 127) ∧ c ≠ ':'

instance (text : Text) : Decidable (IsToken text) :=
  List.decidableBAll
    (fun c : Char => isWhitespace c = false ∧ ¬ (c.toNat < 32 ∨ c.toNat = 127) ∧ c ≠ ':') text

/-- The method and the header names are tokens, as the callers' are. -/
structure UsesTokens (req : Request) : Prop where
  method : IsToken req.method
  names : ∀ header ∈ req.headers, IsToken header.1

/-- A token is read as it was written. -/
theorem IsToken.trim_beforeFirst {text : Text} (token : IsToken text) :
    trim (beforeFirst ':' text) = text := by
  rw [beforeFirst_eq_self fun member => (token ':' member).2.2 rfl]
  exact trim_eq_self fun c member => by simp [(token c member).1]

theorem IsToken.not_infix_crlf {text : Text} (token : IsToken text) : ¬ crlf <:+: text := by
  intro isInfix
  have member : '\r' ∈ text := isInfix.subset (by simp [crlf])
  exact (token '\r' member).2.1 (by decide)

/-- Requests made of tokens smuggle nothing. -/
theorem UsesTokens.noSmuggling {req : Request} (tokens : UsesTokens req) : NoSmuggling req := by
  refine ⟨tokens.method.not_infix_crlf, fun header member framing => ?_⟩
  rwa [(tokens.names header member).trim_beforeFirst] at framing

/-- The head declares the length of the body. -/
theorem declaredLength_headText {req : Request} (accepted : Accepted req)
    (clean : NoSmuggling req) :
    declaredLength (utf8 (headText req)) = (req.body.getD []).length := by
  have solid : ∀ n, trim (' ' :: decimal n) = decimal n := by
    intro n
    rw [trim, List.dropWhile_cons_of_pos (by decide)]
    exact trim_eq_self (solid_decimal n)
  have values := (fieldValues_headLines_iff req .contentLength).mpr
    ((keptHeaders_silent_iff req).mpr clean.2 .contentLength)
  rw [declaredLength, readLines_headText accepted clean.1, values]
  cases body : req.body with
  | none => simp [FramingField.values, body]
  | some bytes => simp [FramingField.values, body, solid, digitsValue_decimal]

/-- Of the prefixes of a serialised request only the whole is complete. -/
theorem isComplete_prefix_iff {req : Request} {out short : Bytes}
    (built : buildRequest req = .ok out) (clean : NoSmuggling req) (isPrefix : short <+: out) :
    isComplete short = true ↔ short = out := by
  obtain ⟨accepted, rfl⟩ := buildRequest_eq_ok_iff.mp built
  have ended := headEnd_headText accepted clean.1 (req.body.getD [])
  by_cases reaches : (utf8 (headText req)).length ≤ short.length
  · have shortEnded := headEnd_prefix_of_le isPrefix reaches ended
    obtain ⟨body, rfl⟩ : utf8 (headText req) <+: short :=
      List.prefix_of_prefix_length_le (List.prefix_append _ _) isPrefix reaches
    rw [isComplete, shortEnded]
    simp only [List.take_left, List.drop_left, declaredLength_headText accepted clean,
      decide_eq_true_eq, List.append_cancel_left_eq]
    rw [List.prefix_append_right_inj] at isPrefix
    exact ⟨fun whole => isPrefix.eq_of_length_le whole, fun equal => by rw [equal]⟩
  · rw [isComplete, headEnd_prefix_of_lt isPrefix (Nat.lt_of_not_le reaches) ended]
    constructor
    · intro impossible
      cases impossible
    · rintro rfl
      exact absurd (by simp) reaches

end Quackhole.Http
