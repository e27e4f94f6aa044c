import Quackhole.Compress.Envelope

/-!
# The cap on what an envelope expands to

The decoder is read up to one byte past the cap, so that at exactly the cap it is still
asked for more and checks its trailer.  One past the cap is computed in 64 bits, and the
largest cap of a 64-bit machine wraps around to nothing at all.
-/

namespace Quackhole.Compress

open Quackhole.Word

variable {gzip : Codec}

namespace Encoder

/-- Push the chunks one after the other, appending to one buffer, and finish. -/
def run (encoder : Encoder gzip) : List Bytes → Bytes → Bytes
  | [], out => encoder.finish out
  | chunk :: chunks, out => (encoder.push chunk out).1.run chunks (encoder.push chunk out).2

/-- What is emitted does not depend on the buffer it is appended to. -/
theorem emit_out (started : Bool) (ready out : Bytes) :
    (emit started ready out).1 = (emit started ready []).1 ∧
      (emit started ready out).2.1 = (emit started ready []).2.1 ∧
      (emit started ready out).2.2 = out ++ (emit started ready []).2.2 := by
  by_cases quiet : ready = []
  · simp [emit, quiet]
  · cases started <;> simp [emit, quiet]

/-- The encoder after a push and the bytes it has put out. -/
theorem push_out (encoder : Encoder gzip) (chunk out : Bytes) :
    (encoder.push chunk out).1 = (encoder.push chunk []).1 ∧
      (encoder.push chunk out).2 = out ++ (encoder.push chunk []).2 := by
  rcases emit_out encoder.started (encoder.sink ++ (gzip.write encoder.inner chunk).2) out with
    ⟨started, sink, emitted⟩
  constructor
  · simp only [push, started, sink]
  · exact emitted

/-- One buffer holds in the end what is put out with a buffer that is cleared each
time. -/
theorem run_eq (encoder : Encoder gzip) (chunks : List Bytes) (out : Bytes) :
    encoder.run chunks out = out ++ pumpCompressed encoder chunks := by
  induction chunks generalizing encoder out with
  | nil => exact (emit_out _ _ out).2.2
  | cons chunk chunks ih =>
      rcases push_out encoder chunk out with ⟨same, pushed⟩
      rw [run, pumpCompressed, same, pushed, ih, List.append_assoc]

theorem run_new (chunks : List Bytes) :
    (new : Encoder gzip).run chunks [] = envelope gzip chunks :=
  run_eq new chunks []

end Encoder

/-- What the decoder has produced when `decode_within` decides. -/
def produced (gzip : Codec) (raw : Bytes) (max : Nat) : Bytes :=
  if magic <+: raw then (gzip.read (raw.drop magic.length)).1.take (readLimit max) else []

theorem eq_take_of_readWithin {limit : Nat} {decoded : Bytes × Bool} {out : Bytes}
    (read : readWithin limit decoded = some out) : out = decoded.1.take limit := by
  unfold readWithin at read
  split at read
  · exact (Option.some.inj read).symm
  · rename_i short
    split at read
    · rw [List.take_of_length_le (Nat.le_of_not_le short)]
      exact (Option.some.inj read).symm
    · cases read

/-- What is returned of an envelope is what was produced. -/
theorem eq_produced_of_decodeWithin {raw out : Bytes} {max : Nat} (isEnvelope : magic <+: raw)
    (decoded : decodeWithin gzip raw max = .ok out) : out = produced gzip raw max := by
  rw [decodeWithin, if_neg (not_not.mpr isEnvelope)] at decoded
  rw [produced, if_pos isEnvelope]
  split at decoded
  · cases decoded
  · rename_i data read
    split at decoded
    · cases decoded
    · obtain rfl := Except.ok.inj decoded
      exact eq_take_of_readWithin read

theorem length_produced_le (gzip : Codec) (raw : Bytes) (max : Nat) :
    (produced gzip raw max).length ≤ max + 1 := by
  unfold produced
  split
  · calc ((gzip.read (raw.drop magic.length)).1.take (readLimit max)).length
        ≤ readLimit max := List.length_take_le _ _
      _ ≤ max + 1 := Nat.mod_le _ _
  · exact Nat.zero_le _

/-- The cap is exact for what these chunks are encoded to: it decodes to them if they fit
and is an error if they do not, no more than one byte past the cap is produced, and what
is no envelope is returned as it is. -/
structure CapExact (gzip : Codec) (chunks : List Bytes) (max : Nat) : Prop where
  fits : chunks.flatten.length ≤ max →
    decodeWithin gzip ((Encoder.new : Encoder gzip).run chunks []) max = .ok chunks.flatten
  exceeds : max < chunks.flatten.length →
    ∃ error, decodeWithin gzip ((Encoder.new : Encoder gzip).run chunks []) max = .error error
  bounded : (produced gzip ((Encoder.new : Encoder gzip).run chunks []) max).length ≤ max + 1
  plain : ∀ raw, ¬ magic <+: raw → decodeWithin gzip raw max = .ok raw

/-- With the largest cap, nothing is read and everything decodes to nothing. -/
theorem decodeWithin_largest (gzip : Codec) (coded : Bytes) :
    decodeWithin gzip (magic ++ coded) (2 ^ 64 - 1) = .ok [] := by
  have isEnvelope : magic <+: magic ++ coded := List.prefix_append _ _
  have limit : readLimit (2 ^ 64 - 1) = 0 := by decide
  rw [decodeWithin, if_neg (not_not.mpr isEnvelope), limit, readWithin,
    if_pos (Nat.zero_le _), List.take_zero]
  rfl

theorem output_eq (lawful : gzip.Lawful) (chunks : List Bytes) :
    (Encoder.new : Encoder gzip).run chunks [] = magic ++ gzip.stream chunks :=
  (Encoder.run_new chunks).trans (envelope_eq lawful chunks)

/-- For every input, every way of cutting it into chunks and every cap that leaves room for
one more in 64 bits, the cap is exact. -/
theorem capExact_of_lt (lawful : gzip.Lawful) (chunks : List Bytes) {max : Nat}
    (small : max + 1 < 2 ^ 64) : CapExact gzip chunks max := by
  constructor
  · intro fits
    rw [output_eq lawful]
    exact (decodeWithin_magic_eq_ok_iff small).mpr ⟨lawful.read_stream chunks, fits⟩
  · intro exceeds
    cases decoded : decodeWithin gzip ((Encoder.new : Encoder gzip).run chunks []) max with
    | error reason => exact ⟨reason, rfl⟩
    | ok data =>
        rw [output_eq lawful] at decoded
        rcases (decodeWithin_magic_eq_ok_iff small).mp decoded with ⟨read, bound⟩
        rw [lawful.read_stream] at read
        cases read
        exact absurd bound (Nat.not_le.mpr exceeds)
  · exact length_produced_le _ _ _
  · exact fun raw plain => decodeWithin_of_plain plain max

/-- Three bytes, with empty chunks around them, at exactly the cap. -/
theorem capExact_three : CapExact sampleGzip [[], [1, 2], [], [3]] 3 :=
  capExact_of_lt lawful_sampleGzip _ (by decide)

/-- The largest cap is exact for nothing only. -/
theorem capExact_largest_iff (lawful : gzip.Lawful) (chunks : List Bytes) :
    CapExact gzip chunks (2 ^ 64 - 1) ↔ chunks.flatten = [] := by
  constructor
  · intro exact
    by_cases inside : chunks.flatten.length ≤ 2 ^ 64 - 1
    · have decoded := exact.fits inside
      rw [output_eq lawful, decodeWithin_largest] at decoded
      exact (Except.ok.inj decoded).symm
    · rcases exact.exceeds (Nat.lt_of_not_le inside) with ⟨reason, failed⟩
      rw [output_eq lawful, decodeWithin_largest] at failed
      cases failed
  · intro empty
    constructor
    · intro fits
      rw [output_eq lawful, decodeWithin_largest, empty]
    · intro exceeds
      rw [empty] at exceeds
      exact absurd exceeds (Nat.not_lt_zero _)
    · exact length_produced_le _ _ _
    · exact fun raw plain => decodeWithin_of_plain plain _

/-- With the largest cap, one byte decodes to nothing. -/
theorem not_capExact_largest :
    decodeWithin sampleGzip ((Encoder.new : Encoder sampleGzip).run [[1]] []) (2 ^ 64 - 1) =
        .ok [] ∧
      ¬ CapExact sampleGzip [[1]] (2 ^ 64 - 1) := by
  have decoded : decodeWithin sampleGzip ((Encoder.new : Encoder sampleGzip).run [[1]] [])
      (2 ^ 64 - 1) = .ok [] := by
    rw [Encoder.run_new, envelope_eq lawful_sampleGzip, decodeWithin_largest]
  refine ⟨decoded, fun exact => ?_⟩
  cases (capExact_largest_iff lawful_sampleGzip _).mp exact

end Quackhole.Compress
