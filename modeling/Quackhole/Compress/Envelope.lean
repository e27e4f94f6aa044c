import Quackhole.Compress.Negotiation
import Quackhole.Word.Codec
import Mathlib.Algebra.Group.Nat.Defs

/-!
# The envelope around a response

The bridge pushes the response through a gzip encoder a piece at a time and
drains what comes out, with the magic in front of the first byte; the client
undoes it.  The gzip codec itself is a parameter.
-/

namespace Quackhole.Compress

open Quackhole.Word

variable (gzip : Codec)

/-! ## Encoding -/

/-- `Encoder`: a gzip encoder that hands back whatever it has finished with. -/
structure Encoder where
  inner : gzip.State
  /-- What the encoder has released and nobody has drained. -/
  sink : Bytes
  /-- False until the magic has been handed out. -/
  started : Bool

variable {gzip}

/-- `emit`: move what is ready into `out`, magic first, and only once. -/
def emit (started : Bool) (ready out : Bytes) : Bool × Bytes × Bytes :=
  if ready = [] then (started, ready, out)
  else (true, [], (if started then out else out ++ magic) ++ ready)

namespace Encoder

/-- `Encoder::new`. -/
def new : Encoder gzip where
  inner := gzip.start
  sink := []
  started := false

/-- `Encoder::push`: compress a chunk, appending whatever is ready. -/
def push (encoder : Encoder gzip) (chunk out : Bytes) : Encoder gzip × Bytes :=
  let written := gzip.write encoder.inner chunk
  let emitted := emit encoder.started (encoder.sink ++ written.2) out
  ({ inner := written.1, sink := emitted.2.1, started := emitted.1 }, emitted.2.2)

/-- `Encoder::finish`: flush the trailer and append the last bytes. -/
def finish (encoder : Encoder gzip) (out : Bytes) : Bytes :=
  (emit encoder.started (encoder.sink ++ gzip.finish encoder.inner) out).2.2

end Encoder

/-- `pump_compressed`: what is written on the stream, the output buffer being
cleared before each chunk and before the trailer. -/
def pumpCompressed (encoder : Encoder gzip) : List Bytes → Bytes
  | [] => encoder.finish []
  | chunk :: chunks =>
      (encoder.push chunk []).2 ++ pumpCompressed (encoder.push chunk []).1 chunks

/-- The bytes the bridge sends for a response that arrived in these chunks. -/
def envelope (gzip : Codec) (chunks : List Bytes) : Bytes :=
  pumpCompressed (Encoder.new : Encoder gzip) chunks

/-- Bytes with the magic in front, once there are any. -/
def announced (bytes : Bytes) : Bytes :=
  if bytes = [] then [] else magic ++ bytes

@[simp]
theorem announced_nil : announced [] = [] :=
  rfl

theorem announced_of_ne_nil {bytes : Bytes} (nonempty : bytes ≠ []) :
    announced bytes = magic ++ bytes :=
  if_neg nonempty

/-- Emitting drains what is ready, and the output has started once anything has
been ready. -/
theorem emit_state (before ready out : Bytes) :
    (emit (decide (before ≠ [])) ready out).1 = decide (before ++ ready ≠ []) ∧
      (emit (decide (before ≠ [])) ready out).2.1 = [] := by
  by_cases quiet : ready = []
  · simp [emit, quiet]
  · simp [emit, quiet]

/-- Emitting what is ready continues the announced stream. -/
theorem announced_emit (before ready : Bytes) :
    announced before ++ (emit (decide (before ≠ [])) ready []).2.2 =
      announced (before ++ ready) := by
  by_cases quiet : ready = []
  · simp [emit, quiet]
  · by_cases fresh : before = []
    · simp [emit, quiet, fresh, announced]
    · simp [emit, quiet, fresh, announced]

namespace Encoder

/-- The encoder once it has been fed the chunks and drained. -/
def fed (gzip : Codec) (chunks : List Bytes) : Encoder gzip where
  inner := gzip.after chunks
  sink := []
  started := decide (gzip.released chunks ≠ [])

theorem new_eq_fed : new = fed gzip [] :=
  rfl

/-- A push feeds the encoder one more chunk. -/
theorem push_fed (chunks : List Bytes) (chunk out : Bytes) :
    ((fed gzip chunks).push chunk out).1 = fed gzip (chunks ++ [chunk]) := by
  obtain ⟨started, drained⟩ :=
    emit_state (gzip.released chunks) (gzip.write (gzip.after chunks) chunk).2 out
  simp only [push, fed, List.nil_append, Codec.after_concat, Codec.released_concat, started,
    drained]

/-- The output of a push continues the announced stream. -/
theorem announced_push_fed (chunks : List Bytes) (chunk : Bytes) :
    announced (gzip.released chunks) ++ ((fed gzip chunks).push chunk []).2 =
      announced (gzip.released (chunks ++ [chunk])) := by
  rw [Codec.released_concat]
  exact announced_emit _ _

/-- The output of finishing completes the announced stream. -/
theorem announced_finish_fed (chunks : List Bytes) :
    announced (gzip.released chunks) ++ (fed gzip chunks).finish [] =
      announced (gzip.stream chunks) :=
  announced_emit _ _

end Encoder

/-- Pumping the remaining chunks completes the announced stream. -/
theorem announced_pumpCompressed (earlier chunks : List Bytes) :
    announced (gzip.released earlier) ++ pumpCompressed (Encoder.fed gzip earlier) chunks =
      announced (gzip.stream (earlier ++ chunks)) := by
  induction chunks generalizing earlier with
  | nil =>
      rw [pumpCompressed, Encoder.announced_finish_fed, List.append_nil]
  | cons chunk chunks ih =>
      rw [pumpCompressed, ← List.append_assoc, Encoder.announced_push_fed, Encoder.push_fed, ih]
      simp

/-- The bridge sends the magic once, and then the gzip stream. -/
theorem envelope_eq (lawful : gzip.Lawful) (chunks : List Bytes) :
    envelope gzip chunks = magic ++ gzip.stream chunks := by
  have pumped : pumpCompressed (Encoder.fed gzip []) chunks = announced (gzip.stream chunks) :=
    announced_pumpCompressed [] chunks
  rw [envelope, Encoder.new_eq_fed, pumped, announced_of_ne_nil (lawful.stream_ne_nil chunks)]

/-! ## Decoding -/

/-- The ways in which an envelope cannot be undone. -/
inductive DecodeError where
  | corrupt
  | expandsPast (max : Nat)
  deriving DecidableEq, Repr

/-- The text of the error. -/
def DecodeError.message : DecodeError → Text
  | corrupt => "failed to decompress the peer's response".toList
  | expandsPast max =>
      "the peer's response expands past ".toList ++ decimal max ++ " bytes".toList

/-- `MAX_RESPONSE_BYTES`: the cap on a response, both as it arrives and as it
decodes. -/
def maxResponseBytes : Nat :=
  512 * 1024 * 1024

/-- `take(limit).read_to_end`: the decoder is not asked for more than the limit,
so what it would have said after that is never heard. -/
def readWithin (limit : Nat) (decoded : Bytes × Bool) : Option Bytes :=
  if limit ≤ decoded.1.length then some (decoded.1.take limit)
  else if decoded.2 then some decoded.1 else none

/-- `max as u64 + 1`, which wraps around. -/
def readLimit (max : Nat) : Nat :=
  (max + 1) % 2 ^ 64

/-- `decode_within`: undo the envelope, if there is one. -/
def decodeWithin (gzip : Codec) (raw : Bytes) (max : Nat) : Except DecodeError Bytes :=
  if ¬ magic <+: raw then .ok raw
  else
    match readWithin (readLimit max) (gzip.read (raw.drop magic.length)) with
    | none => .error .corrupt
    | some out => if out.length > max then .error (.expandsPast max) else .ok out

/-- `decode`: the same with the cap on responses. -/
def decode (gzip : Codec) (raw : Bytes) : Except DecodeError Bytes :=
  decodeWithin gzip raw maxResponseBytes

/-- A response with no magic is returned untouched. -/
theorem decodeWithin_of_plain {raw : Bytes} (plain : ¬ magic <+: raw) (max : Nat) :
    decodeWithin gzip raw max = .ok raw :=
  if_pos plain

/-- An envelope decodes exactly when its stream reads to the end within the
cap. -/
theorem decodeWithin_magic_eq_ok_iff {coded data : Bytes} {max : Nat} (fits : max + 1 < 2 ^ 64) :
    decodeWithin gzip (magic ++ coded) max = .ok data ↔
      gzip.read coded = (data, true) ∧ data.length ≤ max := by
  have isEnvelope : magic <+: magic ++ coded := List.prefix_append _ _
  have limit : readLimit max = max + 1 := Nat.mod_eq_of_lt fits
  rw [decodeWithin, if_neg (not_not.mpr isEnvelope), List.drop_left, limit]
  obtain ⟨out, ended⟩ := gzip.read coded
  by_cases long : max + 1 ≤ out.length
  · have taken : (out.take (max + 1)).length > max := by
      rw [List.length_take]
      omega
    simp only [readWithin, if_pos long, if_pos taken, reduceCtorEq, false_iff, Prod.mk.injEq]
    rintro ⟨⟨rfl, _⟩, bound⟩
    omega
  · have short : ¬ out.length > max := by omega
    cases ended with
    | false => simp [readWithin, long]
    | true =>
        simp only [readWithin, if_neg long, if_true, if_neg short, Except.ok.injEq,
          Prod.mk.injEq, and_true]
        constructor
        · rintro rfl
          exact ⟨rfl, Nat.le_of_not_lt short⟩
        · exact fun both => both.1

/-- What the bridge sends for a response of a length within the cap decodes to
it. -/
theorem decode_envelope (lawful : gzip.Lawful) {chunks : List Bytes}
    (bounded : chunks.flatten.length ≤ maxResponseBytes) :
    decode gzip (envelope gzip chunks) = .ok chunks.flatten := by
  rw [decode, envelope_eq lawful]
  exact (decodeWithin_magic_eq_ok_iff (by decide)).mpr ⟨lawful.read_stream chunks, bounded⟩

/-- An envelope that was cut short after its magic does not decode. -/
theorem decode_cut_envelope (lawful : gzip.Lawful) {chunks : List Bytes} {coded data : Bytes}
    (isPrefix : coded <+: gzip.stream chunks) (proper : coded ≠ gzip.stream chunks) :
    decode gzip (magic ++ coded) ≠ .ok data := by
  intro decoded
  have ended := ((decodeWithin_magic_eq_ok_iff (by decide)).mp decoded).1
  have failed := lawful.read_cut chunks coded isPrefix proper
  rw [ended] at failed
  exact Bool.noConfusion failed

/-! ## A codec to evaluate with -/

/-- The header a gzip stream begins with. -/
def gzipHeader : Bytes :=
  [0x1F, 0x8B, 8, 0, 0, 0, 0, 0, 4, 255]

/-- A deflate stream of nothing, with its checksum and length. -/
def gzipNothing : Bytes :=
  [3, 0, 0, 0, 0, 0, 0, 0, 0, 0]

/-- Each byte in a cell of its own, and the stream of nothing after them. -/
def sampleCells (data : Bytes) : Bytes :=
  data.flatMap (fun byte => [1, byte]) ++ gzipNothing

/-- Read the cells.  Bytes after the end are not looked at. -/
def readSampleCells : Bytes → Bytes × Bool
  | 1 :: byte :: rest => (byte :: (readSampleCells rest).1, (readSampleCells rest).2)
  | rest => ([], decide (gzipNothing <+: rest))

def readSample (coded : Bytes) : Bytes × Bool :=
  if gzipHeader <+: coded then readSampleCells (coded.drop gzipHeader.length) else ([], false)

/-- A codec with the laws of gzip that encodes nothing to the bytes gzip does. -/
def sampleGzip : Codec :=
  Codec.buffered (fun data => gzipHeader ++ sampleCells data) readSample

theorem sampleCells_cons (byte : UInt8) (data : Bytes) :
    sampleCells (byte :: data) = 1 :: byte :: sampleCells data :=
  rfl

theorem readSampleCells_sampleCells (data : Bytes) :
    readSampleCells (sampleCells data) = (data, true) := by
  induction data with
  | nil => decide
  | cons byte data ih => rw [sampleCells_cons, readSampleCells, ih]

theorem readSampleCells_cut (data : Bytes) {short : Bytes} (isPrefix : short <+: sampleCells data)
    (proper : short ≠ sampleCells data) : (readSampleCells short).2 = false := by
  induction data generalizing short with
  | nil =>
      have cuts : ∀ n < 10, (readSampleCells (gzipNothing.take n)).2 = false := by decide
      have shorter : short.length < 10 :=
        Nat.lt_of_le_of_ne isPrefix.length_le fun equal => proper (isPrefix.eq_of_length equal)
      rw [List.prefix_iff_eq_take.mp isPrefix]
      exact cuts _ shorter
  | cons byte data ih =>
      rw [sampleCells_cons] at isPrefix proper
      match short with
      | [] => decide
      | [first] =>
          obtain ⟨rfl, _⟩ := List.cons_prefix_cons.mp isPrefix
          decide
      | first :: second :: rest =>
          obtain ⟨rfl, tailPrefix⟩ := List.cons_prefix_cons.mp isPrefix
          obtain ⟨rfl, restPrefix⟩ := List.cons_prefix_cons.mp tailPrefix
          rw [readSampleCells]
          exact ih restPrefix fun equal => proper (by rw [equal])

theorem lawful_sampleGzip : sampleGzip.Lawful := by
  refine Codec.lawful_buffered (fun data => ?_) (fun data short isPrefix proper => ?_)
    (fun data => by simp [gzipHeader])
  · rw [readSample, if_pos (List.prefix_append _ _), List.drop_left, readSampleCells_sampleCells]
  · unfold readSample
    split
    · rename_i headed
      obtain ⟨coded, rfl⟩ := headed
      rw [List.prefix_append_right_inj] at isPrefix
      rw [List.drop_left]
      exact readSampleCells_cut data isPrefix fun equal => proper (by rw [equal])
    · rfl

end Quackhole.Compress
