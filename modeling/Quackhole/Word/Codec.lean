import Quackhole.Word.Utf8

/-!
# Streaming codecs

An encoder that is fed pieces, may keep any of them back, and releases the last
bytes when it is finished, together with a decoder that reads a stream to its
end or fails on the way.  The laws say that decoding undoes encoding however the
input was cut into pieces, and that a stream which was cut short does not decode.
-/

namespace Quackhole.Word

/-- A streaming encoder with its decoder.  The decoder gives the bytes it has
recovered when it stops, and whether it stopped at the end of the stream. -/
structure Codec where
  State : Type
  start : State
  write : State → Bytes → State × Bytes
  finish : State → Bytes
  read : Bytes → Bytes × Bool

namespace Codec

variable (codec : Codec)

/-- The encoder after the pieces, and what it has released by then. -/
def feed : List Bytes → codec.State × Bytes
  | [] => (codec.start, [])
  | piece :: earlier =>
      let before := feed earlier
      let written := codec.write before.1 piece
      (written.1, before.2 ++ written.2)

/-- The encoder after the pieces, in the order they were written. -/
def after (pieces : List Bytes) : codec.State :=
  (codec.feed pieces.reverse).1

/-- What the encoder has released after the pieces. -/
def released (pieces : List Bytes) : Bytes :=
  (codec.feed pieces.reverse).2

/-- The whole stream the pieces are encoded to. -/
def stream (pieces : List Bytes) : Bytes :=
  codec.released pieces ++ codec.finish (codec.after pieces)

/-- What is relied on. -/
structure Lawful : Prop where
  /-- Decoding undoes encoding, whatever the pieces were. -/
  read_stream : ∀ pieces, codec.read (codec.stream pieces) = (pieces.flatten, true)
  /-- A stream that was cut short fails. -/
  read_cut : ∀ pieces cut, cut <+: codec.stream pieces → cut ≠ codec.stream pieces →
    (codec.read cut).2 = false
  /-- Even nothing is encoded to something. -/
  stream_ne_nil : ∀ pieces, codec.stream pieces ≠ []

@[simp]
theorem after_nil : codec.after [] = codec.start :=
  rfl

@[simp]
theorem released_nil : codec.released [] = [] :=
  rfl

@[simp]
theorem after_concat (pieces : List Bytes) (piece : Bytes) :
    codec.after (pieces ++ [piece]) = (codec.write (codec.after pieces) piece).1 := by
  simp [after, feed]

@[simp]
theorem released_concat (pieces : List Bytes) (piece : Bytes) :
    codec.released (pieces ++ [piece]) =
      codec.released pieces ++ (codec.write (codec.after pieces) piece).2 := by
  simp [released, after, feed]

variable {codec}

/-- No whole stream begins another one. -/
theorem Lawful.stream_eq_of_prefix_stream (lawful : codec.Lawful) {first second : List Bytes}
    (isPrefix : codec.stream first <+: codec.stream second) :
    codec.stream first = codec.stream second := by
  by_contra different
  have cut := lawful.read_cut second (codec.stream first) isPrefix different
  rw [lawful.read_stream] at cut
  exact Bool.noConfusion cut

theorem released_prefix_stream (pieces : List Bytes) :
    codec.released pieces <+: codec.stream pieces :=
  List.prefix_append _ _

/-- A whole stream is never released before the encoder is finished: it would
begin the streams of two different inputs. -/
theorem Lawful.not_stream_prefix_released (lawful : codec.Lawful) (whole pieces : List Bytes) :
    ¬ codec.stream whole <+: codec.released pieces := by
  intro isPrefix
  have longer : codec.stream whole <+: codec.released (pieces ++ [[0]]) := by
    rw [released_concat]
    exact isPrefix.trans (List.prefix_append _ _)
  have now := lawful.stream_eq_of_prefix_stream (isPrefix.trans (released_prefix_stream pieces))
  have later := lawful.stream_eq_of_prefix_stream (longer.trans (released_prefix_stream _))
  have same : (pieces.flatten, true) = ((pieces ++ [[0]]).flatten, true) := by
    rw [← lawful.read_stream, ← lawful.read_stream, ← now, later]
  simp at same

end Codec

/-! ## A codec from a prefix code -/

/-- The codec that keeps everything back and encodes it at the end. -/
def Codec.buffered (encode : Bytes → Bytes) (read : Bytes → Bytes × Bool) : Codec where
  State := Bytes
  start := []
  write := fun kept piece => (kept ++ piece, [])
  finish := encode
  read := read

namespace Codec

variable {encode : Bytes → Bytes} {read : Bytes → Bytes × Bool}

theorem feed_buffered (pieces : List Bytes) :
    (buffered encode read).feed pieces.reverse = (pieces.flatten, []) := by
  induction pieces using List.reverseRecOn with
  | nil => rfl
  | append_singleton pieces piece ih =>
      rw [List.reverse_concat, feed, ih]
      simp [buffered]

@[simp]
theorem stream_buffered (pieces : List Bytes) :
    (buffered encode read).stream pieces = encode pieces.flatten := by
  rw [stream, released, after, feed_buffered]
  rfl

/-- A prefix code with nonempty words makes a lawful codec. -/
theorem lawful_buffered (inverse : ∀ data, read (encode data) = (data, true))
    (cut : ∀ data short, short <+: encode data → short ≠ encode data → (read short).2 = false)
    (nonempty : ∀ data, encode data ≠ []) : (buffered encode read).Lawful where
  read_stream pieces := by
    rw [stream_buffered]
    exact inverse pieces.flatten
  read_cut pieces short isPrefix proper := by
    rw [stream_buffered] at isPrefix proper
    exact cut pieces.flatten short isPrefix proper
  stream_ne_nil pieces := by
    rw [stream_buffered]
    exact nonempty pieces.flatten

end Codec

end Quackhole.Word
