import Quackhole.Serve.Ending

/-!
# What sniffing decides, however the request arrives

`sniff` looks for the end of the head after every read, and gives up once it has read
too much.  Whatever the reads were, what it has read is a beginning of the stream, and
the end of the head is found in a beginning exactly where it is in the stream; so the
decision is one of the head alone, unless the head is longer than the limit, where it
depends on how far the last read went.
-/

namespace Quackhole.Serve

open Quackhole.Word
open Quackhole.Compress
open Quackhole.Transition

variable {gzip : Codec}

/-- The first empty line of the stream ends at this offset. -/
structure HeadEnds (stream : Bytes) (n : Nat) : Prop where
  inside : n ≤ stream.length
  ends : headTerminator <:+ stream.take n
  first : ∀ m < n, ¬ headTerminator <:+ stream.take m

/-- Where the terminator occurs, a beginning of the stream ends with it. -/
theorem suffix_take_iff {stream : Bytes} {n : Nat} (inside : n ≤ stream.length) :
    headTerminator <:+ stream.take n ↔ 4 ≤ n ∧ OccursAt headTerminator stream (n - 4) := by
  constructor
  · rintro ⟨before, whole⟩
    have size : before.length + 4 = n := by
      have total := congrArg List.length whole
      rw [List.length_append, List.length_take, Nat.min_eq_left inside] at total
      exact total
    have start : n - 4 = before.length := by omega
    constructor
    · omega
    · rw [start, OccursAt, ← List.take_append_drop n stream, ← whole, List.append_assoc,
        List.drop_left]
      exact List.prefix_append _ _
  · rintro ⟨long, rest, whole⟩
    have begins : stream = (stream.take (n - 4) ++ headTerminator) ++ rest := by
      rw [List.append_assoc, whole, List.take_append_drop]
    have size : (stream.take (n - 4) ++ headTerminator).length = n := by
      rw [List.length_append, List.length_take, Nat.min_eq_left (by omega)]
      exact Nat.sub_add_cancel long
    have taken : stream.take n = stream.take (n - 4) ++ headTerminator := by
      calc stream.take n = ((stream.take (n - 4) ++ headTerminator) ++ rest).take n := by
            rw [← begins]
        _ = stream.take (n - 4) ++ headTerminator := List.take_left' size
    rw [taken]
    exact List.suffix_append _ _

/-- `head_end` finds the first empty line. -/
theorem headEnd_eq_some_iff_headEnds {stream : Bytes} {n : Nat} :
    headEnd stream = some n ↔ HeadEnds stream n := by
  constructor
  · intro ended
    rcases headEnd_eq_some_iff.mp ended with ⟨i, found, rfl⟩
    have inside : i + 4 ≤ stream.length := findWord_lt headTerminator_ne_nil found
    rcases (findWord_eq_some_iff headTerminator_ne_nil).mp found with ⟨occurs, first⟩
    constructor
    · exact inside
    · exact (suffix_take_iff inside).mpr ⟨Nat.le_add_left 4 i, occurs⟩
    · intro m below suffix
      rcases (suffix_take_iff (by omega)).mp suffix with ⟨long, earlier⟩
      exact first (m - 4) (by omega) earlier
  · rintro ⟨inside, ends, first⟩
    rcases (suffix_take_iff inside).mp ends with ⟨long, occurs⟩
    apply headEnd_eq_some_iff.mpr
    refine ⟨n - 4, (findWord_eq_some_iff headTerminator_ne_nil).mpr ⟨occurs, ?_⟩, by omega⟩
    intro j below earlier
    apply first (j + 4) (by omega)
    exact (suffix_take_iff (by omega)).mpr ⟨Nat.le_add_left 4 j, earlier⟩

/-- The decision is one of the head alone: what the head asks for if it ends within the
limit, that or nothing if it ends later, and nothing if it does not end. -/
structure Decides (stream : Bytes) (compress : Bool) : Prop where
  within : ∀ n, HeadEnds stream n → n ≤ maxHeadBytes →
    compress = wantsCompression (stream.take n)
  beyond : ∀ n, HeadEnds stream n → maxHeadBytes < n →
    compress = wantsCompression (stream.take n) ∨ compress = false
  endless : (∀ n, ¬ HeadEnds stream n) → compress = false

/-- Nothing is what a stream is decided to ask for in which no head ends within the
limit. -/
theorem decides_false {stream : Bytes}
    (late : ∀ n, headEnd stream = some n → maxHeadBytes < n) : Decides stream false := by
  constructor
  · intro n ended short
    exact absurd (late n (headEnd_eq_some_iff_headEnds.mpr ended)) (Nat.not_lt.mpr short)
  · exact fun _ _ _ => Or.inr rfl
  · exact fun _ => rfl

/-- What is decided from a beginning of the stream is decided of the stream. -/
theorem decides_of_sniffDecision {stream buf : Bytes} {compress : Bool}
    (isPrefix : buf <+: stream) (decided : sniffDecision buf = some compress) :
    Decides stream compress := by
  unfold sniffDecision at decided
  split at decided
  · rename_i n ended
    have whole : headEnd stream = some n := by
      rcases headEnd_eq_some_iff.mp ended with ⟨i, found, rfl⟩
      exact headEnd_eq_some_iff.mpr
        ⟨i, findWord_of_isPrefix headTerminator_ne_nil isPrefix found, rfl⟩
    have inside := (headEnd_eq_some_iff_headEnds.mp ended).inside
    have same : buf.take n = stream.take n := by
      rcases isPrefix with ⟨rest, rfl⟩
      exact (List.take_append_of_le_length inside).symm
    have only : ∀ m, HeadEnds stream m → compress = wantsCompression (stream.take m) := by
      intro m ends
      cases whole.symm.trans (headEnd_eq_some_iff_headEnds.mpr ends)
      rw [← Option.some.inj decided, same]
    constructor
    · exact fun m ends _ => only m ends
    · exact fun m ends _ => Or.inl (only m ends)
    · exact fun never => absurd (headEnd_eq_some_iff_headEnds.mp whole) (never n)
  · rename_i unended
    split at decided
    · cases decided
    · rename_i full
      obtain rfl := Option.some.inj decided
      apply decides_false
      intro n ended
      by_contra short
      have found := headEnd_prefix_of_le isPrefix (by omega) ended
      cases unended.symm.trans found

/-- What a bridge knows of the stream while it sniffs, and when it has. -/
def Bridge.Sniffed (stream : Bytes) (bridge : Bridge gzip) : Prop :=
  match bridge.phase with
  | .sniffing => bridge.upstream ++ bridge.request = stream ∧ sniffDecision bridge.upstream = none
  | .connecting => bridge.upstream ++ bridge.request = stream ∧
      Decides stream bridge.encoder.isSome
  | _ => True

/-- A read leaves the stream as it is. -/
theorem upstream_takeRequest (bridge : Bridge gzip) (count : Nat) :
    (bridge.takeRequest count).upstream ++ (bridge.takeRequest count).request =
      bridge.upstream ++ bridge.request := by
  simp [Bridge.takeRequest]

theorem isSome_encoder_sniffed (bridge : Bridge gzip) (compress : Bool) :
    (bridge.sniffed compress).encoder.isSome = compress := by
  cases compress <;> rfl

/-- Once it forwards, nothing more is known. -/
theorem sniffed_forward {stream : Bytes} (bridge : Bridge gzip) : bridge.forward.Sniffed stream := by
  by_cases drained : bridge.upstream = [] <;> simp [Bridge.Sniffed, Bridge.forward, drained]

/-- Every step keeps what is known of the stream. -/
theorem Bridge.Sniffed.step {stream : Bytes} {label : Label} {bridge bridge' : Bridge gzip}
    (sniffed : bridge.Sniffed stream) (stepped : bridgeNext label bridge = some bridge') :
    bridge'.Sniffed stream := by
  unfold Bridge.Sniffed at sniffed
  cases moved_of_bridgeNext stepped with
  | sniffs count here undecided =>
      rw [here] at sniffed
      have phase : (bridge.takeRequest count).phase = .sniffing := here
      rw [Bridge.Sniffed, phase, upstream_takeRequest]
      exact ⟨sniffed.1, undecided⟩
  | decides count compress here decided =>
      rw [here] at sniffed
      have whole := (upstream_takeRequest bridge count).trans sniffed.1
      constructor
      · exact whole
      · rw [isSome_encoder_sniffed]
        exact decides_of_sniffDecision ⟨_, whole⟩ decided
  | sniffsEnd here empty closed =>
      rw [here] at sniffed
      constructor
      · exact sniffed.1
      · rw [isSome_encoder_sniffed]
        apply decides_false
        intro n ended
        rw [← sniffed.1, empty, List.append_nil] at ended
        have undecided := sniffed.2
        rw [sniffDecision, ended] at undecided
        cases undecided
  | connects here => exact sniffed_forward bridge
  | refused here | forwardBreaks here pending | copyBreaks here pending | responseBreaks reads
  | finishes here ended drained => trivial
  | forwards count here => exact sniffed_forward _
  | copies count here | writes count here | drains here | delivers count here =>
      simp [Bridge.Sniffed, Bridge.takeRequest, Bridge.giveServer, Bridge.giveClient, here]
  | reads count reads | ends reads =>
      simp [Bridge.Sniffed, Bridge.takeResponse, Bridge.closeResponse, reads.1]

/-! ## `sniff` returns -/

/-- `sniff` waits for no more than this: the stream ends its head, ends itself, or is as
long as the limit. -/
def Suffices (stream : Bytes) (halfClosed : Bool) : Prop :=
  (∃ n, HeadEnds stream n) ∨ halfClosed = true ∨ maxHeadBytes ≤ stream.length

/-- Inside `sniff`, or just back from it. -/
structure Bridge.Sniffs (stream : Bytes) (halfClosed : Bool) (bridge : Bridge gzip) : Prop where
  sniffed : bridge.Sniffed stream
  closing : bridge.halfClosed = halfClosed
  early : bridge.phase = .sniffing ∨ bridge.phase = .connecting

theorem halfClosed_of_next {label : Label} {bridge bridge' : Bridge gzip}
    (stepped : bridgeNext label bridge = some bridge') :
    bridge'.halfClosed = bridge.halfClosed := by
  cases moved_of_bridgeNext stepped <;> rfl

/-- From inside, a step stays inside or returns. -/
theorem Bridge.Sniffs.step {stream : Bytes} {halfClosed : Bool} {label : Label}
    {bridge bridge' : Bridge gzip} (sniffs : bridge.Sniffs stream halfClosed)
    (inside : ¬ bridge.phase = .connecting) (stepped : bridgeNext label bridge = some bridge') :
    bridge'.Sniffs stream halfClosed := by
  have here : bridge.phase = .sniffing := sniffs.early.resolve_right inside
  refine ⟨sniffs.sniffed.step stepped, (halfClosed_of_next stepped).trans sniffs.closing, ?_⟩
  cases moved_of_bridgeNext stepped with
  | sniffs count => exact Or.inl here
  | decides count compress => exact Or.inr rfl
  | sniffsEnd => exact Or.inr rfl
  | connects elsewhere | refused elsewhere | forwards count elsewhere | forwardBreaks elsewhere
  | copies count elsewhere | writes count elsewhere | drains elsewhere | copyBreaks elsewhere
  | delivers count elsewhere | finishes elsewhere =>
      cases here.symm.trans elsewhere
  | reads count reading | ends reading | responseBreaks reading =>
      cases here.symm.trans reading.1

/-- From inside, a step is possible. -/
theorem Bridge.Sniffs.enabled {stream : Bytes} {halfClosed : Bool} {bridge : Bridge gzip}
    (enough : Suffices stream halfClosed) (sniffs : bridge.Sniffs stream halfClosed)
    (inside : ¬ bridge.phase = .connecting) :
    ∃ label bridge', Any label bridge ∧ bridgeNext label bridge = some bridge' := by
  have here : bridge.phase = .sniffing := sniffs.early.resolve_right inside
  obtain ⟨whole, undecided⟩ : bridge.upstream ++ bridge.request = stream ∧
      sniffDecision bridge.upstream = none := by
    have sniffed := sniffs.sniffed
    rwa [Bridge.Sniffed, here] at sniffed
  by_cases drained : bridge.request = []
  · -- All of the stream was read, and no decision came of it.
    rw [drained, List.append_nil] at whole
    rw [whole] at undecided
    rcases enough with ⟨n, ends⟩ | closed | long
    · rw [sniffDecision, headEnd_eq_some_iff_headEnds.mpr ends] at undecided
      cases undecided
    · refine ⟨.endRequest, bridge.sniffed false, trivial, ?_⟩
      have ended : bridge.request = [] ∧ bridge.halfClosed = true :=
        ⟨drained, sniffs.closing.trans closed⟩
      rw [bridgeNext, if_pos ended, here]
    · rw [sniffDecision] at undecided
      split at undecided
      · cases undecided
      · rw [if_neg (Nat.not_lt.mpr long)] at undecided
        cases undecided
  · have more : 0 < 1 ∧ 1 ≤ bridge.request.length :=
      ⟨Nat.one_pos, List.length_pos_iff.mpr drained⟩
    have within : 1 ≤ sniffBytes := by decide
    cases decision : sniffDecision (bridge.takeRequest 1).upstream with
    | none =>
        refine ⟨.readRequest 1, bridge.takeRequest 1, trivial, ?_⟩
        simp only [bridgeNext, if_pos more, here, if_pos within, decision]
    | some compress =>
        refine ⟨.readRequest 1, (bridge.takeRequest 1).sniffed compress, trivial, ?_⟩
        simp only [bridgeNext, if_pos more, here, if_pos within, decision]

/-- Whatever the sizes of its reads, `sniff` returns. -/
theorem Bridge.Sniffs.returns {stream : Bytes} {halfClosed : Bool} {bridge : Bridge gzip}
    (enough : Suffices stream halfClosed) (sniffs : bridge.Sniffs stream halfClosed) :
    Inevitable bridgeNext Any (fun bridge => bridge.phase = .connecting) bridge :=
  inevitable_of_enabled _
    (Subrelation.wf (fun ⟨label, _, stepped⟩ => ⟨label, stepped⟩) wellFounded_bridgeNext)
    (fun _ _ _ _ sniffs inside stepped => sniffs.step inside stepped)
    (fun _ sniffs inside => sniffs.enabled enough inside) bridge sniffs

/-! ## The law -/

theorem Bridge.sniffed_of_reachable {stream response : Bytes} {halfClosed : Bool}
    {bridge : Bridge gzip}
    (reachable : Reachable bridgeNext (Bridge.initial stream halfClosed response) bridge) :
    bridge.Sniffed stream :=
  reachable.invariant (Bridge.Sniffed stream) ⟨rfl, rfl⟩
    fun _ _ _ _ sniffed stepped => sniffed.step stepped

/-- When `sniff` has returned. -/
theorem Bridge.Sniffed.returned {stream : Bytes} {bridge : Bridge gzip}
    (sniffed : bridge.Sniffed stream) (back : bridge.phase = .connecting) :
    bridge.upstream ++ bridge.request = stream ∧ Decides stream bridge.encoder.isSome := by
  rwa [Bridge.Sniffed, back] at sniffed

/-- Whatever the reads are, `sniff` returns once the stream ends its head, ends itself or
is as long as the limit.  When it returns, what it has read and what is still unread are the
stream, and its decision is one of the head alone; so two streams with the same head, ending
within the limit, are decided the same. -/
theorem sniff_independent {stream response : Bytes} {halfClosed : Bool} {bridge : Bridge gzip}
    (reachable : Reachable bridgeNext (Bridge.initial stream halfClosed response) bridge) :
    (bridge.phase = .sniffing → Suffices stream halfClosed →
      Inevitable bridgeNext Any (fun bridge => bridge.phase = .connecting) bridge) ∧
    (bridge.phase = .connecting →
      bridge.upstream ++ bridge.request = stream ∧ Decides stream bridge.encoder.isSome ∧
        ∀ (other response' : Bytes) (halfClosed' : Bool) (bridge' : Bridge gzip) (n : Nat),
          Reachable bridgeNext (Bridge.initial other halfClosed' response') bridge' →
          bridge'.phase = .connecting → n ≤ maxHeadBytes → HeadEnds stream n → HeadEnds other n →
          other.take n = stream.take n →
            bridge'.encoder.isSome = bridge.encoder.isSome) := by
  have sniffed := Bridge.sniffed_of_reachable reachable
  constructor
  · intro here enough
    apply Bridge.Sniffs.returns enough
    refine ⟨sniffed, ?_, Or.inl here⟩
    exact reachable.invariant (fun bridge => bridge.halfClosed = halfClosed) rfl
      fun _ _ _ _ closing stepped => (halfClosed_of_next stepped).trans closing
  · intro returned
    obtain ⟨whole, decides⟩ := sniffed.returned returned
    refine ⟨whole, decides, ?_⟩
    intro other response' halfClosed' bridge' n reachable' returned' short ended ended' same
    have decides' := ((Bridge.sniffed_of_reachable reachable').returned returned').2
    rw [decides.within n ended short, decides'.within n ended' short, same]

/-- The head of a request that asks for gzip. -/
def askingHead : Bytes :=
  utf8 "P\r\nX-Quackhole-Accept-Encoding: gzip\r\n\r\n".toList

/-- A head that asks for gzip, and a body. -/
def askingStream : Bytes :=
  askingHead ++ [1, 2, 3]

/-- The terminator of the head straddles two reads. -/
theorem sniff_independent_straddling :
    Inevitable bridgeNext Any (fun bridge => bridge.phase = .connecting)
        (Bridge.initial askingStream false [] : Bridge sampleGzip) ∧
      ∃ bridge : Bridge sampleGzip,
        exec bridgeNext [.readRequest 38, .readRequest 3] (Bridge.initial askingStream false []) =
          some bridge ∧
        bridge.upstream ++ bridge.request = askingStream ∧
        Decides askingStream bridge.encoder.isSome := by
  have ended : headEnd askingStream = some 40 := by decide +kernel
  have enough : Suffices askingStream false :=
    Or.inl ⟨40, headEnd_eq_some_iff_headEnds.mp ended⟩
  have ran : (exec bridgeNext [.readRequest 38, .readRequest 3]
      (Bridge.initial askingStream false [] : Bridge sampleGzip)).map Bridge.phase =
        some .connecting := by
    decide +kernel
  rcases Option.map_eq_some_iff.mp ran with ⟨bridge, executed, returned⟩
  have independent := (sniff_independent (reachable_of_exec executed)).2 returned
  exact ⟨(sniff_independent Run.refl).1 rfl enough, bridge, executed, independent.1,
    independent.2.1⟩

end Quackhole.Serve
