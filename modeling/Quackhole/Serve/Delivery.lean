import Quackhole.Serve.Bridge

/-!
# What of the response is delivered

The accounting says where every byte of the response is at every point of a
bridge: not read yet, inside the encoder, read and not written, or delivered.
When a bridge ends, the response has been delivered exactly if nothing of it was
outstanding when it ended; a copy that fails is what ends a bridge early.
-/

namespace Quackhole.Serve

open Quackhole.Word
open Quackhole.Compress
open Quackhole.Transition

variable {gzip : Codec}

/-- Where the bytes of the response are, when `chunks` of it have been read. -/
structure Bridge.Accounted (whole : Bytes) (bridge : Bridge gzip) (chunks : List Bytes) :
    Prop where
  read : chunks.flatten ++ bridge.response = whole
  closed : bridge.responseOver = true → bridge.response = []
  plain : bridge.encoder = none → bridge.toClient ++ bridge.outgoing = chunks.flatten
  coding : ∀ encoder, bridge.encoder = some encoder → bridge.responseOver = false →
    encoder = Encoder.fed gzip chunks ∧
      bridge.toClient ++ bridge.outgoing = announced (gzip.released chunks)
  coded : ∀ encoder, bridge.encoder = some encoder → bridge.responseOver = true →
    bridge.toClient ++ bridge.outgoing = announced (gzip.stream chunks)
  unstarted : bridge.phase = .sniffing →
    bridge.encoder = none ∧ chunks = [] ∧ bridge.responseOver = false

/-- Something of the response has not been delivered. -/
def Bridge.Outstanding (bridge : Bridge gzip) : Prop :=
  bridge.outgoing ≠ [] ∨ bridge.response ≠ [] ∨
    bridge.encoder.isSome = true ∧ bridge.responseOver = false

instance (bridge : Bridge gzip) : Decidable bridge.Outstanding :=
  inferInstanceAs (Decidable (_ ∨ _ ∨ _))

/-- The client has the complete response, or the complete envelope of it. -/
def Bridge.Complete (whole : Bytes) (bridge : Bridge gzip) : Prop :=
  match bridge.encoder with
  | none => bridge.toClient = whole
  | some _ => ∃ chunks : List Bytes, chunks.flatten = whole ∧
      bridge.toClient = envelope gzip chunks

/-- The bridge was connected to the server and has ended. -/
def Phase.ended : Phase → Bool
  | .finished => true
  | .failed .connect => false
  | .failed _ => true
  | _ => false

/-- No copy fails while something of the response is outstanding. -/
def Patient (label : Label) (bridge : Bridge gzip) : Prop :=
  label = .requestFails ∨ label = .responseFails → ¬ bridge.Outstanding

namespace Bridge

variable {whole : Bytes} {bridge bridge' : Bridge gzip} {chunks : List Bytes}

theorem accounted_initial (request : Bytes) (halfClosed : Bool) (whole : Bytes) :
    (initial request halfClosed whole : Bridge gzip).Accounted whole [] where
  read := rfl
  closed impossible := Bool.noConfusion impossible
  plain _ := rfl
  coding encoder impossible := by cases impossible
  coded encoder impossible := by cases impossible
  unstarted _ := ⟨rfl, rfl, rfl⟩

/-- The pump reads when it has written everything, so the encoder is in step with
what was delivered. -/
theorem Accounted.drained (accounted : bridge.Accounted whole chunks)
    (reads : bridge.readsResponse) {encoder : Encoder gzip}
    (coder : bridge.encoder = some encoder) :
    encoder = Encoder.fed gzip chunks ∧ bridge.toClient = announced (gzip.released chunks) := by
  obtain ⟨here, undone, drained⟩ := reads
  obtain ⟨fed, sent⟩ := accounted.coding encoder coder undone
  have empty : bridge.outgoing = [] := by
    apply drained.resolve_left
    rw [coder]
    exact Bool.noConfusion
  rw [empty, List.append_nil] at sent
  exact ⟨fed, sent⟩

/-- Reading from the server feeds the encoder, or moves the bytes to what is
outgoing. -/
theorem Accounted.takeResponse (accounted : bridge.Accounted whole chunks)
    (reads : bridge.readsResponse) (count : Nat) :
    (bridge.takeResponse count).Accounted whole (chunks ++ [bridge.response.take count]) := by
  constructor
  · rw [← accounted.read]
    simp [Bridge.takeResponse]
  · intro closed
    exact Bool.noConfusion (closed.symm.trans reads.2.1)
  · intro plain
    have coder : bridge.encoder = none := Option.map_eq_none_iff.mp plain
    rw [List.flatten_append, ← accounted.plain coder]
    simp [Bridge.takeResponse, coder]
  · intro pushed equal _
    obtain ⟨encoder, coder, rfl⟩ := Option.map_eq_some_iff.mp equal
    obtain ⟨rfl, sent⟩ := accounted.drained reads coder
    constructor
    · exact Encoder.push_fed _ _ _
    · rw [← Encoder.announced_push_fed, ← sent]
      simp [Bridge.takeResponse, coder]
  · intro _ _ closed
    exact Bool.noConfusion (closed.symm.trans reads.2.1)
  · intro sniffing
    exact absurd (reads.1.symm.trans sniffing) Phase.noConfusion

/-- Reading the end releases the trailer. -/
theorem Accounted.closeResponse (accounted : bridge.Accounted whole chunks)
    (reads : bridge.readsResponse) (exhausted : bridge.response = []) :
    bridge.closeResponse.Accounted whole chunks := by
  constructor
  · exact accounted.read
  · exact fun _ => exhausted
  · intro coder
    rw [← accounted.plain coder]
    simp [Bridge.closeResponse, show bridge.encoder = none from coder]
  · intro _ _ impossible
    cases impossible
  · intro encoder coder _
    obtain ⟨rfl, sent⟩ := accounted.drained reads coder
    rw [← Encoder.announced_finish_fed, ← sent]
    simp [Bridge.closeResponse, show bridge.encoder = some _ from coder]
  · intro sniffing
    exact absurd (reads.1.symm.trans sniffing) Phase.noConfusion

/-- Writing to the client moves the bytes from what is outgoing to what is
delivered. -/
theorem Accounted.giveClient (accounted : bridge.Accounted whole chunks)
    (here : bridge.phase = .copying) (count : Nat) :
    (bridge.giveClient count).Accounted whole chunks := by
  have moved : (bridge.giveClient count).toClient ++ (bridge.giveClient count).outgoing =
      bridge.toClient ++ bridge.outgoing := by
    simp [Bridge.giveClient]
  constructor
  · exact accounted.read
  · exact accounted.closed
  · rw [moved]
    exact accounted.plain
  · rw [moved]
    exact accounted.coding
  · rw [moved]
    exact accounted.coded
  · intro sniffing
    rw [Bridge.giveClient, here] at sniffing
    cases sniffing

/-- Deciding about compression puts a fresh encoder in place. -/
theorem Accounted.sniffed (accounted : bridge.Accounted whole chunks)
    (here : bridge.phase = .sniffing) (compress : Bool) :
    (bridge.sniffed compress).Accounted whole chunks := by
  obtain ⟨coder, rfl, undone⟩ := accounted.unstarted here
  have sent : bridge.toClient ++ bridge.outgoing = [] := accounted.plain coder
  constructor
  · exact accounted.read
  · exact accounted.closed
  · intro _
    exact sent
  · intro encoder equal _
    cases compress with
    | false => cases equal
    | true =>
        cases equal
        exact ⟨rfl, sent⟩
  · intro encoder _ closed
    rw [Bridge.sniffed, undone] at closed
    cases closed
  · intro sniffing
    cases sniffing

/-- A step that leaves the response alone keeps the accounting. -/
theorem Accounted.frame (accounted : bridge.Accounted whole chunks)
    (response : bridge'.response = bridge.response) (encoder : bridge'.encoder = bridge.encoder)
    (outgoing : bridge'.outgoing = bridge.outgoing) (toClient : bridge'.toClient = bridge.toClient)
    (responseOver : bridge'.responseOver = bridge.responseOver)
    (phase : bridge'.phase = .sniffing → bridge.phase = .sniffing) :
    bridge'.Accounted whole chunks := by
  constructor
  · rw [response]
    exact accounted.read
  · rw [response, responseOver]
    exact accounted.closed
  · rw [encoder, toClient, outgoing]
    exact accounted.plain
  · rw [encoder, toClient, outgoing, responseOver]
    exact accounted.coding
  · rw [encoder, toClient, outgoing, responseOver]
    exact accounted.coded
  · intro sniffing
    rw [encoder, responseOver]
    exact accounted.unstarted (phase sniffing)

/-- Every step keeps the accounting, for some chunks. -/
theorem Accounted.step {label : Label} (accounted : bridge.Accounted whole chunks)
    (stepped : bridgeNext label bridge = some bridge') :
    ∃ chunks, bridge'.Accounted whole chunks := by
  cases moved_of_bridgeNext stepped with
  | sniffs count here => exact ⟨chunks, accounted.frame rfl rfl rfl rfl rfl fun _ => here⟩
  | decides count compress here =>
      have taken : (bridge.takeRequest count).Accounted whole chunks :=
        accounted.frame rfl rfl rfl rfl rfl fun _ => here
      exact ⟨chunks, taken.sniffed here compress⟩
  | sniffsEnd here => exact ⟨chunks, accounted.sniffed here false⟩
  | connects here =>
      refine ⟨chunks, accounted.frame rfl rfl rfl rfl rfl fun sniffing => ?_⟩
      simp only [Bridge.forward] at sniffing
      split at sniffing <;> cases sniffing
  | forwards count here =>
      refine ⟨chunks, accounted.frame rfl rfl rfl rfl rfl fun sniffing => ?_⟩
      simp only [Bridge.forward] at sniffing
      split at sniffing <;> cases sniffing
  | refused | forwardBreaks | copyBreaks | responseBreaks | finishes =>
      exact ⟨chunks, accounted.frame rfl rfl rfl rfl rfl fun sniffing => by cases sniffing⟩
  | copies count here => exact ⟨chunks, accounted.frame rfl rfl rfl rfl rfl id⟩
  | writes count here => exact ⟨chunks, accounted.frame rfl rfl rfl rfl rfl id⟩
  | drains here => exact ⟨chunks, accounted.frame rfl rfl rfl rfl rfl id⟩
  | reads count reading => exact ⟨_, accounted.takeResponse reading count⟩
  | ends reading exhausted => exact ⟨chunks, accounted.closeResponse reading exhausted⟩
  | delivers count here => exact ⟨chunks, accounted.giveClient here count⟩

/-- The client has everything exactly when nothing is outstanding: an encoder
that was not finished has kept something back. -/
theorem Accounted.complete_iff (lawful : gzip.Lawful) (accounted : bridge.Accounted whole chunks) :
    bridge.Complete whole ↔ ¬ bridge.Outstanding := by
  unfold Bridge.Complete Bridge.Outstanding
  cases coder : bridge.encoder with
  | none =>
      have total : bridge.toClient ++ (bridge.outgoing ++ bridge.response) = whole := by
        rw [← List.append_assoc, accounted.plain coder]
        exact accounted.read
      constructor
      · intro complete
        rw [complete] at total
        have rest := List.append_eq_nil_iff.mp (List.append_right_eq_self.mp total)
        simp [rest.1, rest.2]
      · intro nothing
        have rest : bridge.outgoing ++ bridge.response = [] := by
          simpa using nothing
        rwa [rest, List.append_nil] at total
  | some encoder =>
      constructor
      · rintro ⟨complete, whole_eq, delivered⟩
        rw [envelope_eq lawful] at delivered
        cases closed : bridge.responseOver with
        | false =>
            -- What has been released is too short to hold a whole stream.
            exfalso
            obtain ⟨_, sent⟩ := accounted.coding encoder coder closed
            have starts : bridge.toClient <+: announced (gzip.released chunks) :=
              ⟨_, sent⟩
            rw [delivered] at starts
            by_cases quiet : gzip.released chunks = []
            · rw [quiet, announced_nil] at starts
              simp [magic] at starts
            · rw [announced_of_ne_nil quiet, List.prefix_append_right_inj] at starts
              exact lawful.not_stream_prefix_released complete chunks starts
        | true =>
            have sent := accounted.coded encoder coder closed
            rw [delivered, announced_of_ne_nil (lawful.stream_ne_nil chunks),
              List.append_assoc, List.append_cancel_left_eq] at sent
            have same := lawful.stream_eq_of_prefix_stream ⟨_, sent⟩
            rw [← same, List.append_right_eq_self] at sent
            simp [sent, accounted.closed closed]
      · intro nothing
        rw [not_or, not_or, not_and, Bool.not_eq_false] at nothing
        obtain ⟨written, exhausted, finished⟩ := nothing
        rw [not_not] at written exhausted
        have sent := accounted.coded encoder coder (finished rfl)
        rw [written, List.append_nil, announced_of_ne_nil (lawful.stream_ne_nil chunks)] at sent
        refine ⟨chunks, ?_, ?_⟩
        · rw [← accounted.read, exhausted, List.append_nil]
        · rw [sent, envelope_eq lawful]

/-- The accounting holds at every point of every run. -/
theorem exists_accounted {request : Bytes} {halfClosed : Bool}
    (reachable : Reachable bridgeNext (initial request halfClosed whole) bridge) :
    ∃ chunks, bridge.Accounted whole chunks := by
  apply reachable.invariant fun bridge => ∃ chunks, bridge.Accounted whole chunks
  · exact ⟨[], accounted_initial request halfClosed whole⟩
  · intro _ _ _ _ holds stepped
    obtain ⟨chunks, accounted⟩ := holds
    exact accounted.step stepped

/-! ## The end of an exchange -/

theorem forward_not_ended (bridge : Bridge gzip) : bridge.forward.phase.ended = false := by
  unfold Bridge.forward
  by_cases empty : bridge.upstream = []
  · simp [empty, Phase.ended]
  · simp [empty, Phase.ended]

/-- A bridge is ended by one of the copies that fails, or by leaving the loop. -/
theorem ends_of_step {label : Label} (stepped : bridgeNext label bridge = some bridge')
    (ended : bridge'.phase.ended = true) :
    ∃ phase, bridge' = { bridge with phase } ∧
      (label = .requestFails ∨ label = .responseFails ∨
        label = .finish ∧ bridge.responseOver = true ∧ bridge.outgoing = []) := by
  cases moved_of_bridgeNext stepped with
  | forwardBreaks | copyBreaks => exact ⟨_, rfl, Or.inl rfl⟩
  | responseBreaks => exact ⟨_, rfl, Or.inr (Or.inl rfl)⟩
  | finishes here closed written => exact ⟨_, rfl, Or.inr (Or.inr ⟨rfl, closed, written⟩)⟩
  | decides | sniffsEnd | refused => cases ended
  | connects | forwards =>
      rw [forward_not_ended] at ended
      cases ended
  | sniffs count here | copies count here | writes count here | drains here
  | delivers count here =>
      exact absurd ended (by simp [Bridge.takeRequest, Bridge.giveServer, Bridge.giveClient, here,
        Phase.ended])
  | reads count reading =>
      exact absurd ended (by simp [Bridge.takeResponse, reading.1, Phase.ended])
  | ends reading =>
      exact absurd ended (by simp [Bridge.closeResponse, reading.1, Phase.ended])

/-- When a step ends the bridge, the client has the complete response exactly
when the step was no failure with something outstanding. -/
theorem complete_iff_patient (lawful : gzip.Lawful) {request : Bytes} {halfClosed : Bool}
    {label : Label} (reachable : Reachable bridgeNext (initial request halfClosed whole) bridge)
    (stepped : bridgeNext label bridge = some bridge') (ended : bridge'.phase.ended = true) :
    bridge'.Complete whole ↔ Patient label bridge := by
  obtain ⟨chunks, accounted⟩ := exists_accounted reachable
  obtain ⟨phase, rfl, cause⟩ := ends_of_step stepped ended
  change bridge.Complete whole ↔ Patient label bridge
  rw [accounted.complete_iff lawful]
  rcases cause with rfl | rfl | ⟨rfl, closed, written⟩
  · simp [Patient]
  · simp [Patient]
  · simp [Patient, Outstanding, written, accounted.closed closed, closed]

/-- The client has the complete response, or the complete envelope of it, when
the bridge ends, in every run in which neither copy fails while something of the
response is outstanding. -/
theorem complete_of_patient (lawful : gzip.Lawful) {request : Bytes} {halfClosed : Bool}
    (run : Run bridgeNext Patient (initial request halfClosed whole) bridge)
    (ended : bridge.phase.ended = true) : bridge.Complete whole := by
  cases run with
  | refl => cases ended
  | tail earlier patient stepped =>
      exact (complete_iff_patient lawful earlier.reachable stepped ended).mpr patient

end Bridge

/-- A request with a body, from a client that does not ask for compression. -/
def sampleRequest : Bytes :=
  utf8 "POST / HTTP/1.1\r\nContent-Length: 2\r\n\r\nhi".toList

/-- What a server answers that does not want the body. -/
def sampleRefusal : Bytes :=
  utf8 "HTTP/1.1 413 Payload Too Large\r\n\r\n".toList

/-- Neither has been read. -/
def sampleBridge : Bridge sampleGzip :=
  Bridge.initial sampleRequest false sampleRefusal

/-- The request is forwarded, and the response is delivered to its end. -/
def deliveringLabels : List Label :=
  [.readRequest 38, .connect, .writeRequest 38, .readRequest 2, .readResponse 34, .writeRequest 2,
    .writeResponse 34, .endResponse, .finish]

theorem complete_sampleBridge :
    ∃ bridge, exec bridgeNext deliveringLabels sampleBridge = some bridge ∧
      bridge.Complete sampleRefusal := by
  obtain ⟨bridge, executed⟩ : ∃ bridge,
      exec bridgeNext deliveringLabels sampleBridge = some bridge := ⟨_, rfl⟩
  have ended : (exec bridgeNext deliveringLabels sampleBridge).map (·.phase) =
      some .finished := rfl
  rw [executed] at ended
  have finished : bridge.phase = .finished := Option.some.inj ended
  have run : Run bridgeNext Patient sampleBridge bridge :=
    run_of_exec executed (by simp [deliveringLabels, Patient])
  exact ⟨bridge, executed, Bridge.complete_of_patient lawful_sampleGzip run (by
    rw [finished]
    rfl)⟩

/-- The head is forwarded, and when the body is to be written the server has
answered and closed. -/
def refusedLabels : List Label :=
  [.readRequest 38, .connect, .writeRequest 38, .readRequest 2, .requestFails]

/-- The bridge ends, and the client has nothing of the response the server
wrote. -/
theorem not_complete_sampleBridge :
    ∃ bridge, exec bridgeNext refusedLabels sampleBridge = some bridge ∧
      bridge.phase = .failed .copyRequest ∧ bridge.toClient = [] ∧
        ¬ bridge.Complete sampleRefusal := by
  refine ⟨_, rfl, rfl, rfl, ?_⟩
  change ¬ [] = sampleRefusal
  decide

end Quackhole.Serve
