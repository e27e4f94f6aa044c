import Quackhole.Serve.Delivery
import Quackhole.Serve.Ending
import Quackhole.Http.Framing
import Quackhole.Http.Receive

/-!
# The tunnel is transparent

A request this client builds is carried through a bridge to a server that reads
all of it and answers, and the answer is carried back in an envelope.  In
whatever pieces the two byte streams arrive, the server is given the bytes the
client built and the client decodes the bytes the server wrote.
-/

namespace Quackhole.Serve

open Quackhole.Word
open Quackhole.Compress
open Quackhole.Transition
open Quackhole.Http

variable {gzip : Codec}

/-- The server accepts the connection, reads the whole request before it
closes, and neither copy fails. -/
def Orderly (sent : Bytes) (label : Label) (bridge : Bridge gzip) : Prop :=
  match label with
  | .refuse => False
  | .requestFails => False
  | .responseFails => False
  | .endResponse => bridge.toServer = sent
  | _ => True

/-! ## The head asks -/

/-- The head of a request this client builds asks for compression. -/
theorem wantsCompression_headText {req : Request} (accepted : Accepted req)
    (method : ¬ crlf <:+: req.method) : wantsCompression (utf8 (headText req)) = true := by
  have asks : lineAsks (renderField (acceptHeader, acceptValue)) = true := lineAsks_accept
  have written : renderField (acceptHeader, acceptValue) ∈ readLines (utf8 (headText req)) := by
    rw [readLines_headText accepted method]
    simp [headLines, writtenFields]
  exact List.any_eq_true.mpr ⟨_, written, asks⟩

/-- The bytes begin with a head that ends within the limit and asks for
compression. -/
def Asks (sent : Bytes) : Prop :=
  ∃ n, headEnd sent = some n ∧ n ≤ maxHeadBytes ∧ wantsCompression (sent.take n) = true

theorem asks_of_buildRequest {req : Request} {sent : Bytes} (built : buildRequest req = .ok sent)
    (method : ¬ crlf <:+: req.method) (short : ∃ n, headEnd sent = some n ∧ n ≤ maxHeadBytes) :
    Asks sent := by
  obtain ⟨accepted, rfl⟩ := buildRequest_eq_ok_iff.mp built
  obtain ⟨n, ended, bound⟩ := short
  have own := headEnd_headText accepted method (req.body.getD [])
  rw [own] at ended
  cases ended
  refine ⟨_, own, bound, ?_⟩
  rw [List.take_left]
  exact wantsCompression_headText accepted method

/-- However much of such a request has been read: nothing is decided before its
head has ended, and then the decision is to compress. -/
theorem sniffDecision_of_asks {sent buf : Bytes} (asks : Asks sent) (isPrefix : buf <+: sent) :
    sniffDecision buf = none ∧ headEnd buf = none ∨ sniffDecision buf = some true := by
  obtain ⟨n, ended, bound, wants⟩ := asks
  unfold sniffDecision
  by_cases reaches : n ≤ buf.length
  · right
    have sameHead : sent.take n = buf.take n := take_of_isPrefix isPrefix reaches
    rw [sameHead] at wants
    rw [headEnd_prefix_of_le isPrefix reaches ended]
    exact congrArg some wants
  · left
    have cut : buf.length < n := Nat.lt_of_not_le reaches
    rw [headEnd_prefix_of_lt isPrefix cut ended]
    constructor
    · exact if_pos (by omega)
    · rfl

/-! ## What an orderly run preserves -/

/-- Where the bytes of the request are, and what follows from the phase. -/
structure Bridge.Carries (sent : Bytes) (bridge : Bridge gzip) : Prop where
  conserved : bridge.toServer ++ (bridge.upstream ++ bridge.request) = sent
  undecided : bridge.phase = .sniffing → bridge.toServer = [] ∧ headEnd bridge.upstream = none
  forwards : bridge.phase = .forwarding → bridge.upstream ≠ []
  compresses : bridge.phase ≠ .sniffing → bridge.encoder.isSome = true
  drained : bridge.requestDrained = true → bridge.request = []
  answered : bridge.responseOver = true → bridge.toServer = sent
  closed : bridge.phase = .finished → bridge.responseOver = true ∧ bridge.outgoing = []
  sound : ∀ reason, bridge.phase ≠ .failed reason

namespace Bridge

variable {sent whole : Bytes} {bridge bridge' : Bridge gzip}

theorem carries_initial (halfClosed : Bool) :
    (initial sent halfClosed whole : Bridge gzip).Carries sent where
  conserved := rfl
  undecided _ := ⟨rfl, rfl⟩
  forwards impossible := by cases impossible
  compresses impossible := absurd rfl impossible
  drained impossible := by cases impossible
  answered impossible := by cases impossible
  closed impossible := by cases impossible
  sound _ impossible := by cases impossible

/-- Once the server has been given everything, nothing is left. -/
theorem Carries.exhausted (carries : bridge.Carries sent) (all : bridge.toServer = sent) :
    bridge.upstream = [] ∧ bridge.request = [] := by
  have conserved := carries.conserved
  rw [all] at conserved
  exact List.append_eq_nil_iff.mp (List.append_right_eq_self.mp conserved)

theorem Carries.takeRequest (carries : bridge.Carries sent) (count : Nat) :
    (bridge.takeRequest count).toServer ++
      ((bridge.takeRequest count).upstream ++ (bridge.takeRequest count).request) = sent := by
  rw [← carries.conserved]
  simp [Bridge.takeRequest]

theorem Carries.giveServer (carries : bridge.Carries sent) (count : Nat) :
    (bridge.giveServer count).toServer ++
      ((bridge.giveServer count).upstream ++ (bridge.giveServer count).request) = sent := by
  rw [← carries.conserved]
  simp only [Bridge.giveServer, List.append_assoc]
  rw [← List.append_assoc (bridge.upstream.take count), List.take_append_drop]

/-- What `sniff` has read is a prefix of the request. -/
theorem Carries.taken_prefix (carries : bridge.Carries sent) (here : bridge.phase = .sniffing)
    (count : Nat) : (bridge.takeRequest count).upstream <+: sent := by
  have unsent : (bridge.takeRequest count).toServer = [] := (carries.undecided here).1
  have conserved := carries.takeRequest count
  rw [unsent, List.nil_append] at conserved
  exact ⟨_, conserved⟩

/-- A request that can still be read has not been drained. -/
theorem Carries.undrained {count : Nat} (carries : bridge.Carries sent) (positive : 0 < count)
    (fits : count ≤ bridge.request.length) : bridge.requestDrained = false := by
  rw [Bool.eq_false_iff]
  intro drained
  rw [carries.drained drained] at fits
  exact absurd (positive.trans_le fits) (Nat.lt_irrefl 0)

/-- While something is to be written to the server, the response is not over. -/
theorem Carries.unanswered {count : Nat} (carries : bridge.Carries sent) (positive : 0 < count)
    (fits : count ≤ bridge.upstream.length) : bridge.responseOver = false := by
  rw [Bool.eq_false_iff]
  intro closed
  rw [(carries.exhausted (carries.answered closed)).1] at fits
  exact absurd (positive.trans_le fits) (Nat.lt_irrefl 0)

/-- The loop is entered, or stayed in. -/
theorem carries_of_copying (here : bridge.phase = .copying)
    (conserved : bridge.toServer ++ (bridge.upstream ++ bridge.request) = sent)
    (compresses : bridge.encoder.isSome = true)
    (drained : bridge.requestDrained = true → bridge.request = [])
    (answered : bridge.responseOver = true → bridge.toServer = sent) : bridge.Carries sent := by
  constructor
  · exact conserved
  · rw [here]
    exact Phase.noConfusion
  · rw [here]
    exact Phase.noConfusion
  · exact fun _ => compresses
  · exact drained
  · exact answered
  · rw [here]
    exact Phase.noConfusion
  · rw [here]
    exact fun _ => Phase.noConfusion

/-- Reading the request inside `sniff` keeps all of it, up to the decision. -/
theorem Carries.sniff {count : Nat} (carries : bridge.Carries sent)
    (here : bridge.phase = .sniffing) (positive : 0 < count)
    (fits : count ≤ bridge.request.length)
    (undecided : headEnd (bridge.takeRequest count).upstream = none) :
    (bridge.takeRequest count).Carries sent := by
  constructor
  · exact carries.takeRequest count
  · exact fun _ => ⟨(carries.undecided here).1, undecided⟩
  · exact fun forwarding => absurd (here.symm.trans forwarding) Phase.noConfusion
  · exact fun decided => absurd here decided
  · intro drained
    exact Bool.noConfusion (drained.symm.trans (carries.undrained positive fits))
  · exact carries.answered
  · exact fun finished => absurd (here.symm.trans finished) Phase.noConfusion
  · exact carries.sound

/-- The decision to compress puts an encoder in place. -/
theorem Carries.decided {count : Nat} (carries : bridge.Carries sent) (positive : 0 < count)
    (fits : count ≤ bridge.request.length) :
    ((bridge.takeRequest count).sniffed true).Carries sent := by
  constructor
  · exact carries.takeRequest count
  · intro impossible
    cases impossible
  · intro impossible
    cases impossible
  · exact fun _ => rfl
  · intro drained
    exact Bool.noConfusion (drained.symm.trans (carries.undrained positive fits))
  · exact carries.answered
  · intro impossible
    cases impossible
  · intro _ impossible
    cases impossible

/-- The head is to be forwarded, or there is none. -/
theorem carries_forward
    (conserved : bridge.toServer ++ (bridge.upstream ++ bridge.request) = sent)
    (compresses : bridge.encoder.isSome = true)
    (drained : bridge.requestDrained = true → bridge.request = [])
    (answered : bridge.responseOver = true → bridge.toServer = sent) :
    bridge.forward.Carries sent := by
  by_cases empty : bridge.upstream = []
  · exact carries_of_copying (if_pos empty) conserved compresses drained answered
  · have here : bridge.forward.phase = .forwarding := if_neg empty
    constructor
    · exact conserved
    · rw [here]
      exact Phase.noConfusion
    · exact fun _ => empty
    · exact fun _ => compresses
    · exact drained
    · exact answered
    · rw [here]
      exact Phase.noConfusion
    · rw [here]
      exact fun _ => Phase.noConfusion

/-- An orderly step of a bridge keeps all of it. -/
theorem Carries.step {label : Label} (asks : Asks sent) (carries : bridge.Carries sent)
    (orderly : Orderly sent label bridge) (stepped : bridgeNext label bridge = some bridge') :
    bridge'.Carries sent := by
  have compresses : bridge.phase ≠ .sniffing → bridge.encoder.isSome = true := carries.compresses
  cases moved_of_bridgeNext stepped with
  | refused | forwardBreaks | copyBreaks | responseBreaks => exact orderly.elim
  | sniffs count here undecided positive fits =>
      rcases sniffDecision_of_asks asks (carries.taken_prefix here count) with
        ⟨_, noEnd⟩ | decided
      · exact carries.sniff here positive fits noEnd
      · rw [undecided] at decided
        cases decided
  | decides count compress here decision positive fits =>
      rcases sniffDecision_of_asks asks (carries.taken_prefix here count) with
        ⟨undecided, _⟩ | decided
      · rw [undecided] at decision
        cases decision
      · rw [decided] at decision
        cases decision
        exact carries.decided positive fits
  | sniffsEnd here exhausted =>
      -- The whole request has been read, and its head has ended in it.
      obtain ⟨unsent, noEnd⟩ := carries.undecided here
      have conserved := carries.conserved
      rw [unsent, exhausted, List.nil_append, List.append_nil] at conserved
      obtain ⟨n, ended, _⟩ := asks
      rw [← conserved, noEnd] at ended
      cases ended
  | connects here =>
      rw [here] at compresses
      exact carries_forward carries.conserved (compresses Phase.noConfusion) carries.drained
        carries.answered
  | forwards count here positive fits =>
      rw [here] at compresses
      apply carries_forward (carries.giveServer count) (compresses Phase.noConfusion)
        carries.drained
      intro closed
      exact Bool.noConfusion (closed.symm.trans (carries.unanswered positive fits))
  | copies count here undrained positive fits =>
      have staying : (bridge.takeRequest count).phase = .copying := here
      rw [here] at compresses
      apply carries_of_copying staying (carries.takeRequest count) (compresses Phase.noConfusion)
      · intro drained
        exact Bool.noConfusion (drained.symm.trans undrained)
      · exact carries.answered
  | writes count here positive fits =>
      have staying : (bridge.giveServer count).phase = .copying := here
      rw [here] at compresses
      apply carries_of_copying staying (carries.giveServer count) (compresses Phase.noConfusion)
        carries.drained
      intro closed
      exact Bool.noConfusion (closed.symm.trans (carries.unanswered positive fits))
  | drains here exhausted =>
      have staying : ({ bridge with requestDrained := true }).phase = .copying := here
      rw [here] at compresses
      exact carries_of_copying staying carries.conserved (compresses Phase.noConfusion)
        (fun _ => exhausted) carries.answered
  | reads count reading =>
      have staying : (bridge.takeResponse count).phase = .copying := reading.1
      rw [reading.1] at compresses
      apply carries_of_copying staying carries.conserved _ carries.drained carries.answered
      rw [Bridge.takeResponse, Option.isSome_map]
      exact compresses Phase.noConfusion
  | ends reading =>
      have staying : bridge.closeResponse.phase = .copying := reading.1
      have all : bridge.toServer = sent := orderly
      rw [reading.1] at compresses
      exact carries_of_copying staying carries.conserved (compresses Phase.noConfusion)
        carries.drained (fun _ => all)
  | delivers count here =>
      have staying : (bridge.giveClient count).phase = .copying := here
      rw [here] at compresses
      exact carries_of_copying staying carries.conserved (compresses Phase.noConfusion)
        carries.drained carries.answered
  | finishes here closed written =>
      rw [here] at compresses
      constructor
      · exact carries.conserved
      · exact Phase.noConfusion
      · exact Phase.noConfusion
      · exact fun _ => compresses Phase.noConfusion
      · exact carries.drained
      · exact carries.answered
      · exact fun _ => ⟨closed, written⟩
      · exact fun _ => Phase.noConfusion

/-- An orderly bridge that has not finished can take an orderly step. -/
theorem Carries.enabled (asks : Asks sent) (carries : bridge.Carries sent)
    (unfinished : bridge.phase ≠ .finished) :
    ∃ label bridge', Orderly sent label bridge ∧ bridgeNext label bridge = some bridge' := by
  cases here : bridge.phase with
  | failed reason => exact absurd here (carries.sound reason)
  | finished => exact absurd here unfinished
  | connecting => exact ⟨.connect, bridge.forward, trivial, if_pos here⟩
  | forwarding =>
      have pending : 0 < bridge.upstream.length := List.length_pos_iff.mpr (carries.forwards here)
      refine ⟨.writeRequest 1, (bridge.giveServer 1).forward, trivial, ?_⟩
      simp [bridgeNext, here, Nat.succ_le_of_lt pending]
  | sniffing =>
      -- The head has not ended in what was read, so there is more to read.
      obtain ⟨unsent, noEnd⟩ := carries.undecided here
      have conserved := carries.conserved
      rw [unsent, List.nil_append] at conserved
      have more : 0 < bridge.request.length := by
        rw [List.length_pos_iff]
        intro exhausted
        obtain ⟨n, ended, _⟩ := asks
        rw [exhausted, List.append_nil] at conserved
        rw [← conserved, noEnd] at ended
        cases ended
      cases decision : sniffDecision (bridge.takeRequest 1).upstream with
      | none =>
          refine ⟨.readRequest 1, bridge.takeRequest 1, trivial, ?_⟩
          simp [bridgeNext, here, decision, sniffBytes, Nat.succ_le_of_lt more]
      | some compress =>
          refine ⟨.readRequest 1, (bridge.takeRequest 1).sniffed compress, trivial, ?_⟩
          simp [bridgeNext, here, decision, sniffBytes, Nat.succ_le_of_lt more]
  | copying =>
      by_cases pending : bridge.upstream = []
      · by_cases drained : bridge.request = []
        · have all : bridge.toServer = sent := by
            have conserved := carries.conserved
            rwa [pending, drained, List.append_nil, List.append_nil] at conserved
          by_cases written : bridge.outgoing = []
          · by_cases closed : bridge.responseOver = true
            · exact ⟨.finish, { bridge with phase := .finished }, trivial,
                if_pos ⟨here, closed, written⟩⟩
            · have reading : bridge.readsResponse := ⟨here, by simpa using closed, Or.inr written⟩
              by_cases exhausted : bridge.response = []
              · exact ⟨.endResponse, bridge.closeResponse, all, if_pos ⟨reading, exhausted⟩⟩
              · have more : 0 < bridge.response.length := List.length_pos_iff.mpr exhausted
                exact ⟨.readResponse 1, bridge.takeResponse 1, trivial,
                  if_pos ⟨reading, Nat.one_pos, more, by decide⟩⟩
          · have more : 0 < bridge.outgoing.length := List.length_pos_iff.mpr written
            exact ⟨.writeResponse 1, bridge.giveClient 1, trivial,
              if_pos ⟨here, Nat.one_pos, more⟩⟩
        · have more : 0 < bridge.request.length := List.length_pos_iff.mpr drained
          have undrained : bridge.requestDrained = false := carries.undrained more le_rfl
          refine ⟨.readRequest 1, bridge.takeRequest 1, trivial, ?_⟩
          simp [bridgeNext, here, undrained, Nat.succ_le_of_lt more]
      · have more : 0 < bridge.upstream.length := List.length_pos_iff.mpr pending
        refine ⟨.writeRequest 1, bridge.giveServer 1, trivial, ?_⟩
        simp [bridgeNext, here, Nat.succ_le_of_lt more]

/-- Every orderly run carries the request. -/
theorem carries_of_orderly {halfClosed : Bool} (asks : Asks sent)
    (run : Run bridgeNext (Orderly sent) (initial sent halfClosed whole : Bridge gzip) bridge) :
    bridge.Carries sent :=
  run.invariant (Carries sent) (carries_initial halfClosed)
    fun _ _ _ orderly carries stepped => carries.step asks orderly stepped

/-- Every orderly run can be continued until the bridge has finished. -/
theorem exists_finished (asks : Asks sent) (carries : bridge.Carries sent) :
    ∃ ended, Run bridgeNext (Orderly sent) bridge ended ∧ ended.phase = .finished := by
  obtain ⟨ended, run, _, finished⟩ := exists_run_goal (fun bridge => bridge.phase = .finished)
    wellFounded_bridgeNext
    (fun _ _ _ orderly carries stepped => carries.step asks orderly stepped)
    (fun _ carries unfinished => carries.enabled asks unfinished) bridge carries
  exact ⟨ended, run, finished⟩

/-- What an orderly bridge has done when it has finished. -/
structure Transparent (sent whole : Bytes) (bridge : Bridge gzip) : Prop where
  forwarded : bridge.toServer = sent
  compressed : bridge.encoder.isSome = true
  enveloped : ∃ chunks : List Bytes, chunks.flatten = whole ∧
    bridge.toClient = magic ++ gzip.stream chunks

/-- A finished bridge has carried both streams to their ends. -/
theorem Carries.transparent (lawful : gzip.Lawful) {chunks : List Bytes}
    (carries : bridge.Carries sent) (accounted : bridge.Accounted whole chunks)
    (finished : bridge.phase = .finished) : bridge.Transparent sent whole := by
  obtain ⟨closed, written⟩ := carries.closed finished
  have compressed : bridge.encoder.isSome = true := by
    apply carries.compresses
    rw [finished]
    exact Phase.noConfusion
  obtain ⟨encoder, coder⟩ := Option.isSome_iff_exists.mp compressed
  constructor
  · exact carries.answered closed
  · exact compressed
  · refine ⟨chunks, ?_, ?_⟩
    · rw [← accounted.read, accounted.closed closed, List.append_nil]
    · have delivered := accounted.coded encoder coder closed
      rwa [written, List.append_nil, announced_of_ne_nil (lawful.stream_ne_nil chunks)] at delivered

/-- What was delivered decodes to what the server wrote, and the client makes of
it what it would make of that, if neither is too long. -/
theorem Transparent.received (lawful : gzip.Lawful) (transparent : bridge.Transparent sent whole)
    (bounded : whole.length ≤ maxResponseBytes)
    (boundedWire : bridge.toClient.length ≤ maxResponseBytes) :
    decode gzip bridge.toClient = .ok whole ∧
      ∀ bits method, requestResult gzip bits method bridge.toClient =
        some ((parseResponse bits whole (method ≠ "HEAD".toList)).mapError .malformed) := by
  obtain ⟨chunks, rfl, delivered⟩ := transparent.enveloped
  rw [← envelope_eq lawful] at delivered
  rw [delivered] at boundedWire ⊢
  constructor
  · exact decode_envelope lawful bounded
  · intro bits method
    rw [requestResult, readToEnd, if_pos boundedWire, Option.map_some,
      receive_envelope lawful bounded]

end Bridge

/-- Every orderly run of a bridge with a request this client builds can be
continued until it has finished.  It compresses, the server has been given
exactly what was built when it has finished, and the client then receives what
the server wrote. -/
theorem transparent_of_buildRequest (lawful : gzip.Lawful) {req : Request} {sent whole : Bytes}
    {halfClosed : Bool} {bridge : Bridge gzip} (built : buildRequest req = .ok sent)
    (method : ¬ crlf <:+: req.method) (short : ∃ n, headEnd sent = some n ∧ n ≤ maxHeadBytes)
    (run : Run bridgeNext (Orderly sent) (Bridge.initial sent halfClosed whole) bridge) :
    (∃ ended, Run bridgeNext (Orderly sent) bridge ended ∧ ended.phase = .finished) ∧
      (bridge.phase ≠ .sniffing → bridge.encoder.isSome = true) ∧
      (bridge.phase = .finished → bridge.Transparent sent whole ∧
        (whole.length ≤ maxResponseBytes → bridge.toClient.length ≤ maxResponseBytes →
          decode gzip bridge.toClient = .ok whole ∧
            ∀ bits, requestResult gzip bits req.method bridge.toClient =
              some ((parseResponse bits whole (req.method ≠ "HEAD".toList)).mapError
                .malformed))) := by
  have asks : Asks sent := asks_of_buildRequest built method short
  have carries : bridge.Carries sent := Bridge.carries_of_orderly asks run
  obtain ⟨chunks, accounted⟩ := Bridge.exists_accounted run.reachable
  refine ⟨Bridge.exists_finished asks carries, carries.compresses, fun finished => ?_⟩
  have transparent := carries.transparent lawful accounted finished
  refine ⟨transparent, fun bounded boundedWire => ?_⟩
  obtain ⟨decoded, results⟩ := transparent.received lawful bounded boundedWire
  exact ⟨decoded, fun bits => results bits req.method⟩

/-- The bytes of the sample statement. -/
def plainSent : Bytes :=
  utf8 (headText plainRequest) ++ utf8 "hi".toList

/-- The sample statement is carried to a server that has read all of it and
answers. -/
theorem transparent_plainRequest :
    ∃ ended : Bridge sampleGzip, ended.phase = .finished ∧
      ended.Transparent plainSent twoByteResponse := by
  obtain ⟨accepted, _⟩ := buildRequest_eq_ok_iff.mp buildRequest_plainRequest
  have method : ¬ crlf <:+: plainRequest.method := by decide
  have short : ∃ n, headEnd plainSent = some n ∧ n ≤ maxHeadBytes :=
    ⟨_, headEnd_headText accepted method (utf8 "hi".toList), by decide +kernel⟩
  have start : Run bridgeNext (Orderly plainSent)
      (Bridge.initial plainSent false twoByteResponse : Bridge sampleGzip) _ := Run.refl
  obtain ⟨⟨ended, run, finished⟩, _⟩ :=
    transparent_of_buildRequest lawful_sampleGzip buildRequest_plainRequest method short start
  obtain ⟨_, _, result⟩ :=
    transparent_of_buildRequest lawful_sampleGzip buildRequest_plainRequest method short run
  exact ⟨ended, finished, (result finished).1⟩

end Quackhole.Serve
