import Quackhole.Dial.Call
import Quackhole.Http.Complete
import Mathlib.Data.List.Count

/-!
# At-most-once delivery in the core

The invariant says, for every point at which a request can stop, what the
current attempt has handed to the peer and that the attempt before it handed
over less than the request.  It is preserved by every step, whatever the
transport does and whatever other requests do to the cache.
-/

namespace Quackhole.Dial

open Quackhole.Word
open Quackhole.Transition

variable {Id Conn : Type}

/-- Less than the whole request. -/
def Partial (req stream : Bytes) : Prop :=
  stream <+: req ∧ stream ≠ req

/-- What the attempts before this one have handed over: nothing before the
first, less than the request before the second. -/
def Round.Before (req : Bytes) : Round → List Bytes → Prop
  | .first _, handed => handed = []
  | .second, handed => ∃ stream, handed = [stream] ∧ Partial req stream

/-- What an attempt that came out like this has handed over. -/
def Attempt.Handed (req : Bytes) : Attempt → Bytes → Prop
  | .beforeSend _, stream => Partial req stream
  | .afterSend _, stream => stream = req
  | .response _, stream => stream = req

/-- The current attempt has handed over `stream`, in the given round. -/
def InRound (req : Bytes) (round : Round) (handed : List Bytes) (holds : Bytes → Prop) : Prop :=
  ∃ stream earlier, handed = stream :: earlier ∧ round.Before req earlier ∧ holds stream

/-- What has been handed over at each point of a request. -/
def Phase.Consistent (req : Bytes) : Phase Conn → List Bytes → Prop
  | .begin, handed => handed = []
  | .lookup round, handed => round.Before req handed
  | .connecting round, handed => round.Before req handed
  | .storing round _, handed => round.Before req handed
  | .opening round _, handed => InRound req round handed (· = [])
  | .writing round _ pending, handed =>
      InRound req round handed fun stream => pending ≠ [] ∧ stream ++ pending = req
  | .reading round _, handed => InRound req round handed (· = req)
  | .resolved round _ attempt, handed => InRound req round handed (attempt.Handed req)
  | .done _, handed =>
      ∃ round : Round, round.Before req handed ∨ InRound req round handed (· <+: req)

/-- The invariant of a request. -/
def Call.Consistent (req : Bytes) (call : Call Id Conn) : Prop :=
  call.phase.Consistent req call.handed

theorem InRound.mono {req : Bytes} {round : Round} {handed : List Bytes}
    {holds weaker : Bytes → Prop} (inRound : InRound req round handed holds)
    (weaken : ∀ stream, holds stream → weaker stream) : InRound req round handed weaker := by
  obtain ⟨stream, earlier, shape, before, held⟩ := inRound
  exact ⟨stream, earlier, shape, before, weaken stream held⟩

theorem Attempt.Handed.isPrefix {req stream : Bytes} {attempt : Attempt}
    (handed : attempt.Handed req stream) : stream <+: req := by
  cases attempt with
  | beforeSend message => exact handed.1
  | afterSend message => exact handed ▸ List.prefix_refl _
  | response body => exact handed ▸ List.prefix_refl _

/-- What is pending and what was handed over make the request, also when
nothing is pending any more. -/
theorem consistent_writePhase {req pending : Bytes} {round : Round} {conn : Conn}
    {handed : List Bytes} (split : InRound req round handed fun stream => stream ++ pending = req) :
    (writePhase round conn pending).Consistent req handed := by
  unfold writePhase
  split
  · rename_i finished
    subst finished
    exact split.mono fun stream whole => by simpa using whole
  · rename_i more
    exact split.mono fun stream whole => ⟨more, whole⟩

/-- While something is pending, less than the request was handed over. -/
theorem partial_of_pending {req stream pending : Bytes}
    (split : pending ≠ [] ∧ stream ++ pending = req) : Partial req stream := by
  obtain ⟨more, rfl⟩ := split
  refine ⟨List.prefix_append _ _, fun equal => more ?_⟩
  simpa using equal

variable [DecidableEq Id] {gzip : Codec} {id : Id} {name : Text} {req : Bytes}

/-- Settling an attempt: the second round begins after a partial first one, and
otherwise the request ends. -/
theorem consistent_settle {call : Call Id Conn} {round : Round} {conn : Conn} {attempt : Attempt}
    (here : call.phase = .resolved round conn attempt) (consistent : call.Consistent req) :
    (settle gzip id call round attempt).Consistent req := by
  rw [Call.Consistent, here] at consistent
  have ends : ∀ result, (Phase.done result : Phase Conn).Consistent req call.handed :=
    fun _ => ⟨round, Or.inr (consistent.mono fun _ handed => handed.isPrefix)⟩
  cases round with
  | second => cases attempt <;> exact ends _
  | first reused =>
      cases attempt with
      | response body => exact ends _
      | afterSend message => exact ends _
      | beforeSend message =>
          cases reused with
          | false => exact ends _
          | true =>
              obtain ⟨stream, earlier, shape, before, partly⟩ := consistent
              cases before
              exact ⟨stream, shape, partly⟩

/-- Every step preserves the invariant. -/
theorem Call.Consistent.step {label : Label Id Conn} {call call' : Call Id Conn}
    (nonempty : req ≠ []) (consistent : call.Consistent req)
    (stepped : next gzip id name req label call = some call') : call'.Consistent req := by
  cases moved_of_next stepped with
  | others cache => exact consistent
  | begins here =>
      rw [Call.Consistent, here] at consistent
      exact consistent
  | reuses round conn here cached =>
      rw [Call.Consistent, here] at consistent
      exact ⟨[], call.handed, rfl, consistent, rfl⟩
  | dials round here cached =>
      rw [Call.Consistent, here] at consistent
      exact consistent
  | connects round conn here =>
      rw [Call.Consistent, here] at consistent
      exact consistent
  | unconnected round cause message here =>
      rw [Call.Consistent, here] at consistent
      exact ⟨round, Or.inl consistent⟩
  | stores round conn here =>
      rw [Call.Consistent, here] at consistent
      exact ⟨[], call.handed, rfl, consistent, rfl⟩
  | opens round conn here =>
      rw [Call.Consistent, here] at consistent
      exact consistent_writePhase (consistent.mono fun stream empty => by rw [empty]; rfl)
  | unopened round conn cause message here =>
      rw [Call.Consistent, here] at consistent
      exact consistent.mono fun stream empty => empty ▸ ⟨List.nil_prefix, nonempty.symm⟩
  | accepts round conn pending count here =>
      rw [Call.Consistent, here] at consistent
      obtain ⟨stream, earlier, shape, before, _, whole⟩ := consistent
      refine consistent_writePhase ⟨stream ++ pending.take count, earlier, ?_, before, ?_⟩
      · rw [shape]
        rfl
      · simpa using whole
  | unwritten round conn pending cause message here =>
      rw [Call.Consistent, here] at consistent
      exact consistent.mono fun stream split => partial_of_pending split
  | reads round conn body here =>
      rw [Call.Consistent, here] at consistent
      exact consistent
  | unread round conn cause message here =>
      rw [Call.Consistent, here] at consistent
      exact consistent
  | settles round conn attempt here => exact consistent_settle here consistent

/-- The invariant holds at every point of every run. -/
theorem consistent_of_reachable (nonempty : req ≠ []) {cache : Id → Option Conn}
    {call : Call Id Conn}
    (reachable : Reachable (next gzip id name req) (Call.initial cache) call) :
    call.Consistent req :=
  reachable.invariant (Call.Consistent req) rfl fun _ _ _ _ consistent stepped =>
    consistent.step nonempty stepped

/-! ## What the peer receives -/

/-- What the peer may have been handed: at most two attempts, each a prefix of
the request, all of it at most once, and a second attempt only after a first one
that handed over less than the request. -/
structure AtMostOnce (req : Bytes) (handed : List Bytes) : Prop where
  attempts : handed.length ≤ 2
  prefixes : ∀ stream ∈ handed, stream <+: req
  once : handed.count req ≤ 1
  retried : 1 < handed.length → ∃ first, handed.getLast? = some first ∧ Partial req first

/-- In every phase the attempts made are those of some round. -/
theorem Phase.Consistent.round {phase : Phase Conn} {handed : List Bytes}
    (consistent : phase.Consistent req handed) :
    ∃ round : Round, round.Before req handed ∨ InRound req round handed (· <+: req) := by
  cases phase with
  | begin => exact ⟨.first false, Or.inl consistent⟩
  | lookup round => exact ⟨round, Or.inl consistent⟩
  | connecting round => exact ⟨round, Or.inl consistent⟩
  | storing round conn => exact ⟨round, Or.inl consistent⟩
  | opening round conn =>
      exact ⟨round, Or.inr (consistent.mono fun _ empty => empty ▸ List.nil_prefix)⟩
  | writing round conn pending =>
      exact ⟨round, Or.inr (consistent.mono fun _ split => (partial_of_pending split).1)⟩
  | reading round conn =>
      exact ⟨round, Or.inr (consistent.mono fun _ whole => whole ▸ List.prefix_refl _)⟩
  | resolved round conn attempt =>
      exact ⟨round, Or.inr (consistent.mono fun _ handed => handed.isPrefix)⟩
  | done result => exact consistent

theorem Partial.atMostOnce {first : Bytes} (partly : Partial req first) :
    AtMostOnce req [first] where
  attempts := by simp
  prefixes stream member := by
    rw [List.mem_singleton.mp member]
    exact partly.1
  once := by simp [partly.2]
  retried two := absurd two (by simp)

theorem atMostOnce_of_round {round : Round} {handed : List Bytes}
    (made : round.Before req handed ∨ InRound req round handed (· <+: req)) :
    AtMostOnce req handed := by
  rcases made with before | ⟨stream, earlier, rfl, before, isPrefix⟩
  · cases round with
    | first reused =>
        cases before
        exact ⟨by simp, by simp, by simp, by simp⟩
    | second =>
        obtain ⟨first, rfl, partly⟩ := before
        exact partly.atMostOnce
  · cases round with
    | first reused =>
        cases before
        refine ⟨by simp, fun other member => ?_, ?_, by simp⟩
        · rw [List.mem_singleton.mp member]
          exact isPrefix
        · exact List.count_le_length
    | second =>
        obtain ⟨first, rfl, partly⟩ := before
        refine ⟨by simp, fun other member => ?_, ?_, fun _ => ⟨first, rfl, partly⟩⟩
        · rcases List.mem_cons.mp member with rfl | old
          · exact isPrefix
          · rw [List.mem_singleton.mp old]
            exact partly.1
        · rw [List.count_cons, List.count_singleton, if_neg (by simpa using partly.2)]
          split <;> omega

/-- A server that acts on complete requests acts at most once. -/
theorem AtMostOnce.executed {handed : List Bytes} {complete : Bytes → Bool}
    (delivered : AtMostOnce req handed)
    (whole : ∀ stream, stream <+: req → complete stream = true → stream = req) :
    handed.countP complete ≤ 1 := by
  refine le_trans ?_ delivered.once
  rw [List.count]
  refine List.countP_mono_left fun stream member completed => ?_
  simpa using whole stream (delivered.prefixes stream member) completed

/-- However the transport fails and whatever happens to the cache: there are at
most two attempts, the peer is handed the whole request at most once, a second
attempt follows only a partial first one, and no partial request is complete, so
the statement is executed at most once. -/
theorem atMostOnce_of_reachable {request : Http.Request}
    (built : Http.buildRequest request = .ok req) (tokens : Http.UsesTokens request)
    {cache : Id → Option Conn} {call : Call Id Conn}
    (reachable : Reachable (next gzip id name req) (Call.initial cache) call) :
    AtMostOnce req call.handed ∧
      (∀ stream, Partial req stream → Http.isComplete stream = false) ∧
      call.handed.countP Http.isComplete ≤ 1 := by
  have only : ∀ stream, stream <+: req → (Http.isComplete stream = true ↔ stream = req) :=
    fun stream isPrefix => Http.isComplete_prefix_iff built tokens.noSmuggling isPrefix
  have consistent := consistent_of_reachable (Http.buildRequest_ne_nil built) reachable
  obtain ⟨round, made⟩ := consistent.round
  have delivered := atMostOnce_of_round made
  refine ⟨delivered, fun stream partly => ?_, delivered.executed fun stream isPrefix =>
    (only stream isPrefix).mp⟩
  rw [Bool.eq_false_iff, ne_eq, only stream partly.1]
  exact partly.2

/-- A stale connection is found in the cache, the stream cannot be opened, and
the transport has taken five bytes of the second attempt. -/
def redialLabels : List (Label Nat Nat) :=
  [.proceed, .proceed, .openBi (.error "closed".toList), .proceed, .proceed, .connect (.ok 1),
    .proceed, .openBi (.ok ()), .accept 5]

theorem atMostOnce_redial :
    let req := utf8 (Http.headText Http.plainRequest) ++ utf8 "hi".toList
    AtMostOnce req [req.take 5, []] ∧
      (∀ stream, Partial req stream → Http.isComplete stream = false) ∧
      [req.take 5, []].countP Http.isComplete ≤ 1 := by
  intro req
  have redialled : exec (next Compress.sampleGzip 7 "peer".toList req) redialLabels
      (Call.initial fun _ => some 0) =
        some ⟨Function.update (Function.update (fun _ => some 0) 7 none) 7 (some 1),
          .writing .second 1 (req.drop 5), [req.take 5, []]⟩ := rfl
  exact atMostOnce_of_reachable Http.buildRequest_plainRequest ⟨by decide, by decide⟩
    (reachable_of_exec redialled)

end Quackhole.Dial
