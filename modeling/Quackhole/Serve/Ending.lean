import Quackhole.Serve.Bridge
import Mathlib.Order.WellFounded
import Mathlib.Data.Prod.Lex

/-!
# Every bridge ends

A step of a bridge moves on, reads, or writes.  What is left to read and to
decide goes down with each of the first two kinds, and a write leaves it alone
and shortens what is outgoing, so no bridge runs forever on a request and a
response of finite length.
-/

namespace Quackhole.Serve

open Quackhole.Word
open Quackhole.Compress
open Quackhole.Transition

variable {gzip : Codec}

/-- How many times the phase can still change. -/
def Phase.rank : Phase → Nat
  | .sniffing => 4
  | .connecting => 3
  | .forwarding => 2
  | .copying => 1
  | .finished => 0
  | .failed _ => 0

/-- What is left to read, to forward and to decide. -/
def Bridge.remaining (bridge : Bridge gzip) : Nat :=
  bridge.phase.rank + 2 * bridge.request.length + bridge.upstream.length +
    bridge.response.length + (!bridge.requestDrained).toNat + (!bridge.responseOver).toNat

/-- The measure of a bridge: what is left, and then what is outgoing. -/
def Bridge.measure (bridge : Bridge gzip) : Nat ×ₗ Nat :=
  toLex (bridge.remaining, bridge.outgoing.length)

theorem remaining_takeRequest {bridge : Bridge gzip} {count : Nat} (positive : 0 < count)
    (fits : count ≤ bridge.request.length) :
    (bridge.takeRequest count).remaining < bridge.remaining := by
  simp only [Bridge.remaining, Bridge.takeRequest, List.length_drop, List.length_append,
    List.length_take]
  omega

theorem remaining_giveServer {bridge : Bridge gzip} {count : Nat} (positive : 0 < count)
    (fits : count ≤ bridge.upstream.length) :
    (bridge.giveServer count).remaining < bridge.remaining := by
  simp only [Bridge.remaining, Bridge.giveServer, List.length_drop]
  omega

/-- A later phase leaves less to do. -/
theorem remaining_phase {bridge : Bridge gzip} {phase : Phase}
    (later : phase.rank < bridge.phase.rank) :
    Bridge.remaining { bridge with phase } < bridge.remaining := by
  simp only [Bridge.remaining]
  omega

theorem remaining_sniffed {bridge : Bridge gzip} (here : bridge.phase = .sniffing)
    (compress : Bool) : (bridge.sniffed compress).remaining < bridge.remaining := by
  simp only [Bridge.remaining, Bridge.sniffed, here, Phase.rank]
  omega

theorem remaining_forward {bridge : Bridge gzip} (started : 2 ≤ bridge.phase.rank) :
    bridge.forward.remaining ≤ bridge.remaining := by
  have earlier : (if bridge.upstream = [] then Phase.copying else .forwarding).rank ≤ 2 := by
    split <;> simp [Phase.rank]
  simp only [Bridge.remaining, Bridge.forward]
  omega

theorem remaining_takeResponse {bridge : Bridge gzip} {count : Nat} (positive : 0 < count)
    (fits : count ≤ bridge.response.length) :
    (bridge.takeResponse count).remaining < bridge.remaining := by
  simp only [Bridge.remaining, Bridge.takeResponse, List.length_drop]
  omega

theorem remaining_closeResponse {bridge : Bridge gzip} (undone : bridge.responseOver = false) :
    bridge.closeResponse.remaining < bridge.remaining := by
  simp [Bridge.remaining, Bridge.closeResponse, undone]

/-- Every step leaves less to do, or the same and less outgoing. -/
theorem measure_decreases {label : Label} {bridge bridge' : Bridge gzip}
    (stepped : bridgeNext label bridge = some bridge') : bridge'.measure < bridge.measure := by
  rw [Bridge.measure, Bridge.measure, Prod.Lex.toLex_lt_toLex]
  cases moved_of_bridgeNext stepped with
  | delivers count here positive fits =>
      right
      constructor
      · rfl
      · simp only [Bridge.giveClient, List.length_drop]
        omega
  | sniffs count here undecided positive fits =>
      exact Or.inl (remaining_takeRequest positive fits)
  | copies count here undrained positive fits =>
      exact Or.inl (remaining_takeRequest positive fits)
  | decides count compress here decided positive fits =>
      have taken : (bridge.takeRequest count).phase = .sniffing := here
      exact Or.inl ((remaining_sniffed taken compress).trans (remaining_takeRequest positive fits))
  | sniffsEnd here => exact Or.inl (remaining_sniffed here false)
  | connects here =>
      left
      unfold Bridge.forward
      apply remaining_phase
      rw [here]
      split <;> simp [Phase.rank]
  | forwards count here positive fits =>
      have started : 2 ≤ (bridge.giveServer count).phase.rank := by
        simp [Bridge.giveServer, here, Phase.rank]
      exact Or.inl ((remaining_forward started).trans_lt (remaining_giveServer positive fits))
  | writes count here positive fits =>
      exact Or.inl (remaining_giveServer positive fits)
  | drains here exhausted written undrained =>
      left
      simp [Bridge.remaining, undrained]
  | reads count reading positive fits =>
      exact Or.inl (remaining_takeResponse positive fits)
  | ends reading => exact Or.inl (remaining_closeResponse reading.2.1)
  | responseBreaks reading =>
      left
      apply remaining_phase
      simp [reading.1, Phase.rank]
  | refused here | forwardBreaks here | copyBreaks here | finishes here =>
      left
      apply remaining_phase
      simp [here, Phase.rank]

/-- No bridge takes steps forever. -/
theorem wellFounded_bridgeNext :
    WellFounded fun bridge' bridge : Bridge gzip =>
      ∃ label, bridgeNext label bridge = some bridge' := by
  apply Subrelation.wf (r := InvImage (· < ·) Bridge.measure)
  · rintro bridge' bridge ⟨label, stepped⟩
    exact measure_decreases stepped
  · exact InvImage.wf Bridge.measure wellFounded_lt

end Quackhole.Serve
