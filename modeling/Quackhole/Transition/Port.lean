import Mathlib.Data.List.Basic

/-!
# Ports that keep the order

A port delivers messages in the order they were posted.  It is modelled by
everything that was ever posted to it and the number of messages delivered, so
that what was posted before a given message can be spoken of in every later
state.
-/

namespace Quackhole.Transition

universe u v

/-- A port: what was posted to it, of which the first `received` are delivered. -/
structure Port (α : Type u) where
  posted : List α := []
  received : Nat := 0

namespace Port

variable {α : Type u} {β : Type v} (port : Port α)

def post (message : α) : Port α :=
  { port with posted := port.posted ++ [message] }

/-- The message that is delivered next. -/
def next? : Option α :=
  port.posted[port.received]?

/-- Deliver the next message. -/
def receive : Port α :=
  { port with received := port.received + 1 }

/-- What has been delivered. -/
def delivered : List α :=
  port.posted.take port.received

variable {port} {message : α}

theorem received_le_of_next? (waiting : port.next? = some message) :
    port.received + 1 ≤ port.posted.length :=
  (List.getElem?_eq_some_iff.mp waiting).1

theorem delivered_receive (waiting : port.next? = some message) :
    port.receive.delivered = port.delivered ++ [message] := by
  rw [delivered, receive, List.take_add_one]
  dsimp only
  rw [show port.posted[port.received]? = some message from waiting]
  rfl

/-- What stands in front of a message is settled when the message is posted. -/
theorem take_post {n : Nat} (inside : n ≤ port.posted.length) :
    (port.post message).posted.take n = port.posted.take n :=
  List.take_append_of_le_length inside

theorem delivered_post (inside : port.received ≤ port.posted.length) :
    (port.post message).delivered = port.delivered :=
  take_post inside

theorem getElem?_post {n : Nat} {earlier : α} (found : port.posted[n]? = some earlier) :
    (port.post message).posted[n]? = some earlier := by
  have inside := (List.getElem?_eq_some_iff.mp found).1
  rw [post, List.getElem?_append_left inside]
  exact found

/-- A message of a port was there before, or is the one just posted. -/
theorem getElem?_post_cases {n : Nat} {found : α}
    (there : (port.post message).posted[n]? = some found) :
    port.posted[n]? = some found ∨ n = port.posted.length ∧ found = message := by
  rw [post, List.getElem?_append] at there
  split at there
  · exact Or.inl there
  · rename_i outside
    rw [List.getElem?_singleton] at there
    split at there
    · rename_i last
      cases there
      exact Or.inr ⟨by omega, rfl⟩
    · cases there

end Port

end Quackhole.Transition
