import Quackhole.Ticket.Peer

/-!
# Finding a ticket in a text

A ticket stands wherever the marker is followed by a ticket character.  The
search looks at the first marker only, so a marker in the prose around a ticket
hides the ticket.
-/

namespace Quackhole.Ticket

open Quackhole.Word

/-- A ticket stands at offset `i` of the text: the marker, and a ticket
character after it. -/
def TicketAt (text : Text) (i : Nat) : Prop :=
  OccursAt ticketMarker text i ∧
    ∃ c ∈ (text.drop (i + ticketMarker.length)).head?, Base64.IsUrlSafe c

/-- The marker at offset `i` with the ticket characters after it, as far as they
go. -/
def ticketFrom (text : Text) (i : Nat) : Text :=
  ticketMarker ++
    (text.drop (i + ticketMarker.length)).takeWhile fun c => decide (Base64.IsUrlSafe c)

/-- The search returns the leftmost ticket, and nothing where there is none. -/
def FindsTicket (text : Text) : Prop :=
  (∀ i, TicketAt text i → (∀ j < i, ¬ TicketAt text j) →
    findTicket text = some (ticketFrom text i)) ∧
  ((∀ i, ¬ TicketAt text i) → findTicket text = none)

/-- The first marker of the text is not that of a ticket, and a later one is. -/
def FalseStart (text : Text) : Prop :=
  ∃ i j, OccursAt ticketMarker text i ∧ (∀ k < i, ¬ OccursAt ticketMarker text k) ∧
    ¬ TicketAt text i ∧ TicketAt text j

theorem ticketMarker_ne_nil : ticketMarker ≠ [] := by
  decide

/-- A run of ticket characters is empty where another character comes first. -/
theorem takeWhile_ne_nil_iff {text : Text} :
    text.takeWhile (fun c => decide (Base64.IsUrlSafe c)) ≠ [] ↔
      ∃ c ∈ text.head?, Base64.IsUrlSafe c := by
  cases text with
  | nil => simp
  | cons c text =>
      by_cases safe : Base64.IsUrlSafe c
      · simp [safe]
      · simp [safe]

/-- What the search makes of the first marker. -/
theorem findTicket_of_first {text : Text} {i : Nat} (occurs : OccursAt ticketMarker text i)
    (first : ∀ k < i, ¬ OccursAt ticketMarker text k) :
    (TicketAt text i → findTicket text = some (ticketFrom text i)) ∧
      (¬ TicketAt text i → findTicket text = none) := by
  have found : findWord ticketMarker text = some i :=
    (findWord_eq_some_iff ticketMarker_ne_nil).mpr ⟨occurs, first⟩
  have chars : (fun c : Char => c.isAlphanum || c == '-' || c == '_') =
      fun c => decide (Base64.IsUrlSafe c) := by
    funext c
    rw [Bool.eq_iff_iff, decide_eq_true_iff]
    exact ticketChar_iff c
  have search : findTicket text =
      let run := (text.drop (i + ticketMarker.length)).takeWhile fun c =>
        decide (Base64.IsUrlSafe c)
      if run.isEmpty then none
      else some ((text.drop i).take (ticketMarker.length + run.length)) := by
    rw [findTicket, found, Option.bind_some, chars]
  constructor
  · rintro ⟨-, follows⟩
    have nonempty := takeWhile_ne_nil_iff.mpr follows
    rcases occurs with ⟨rest, shape⟩
    have after : text.drop (i + ticketMarker.length) = rest := by
      rw [← List.drop_drop, ← shape, List.drop_left]
    rw [after] at nonempty
    rw [search, ticketFrom, after, ← shape]
    simp only [List.isEmpty_iff, if_neg nonempty, List.take_length_add_append]
    rw [← List.prefix_iff_eq_take.mp (List.takeWhile_prefix _)]
  · intro other
    have empty : ¬ ∃ c ∈ (text.drop (i + ticketMarker.length)).head?, Base64.IsUrlSafe c :=
      fun follows => other ⟨occurs, follows⟩
    have stops := not_not.mp (mt takeWhile_ne_nil_iff.mp empty)
    rw [search, stops]
    rfl

/-- A property of offsets that holds of one has a first one. -/
theorem exists_first {p : Nat → Prop} {j : Nat} (holds : p j) :
    ∃ i ≤ j, p i ∧ ∀ k < i, ¬ p k := by
  classical
  have some : ∃ i, p i := ⟨j, holds⟩
  exact ⟨Nat.find some, Nat.find_min' some holds, Nat.find_spec some, fun k => Nat.find_min some⟩

/-- The leftmost ticket of a text is found unless a marker that is not that of a
ticket comes first. -/
theorem findsTicket_iff (text : Text) : FindsTicket text ↔ ¬ FalseStart text := by
  constructor
  · rintro ⟨leftmost, -⟩ ⟨i, j, occurs, first, other, ticket⟩
    rcases exists_first ticket with ⟨k, -, earliest, least⟩
    have found := leftmost k earliest least
    rw [(findTicket_of_first occurs first).2 other] at found
    cases found
  · intro honest
    constructor
    · intro i ticket least
      rcases exists_first ticket.1 with ⟨k, before, occurs, first⟩
      have shown : TicketAt text k := by
        by_contra other
        exact honest ⟨k, i, occurs, first, other, ticket⟩
      have same : k = i := by
        by_contra different
        exact least k (lt_of_le_of_ne before different) shown
      rw [same] at occurs first
      exact (findTicket_of_first occurs first).1 ticket
    · intro absent
      cases found : findWord ticketMarker text with
      | none => rw [findTicket, found, Option.bind_none]
      | some i =>
          rcases (findWord_eq_some_iff ticketMarker_ne_nil).mp found with ⟨occurs, first⟩
          exact (findTicket_of_first occurs first).2 (absent i)

/-- A sentence that names the marker before it comes to the ticket. -/
def ticketSentence : Text :=
  "it starts with qh1_… and reads qh1_eyJlIjoi".toList

theorem not_findsTicket_sentence : ¬ FindsTicket ticketSentence := by
  rintro ⟨leftmost, -⟩
  have occurs : ticketMarker <+: ticketSentence.drop 31 := by decide +kernel
  have ticket : TicketAt ticketSentence 31 :=
    ⟨occurs, 'e', by decide, by decide⟩
  rcases exists_first ticket with ⟨k, -, earliest, least⟩
  have found := leftmost k earliest least
  have unfound : findTicket ticketSentence = none := by decide +kernel
  rw [unfound] at found
  cases found

end Quackhole.Ticket
