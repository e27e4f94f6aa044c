import Quackhole.Transition.Fair
import Quackhole.Web.Prompt

/-!
# A call that has the time it needs

Every step but a wait brings the running call closer to its end, and a call that
is waiting has somebody to wait for: whatever the two workers are offered to do,
fairly, it ends with what its request came to.
-/

namespace Quackhole.Web

open Quackhole.Word
open Quackhole.Transition

/-! ## What is left to do -/

/-- The steps it takes to write a chunk and to hear it. -/
def Chunk.cost (chunk : Chunk) : Nat :=
  2 * chunk.bytes.length + 13

def cost : List Chunk → Nat
  | [] => 0
  | chunk :: chunks => chunk.cost + cost chunks

/-- What a list of requests weighs. -/
def weigh (weight : Nat → Nat) : List Nat → Nat
  | [] => 0
  | request :: requests => weight request + weigh weight requests

theorem weigh_concat (weight : Nat → Nat) (requests : List Nat) (request : Nat) :
    weigh weight (requests ++ [request]) = weigh weight requests + weight request := by
  induction requests with
  | nil => exact Nat.add_comm _ _
  | cons first requests ih =>
      rw [List.cons_append, weigh, weigh, ih, Nat.add_assoc]

/-- A request that is taken out takes its weight with it. -/
theorem weigh_erase (weight : Nat → Nat) {requests : List Nat} {request : Nat}
    (member : request ∈ requests) :
    weight request + weigh weight (requests.erase request) = weigh weight requests := by
  induction requests with
  | nil => cases member
  | cons first requests ih =>
      by_cases equal : first = request
      · rw [equal, List.erase_cons_head, weigh]
      · have later := ih ((List.mem_cons.mp member).resolve_left fun same => equal same.symm)
        rw [List.erase_cons_tail (by simpa using equal), weigh, weigh]
        omega

/-- What is left of the handler that is writing. -/
def BridgePhase.work : BridgePhase → Nat
  | .parked => 0
  | .polling job => job.chunk.cost + cost job.rest
  | .filling job count => 2 * job.chunk.bytes.length + 12 - count + cost job.rest
  | .storeLen job => job.chunk.bytes.length + 11 + cost job.rest
  | .storeFlags job => job.chunk.bytes.length + 10 + cost job.rest
  | .publishing job => job.chunk.bytes.length + 9 + cost job.rest

/-- The shim is in its inner loop. -/
def ShimPhase.waits : ShimPhase → Bool
  | .polling => true
  | .timing => true
  | _ => false

namespace World

variable {config : Config} {world world' : World}

/-- The cost of the reply to a request. -/
def replyCost (config : Config) (request : Nat) : Nat :=
  cost ((config.replies request).chunks config.limit)

/-- The work in requests that wait to be delivered or to be answered. -/
def queued (config : Config) (inbox pending : List Nat) : Nat :=
  weigh (replyCost config · + 2) inbox + weigh (replyCost config · + 1) pending

/-- What is left for the bridge to do. -/
def backlog (config : Config) (world : World) : Nat :=
  queued config world.inbox world.pending + world.bridge.work

/-- How much of the data region the buffered chunk takes. -/
def size (world : World) : Nat :=
  world.buffer.bytes.length

/-- What it takes to hear the buffered chunk. -/
def bufferWork (world : World) : Nat :=
  if world.state = .idle then 0 else world.size + 7

/-- What is left for the shim to do about the buffer, or before there is any. -/
def shimWork (config : Config) (world : World) : Nat :=
  match world.shim with
  | .outside => 0
  | .posting => replyCost config world.results.length + 3
  | .polling => world.bufferWork
  | .timing => if world.state = .idle then 0 else world.bufferWork + 1
  | .loadState => world.size + 6
  | .loadFlags _ => world.size + 5
  | .loadLen _ _ => world.size + 4
  | .slicing _ _ _ copied => world.size + 3 - copied.length
  | .releasing _ => 2
  | .reacting _ => world.bufferWork + 1

/-- What is left to do until the running call ends. -/
def work (config : Config) (world : World) : Nat :=
  world.backlog config + world.shimWork config

/-- What the shim waits for while the buffer is free. -/
def awaited (world : World) : Label :=
  match world.bridge with
  | .parked =>
      if world.results.length ∈ world.pending then .settle world.results.length else .deliver
  | _ => .bridge

/-- Whose turn it is to bring the running call on. -/
def helpful (world : World) : Label :=
  if world.shim.waits = true ∧ world.state = .idle then world.awaited else .shim

/-- The step ends the call, or leaves less to do, or is not the one that is
waited for and changes nothing about that. -/
def Advances (config : Config) (label : Label) (world world' : World) : Prop :=
  world'.shim = .outside ∨ world'.work config < world.work config ∨
    world'.work config = world.work config ∧ world'.helpful = world.helpful ∧
      label ≠ world.helpful

/-- A step of the shim that leaves it less to do. -/
theorem advances_of_shimWork {label : Label} (backlog : world'.backlog config = world.backlog config)
    (less : world'.shimWork config < world.shimWork config) :
    Advances config label world world' :=
  Or.inr (Or.inl (by unfold work; omega))

/-- A step of the bridge that leaves it less to do. -/
theorem advances_of_backlog {label : Label}
    (shimWork : world'.shimWork config = world.shimWork config)
    (less : world'.backlog config < world.backlog config) :
    Advances config label world world' :=
  Or.inr (Or.inl (by unfold work; omega))

/-! ## The steps of the shim -/

theorem awaited_ne_shim (world : World) : world.awaited ≠ .shim := by
  unfold awaited
  cases world.bridge with
  | parked =>
      by_cases settling : world.results.length ∈ world.pending
      · simp [settling]
      · simp [settling]
  | polling | filling | storeLen | storeFlags | publishing => exact Label.noConfusion

/-- The shim goes around its inner loop while the buffer is free. -/
theorem advances_idle {shim before : ShimPhase} (here : world.shim = before)
    (waited : before.waits = true) (waits : shim.waits = true) (idle : world.state = .idle) :
    Advances config .shim world (world.shimTo shim) := by
  have free : ∀ {shim : ShimPhase}, shim.waits = true →
      (world.shimTo shim).shimWork config = 0 := by
    intro shim waits
    cases shim <;> simp_all [shimWork, shimTo, bufferWork, ShimPhase.waits]
  have before : world.shimWork config = 0 := by
    have same := free waited
    rw [← here] at same
    exact same
  have turn : world.helpful = world.awaited := by
    rw [helpful, here]
    exact if_pos ⟨waited, idle⟩
  have next : (world.shimTo shim).helpful = world.awaited := if_pos ⟨waits, idle⟩
  right
  right
  rw [work, work, free waits, before, turn, next]
  exact ⟨rfl, rfl, (awaited_ne_shim world).symm⟩

theorem advances_waits (here : world.shim = .timing) :
    Advances config .shim world (world.shimTo .polling) := by
  by_cases idle : world.state = .idle
  · exact advances_idle here rfl rfl idle
  · apply advances_of_shimWork
    · rfl
    · simp only [shimWork, shimTo, here, if_neg idle]
      exact Nat.lt_succ_self _

theorem advances_slices {state : Signal} {flags len : Nat} {copied : Bytes} {byte : UInt8}
    (sound : world.Sound config) (here : world.shim = .slicing state flags len copied)
    (more : copied.length < min len world.data.length) :
    Advances config .shim world
      (world.shimTo (.slicing state flags len (copied ++ [byte]))) := by
  have reads := sound.reads
  rw [Reads, here] at reads
  obtain ⟨_, _, _, rfl, _⟩ := reads
  have bound : world.size = min world.len world.data.length := List.length_take
  apply advances_of_shimWork
  · rfl
  · simp only [shimWork, here, shimTo, List.length_append, List.length_singleton]
    change world.size + 3 - _ < _
    omega

theorem advances_sliced {state : Signal} {flags len : Nat} {copied : Bytes} {payload : Chunk}
    (sound : world.Sound config) (here : world.shim = .slicing state flags len copied) :
    Advances config .shim world (world.shimTo (.releasing payload)) := by
  have reads := sound.reads
  rw [Reads, here] at reads
  obtain ⟨_, _, _, rfl, within, _⟩ := reads
  have bound : world.size = min world.len world.data.length := List.length_take
  apply advances_of_shimWork
  · rfl
  · simp only [shimWork, here, shimTo]
    omega

/-- Posting a request hands it over to the bridge. -/
theorem advances_posts (sound : world.Sound config) (here : world.shim = .posting) :
    Advances config .shim world
      { world with inbox := world.inbox ++ [world.results.length], shim := .polling } := by
  have idle := (sound.fresh here).1
  right
  left
  simp only [work, backlog, queued, shimWork, here, bufferWork, idle, weigh_concat, if_true]
  omega

/-! ## The steps of the bridge -/

/-- While the buffer is free, nothing in it makes work for the shim. -/
theorem shimWork_of_idle {len flags : Nat} {data : Bytes} {inbox pending : List Nat}
    {bridge : BridgePhase} (sound : world.Sound config) (idle : world.state = .idle) :
    ({ world with len, flags, data, inbox, pending, bridge } : World).shimWork config =
      world.shimWork config := by
  have reads := sound.reads
  unfold Reads at reads
  cases here : world.shim <;> simp_all [shimWork, bufferWork]

/-- A step of the handler that is writing leaves it less to do. -/
theorem advances_writes {len flags : Nat} {data : Bytes} {bridge : BridgePhase}
    (sound : world.Sound config) (idle : world.state = .idle)
    (less : bridge.work < world.bridge.work) :
    Advances config .bridge world { world with len, flags, data, bridge } := by
  apply advances_of_backlog
  · exact shimWork_of_idle sound idle
  · exact Nat.add_lt_add_left less _

theorem advances_delivers {request : Nat} {inbox : List Nat}
    (posted : world.inbox = request :: inbox) :
    Advances config .deliver world
      { world with inbox, pending := world.pending ++ [request] } := by
  apply advances_of_backlog
  · rfl
  · simp only [backlog, queued, posted, weigh, weigh_concat]
    omega

/-- The work of a handler that makes these calls. -/
theorem work_writeChunks (request : Nat) (chunks : List Chunk) :
    (writeChunks request chunks).work = cost chunks := by
  cases chunks with
  | nil => rfl
  | cons chunk rest => simp [writeChunks, BridgePhase.work, cost]

theorem advances_settles {request : Nat} (parked : world.bridge = .parked)
    (waiting : request ∈ world.pending) :
    Advances config (.settle request) world
      { world with
        pending := world.pending.erase request
        bridge := writeChunks request ((config.replies request).chunks config.limit) } := by
  have total := weigh_erase (replyCost config · + 1) waiting
  have less : queued config world.inbox (world.pending.erase request) +
      replyCost config request < queued config world.inbox world.pending := by
    unfold queued
    omega
  apply advances_of_backlog
  · rfl
  · rw [backlog, backlog, work_writeChunks, parked]
    exact less

/-- A chunk that is put into the free buffer makes this much work for the shim. -/
theorem shimWork_le_of_idle (state : Signal) (bridge : BridgePhase) (sound : world.Sound config)
    (idle : world.state = .idle) :
    ({ world with state, bridge } : World).shimWork config ≤
      world.shimWork config + world.size + 8 := by
  have reads := sound.reads
  have full : ∀ shim, ({ world with state, bridge, shim } : World).bufferWork ≤ world.size + 7 := by
    intro shim
    unfold bufferWork
    split
    · exact Nat.zero_le _
    · exact Nat.le_refl _
  unfold Reads at reads
  cases here : world.shim with
  | outside => exact Nat.zero_le _
  | posting =>
      simp only [shimWork, here]
      omega
  | polling =>
      have bound := full .polling
      simp only [shimWork, here]
      omega
  | timing =>
      have bound := full .timing
      simp only [shimWork, here]
      split <;> omega
  | reacting payload =>
      have bound := full (.reacting payload)
      simp only [shimWork, here]
      omega
  | loadState | loadFlags | loadLen | slicing | releasing =>
      simp only [here, idle, ne_eq, not_true_eq_false, false_and] at reads

/-- A published chunk is one that the shim has to hear. -/
theorem advances_publishes {job : Job} (sound : world.Sound config)
    (here : world.bridge = .publishing job) :
    Advances config .bridge world
      { world with state := job.chunk.state, bridge := writeChunks job.request job.rest } := by
  have fills := sound.fills
  rw [Fills, here] at fills
  obtain ⟨idle, _, written, _⟩ := fills
  have taken : world.size = job.chunk.bytes.length := by
    rw [size, buffer, written]
  have heard := shimWork_le_of_idle job.chunk.state (writeChunks job.request job.rest) sound idle
  have before : world.backlog config = queued config world.inbox world.pending +
      (job.chunk.bytes.length + 9 + cost job.rest) := by
    rw [backlog, here]
    rfl
  have after : ({ world with
      state := job.chunk.state, bridge := writeChunks job.request job.rest } : World).backlog
        config = queued config world.inbox world.pending + cost job.rest := by
    rw [backlog, work_writeChunks]
  right
  left
  rw [work, work, before, after]
  omega

/-- An error about a chunk that is too long is shorter than the chunk. -/
theorem advances_raises {job : Job} (prompt : world.Prompt config)
    (produced : (config.expected world.results.length).isSome = true)
    (here : world.bridge = .polling job) (idle : world.state = .idle)
    (long : ¬ job.chunk.bytes.length ≤ config.limit) :
    Advances config .bridge world (world.bridgeTo (afterRangeError config job)) := by
  have writing : world.bridge.job = some job := by
    rw [here]
    rfl
  have owing := prompt.owing job writing produced
  apply advances_writes prompt.sound idle
  rw [sendable, if_neg long] at owing
  by_cases failed : job.chunk.state = .error
  · rw [if_pos failed] at owing
    exact absurd rfl owing
  · rw [if_neg failed] at owing
    by_cases fits : (failChunk config.rangeError).bytes.length ≤ config.limit
    · rw [here, afterRangeError, if_neg failed]
      simp only [BridgePhase.work, Chunk.cost, cost]
      omega
    · rw [if_neg fits] at owing
      exact absurd rfl owing

/-! ## Every step, and whose turn it is -/

/-- Every step before a deadline advances a call whose request is answered. -/
theorem advances_of_step {label : Label} (prompt : world.Prompt config)
    (produced : (config.expected world.results.length).isSome = true)
    (inside : world.shim ≠ .outside) (untimed : Untimed label world)
    (stepped : next config label world = some world') : Advances config label world world' := by
  have sound := prompt.sound
  have reads := sound.reads
  have fills := sound.fills
  cases moved_of_next stepped with
  | calls here => exact absurd here inside
  | expires => exact absurd rfl untimed
  | concludes => exact Or.inl rfl
  | posts here => exact advances_posts sound here
  | seesIdle here idle => exact advances_idle here rfl rfl idle
  | waits here => exact advances_waits here
  | slices state flags len copied here more => exact advances_slices sound here more
  | sliced state flags len copied here all => exact advances_sliced sound here
  | seesChunk here busy =>
      apply advances_of_shimWork
      · rfl
      · simp only [shimWork, shimTo, here, bufferWork, if_neg busy]
        exact Nat.lt_succ_self _
  | loadsState here | loadsFlags state here | loadsLen state flags here =>
      apply advances_of_shimWork
      · rfl
      · simp only [shimWork, shimTo, here]
        exact Nat.lt_succ_self _
  | releases payload here =>
      apply advances_of_shimWork
      · rfl
      · simp [shimWork, here, bufferWork]
  | goesOn payload heard here reaction =>
      apply advances_of_shimWork
      · rfl
      · simp only [shimWork, here]
        exact Nat.lt_succ_self _
  | delivers request inbox parked posted => exact advances_delivers posted
  | settles request parked waiting => exact advances_settles parked waiting
  | spins job here busy =>
      have turn : world.helpful = .shim := if_neg fun both => busy both.2
      refine Or.inr (Or.inr ⟨rfl, rfl, ?_⟩)
      rw [turn]
      exact Label.noConfusion
  | raises job here idle long => exact advances_raises prompt produced here idle long
  | publishes job here => exact advances_publishes sound here
  | begins job here idle fits =>
      apply advances_writes sound idle
      simp only [here, BridgePhase.work, Chunk.cost]
      omega
  | fills job count byte here present =>
      rw [Fills, here] at fills
      have below := (List.getElem?_eq_some_iff.mp present).1
      have less : (BridgePhase.filling job (count + 1)).work < world.bridge.work := by
        simp only [here, BridgePhase.work]
        omega
      have filled : Advances config .bridge world
          { world with
            data := world.data.set count byte
            bridge := .filling job (count + 1) } := advances_writes sound fills.1 less
      exact filled
  | filled job count here absent =>
      rw [Fills, here] at fills
      apply advances_writes sound fills.1
      have within := fills.2.2.1
      simp only [here, BridgePhase.work]
      omega
  | storesLen job here =>
      rw [Fills, here] at fills
      apply advances_writes sound fills.1
      simp only [here, BridgePhase.work]
      omega
  | storesFlags job here =>
      rw [Fills, here] at fills
      apply advances_writes sound fills.1
      simp only [here, BridgePhase.work]
      omega

theorem exists_shimNext (inside : world.shim ≠ .outside) : ∃ world', shimNext world = some world' := by
  unfold shimNext
  split
  case h_1 here => exact absurd here inside
  case h_8 =>
    split
    · exact ⟨_, rfl⟩
    · exact ⟨_, rfl⟩
  case h_10 =>
    split
    · exact ⟨_, rfl⟩
    · exact ⟨_, rfl⟩
  all_goals exact ⟨_, rfl⟩

theorem exists_bridgeStep (busy : world.bridge ≠ .parked) :
    ∃ world', bridgeStep config world = some world' := by
  unfold bridgeStep
  split
  case h_1 here => exact absurd here busy
  case h_2 =>
    split_ifs
    · exact ⟨_, rfl⟩
    · exact ⟨_, rfl⟩
    · exact ⟨_, rfl⟩
  case h_3 =>
    split
    · exact ⟨_, rfl⟩
    · exact ⟨_, rfl⟩
  all_goals exact ⟨_, rfl⟩

/-- A shim in its inner loop has taken nothing out of the buffer. -/
theorem held_of_waits {shim : ShimPhase} (waits : shim.waits = true) :
    shim.held = [] ∧ shim.running = true := by
  cases shim with
  | polling => exact ⟨rfl, rfl⟩
  | timing => exact ⟨rfl, rfl⟩
  | outside | posting | loadState | loadFlags | loadLen | slicing | releasing | reacting =>
      cases waits

/-- While the shim waits at a free buffer, the bridge owes it something. -/
theorem Sound.owes (sound : world.Sound config)
    (produced : (config.expected world.results.length).isSome = true)
    (waits : world.shim.waits = true) (idle : world.state = .idle) :
    world.owed config world.results.length ≠ [] := by
  obtain ⟨empty, running⟩ := held_of_waits waits
  intro nothing
  have comes := sound.converses running
  rw [unheard, empty, buffered, if_pos idle, nothing] at comes
  rw [show config.expected world.results.length = none from comes] at produced
  cases produced

/-- What is waited for can happen. -/
theorem exists_helpful (sound : world.Sound config)
    (produced : (config.expected world.results.length).isSome = true)
    (inside : world.shim ≠ .outside) : ∃ world', next config world.helpful world = some world' := by
  by_cases waiting : world.shim.waits = true ∧ world.state = .idle
  · have owes := sound.owes produced waiting.1 waiting.2
    rw [helpful, if_pos waiting]
    cases thread : world.bridge with
    | parked =>
        by_cases settling : world.results.length ∈ world.pending
        · rw [awaited, thread]
          simp only [if_pos settling, next, thread]
          exact ⟨_, rfl⟩
        · have posted : world.results.length ∈ world.inbox := by
            by_contra absent
            have unknown : world.results.length ∉ world.waiting := by
              simp [World.waiting, absent, settling]
            exact owes (owed_of_parked unknown thread)
          obtain ⟨request, inbox, queue⟩ := List.exists_cons_of_ne_nil (List.ne_nil_of_mem posted)
          rw [awaited, thread]
          simp only [if_neg settling, next, thread, queue]
          exact ⟨_, rfl⟩
    | polling | filling | storeLen | storeFlags | publishing =>
        rw [awaited, thread]
        apply exists_bridgeStep
        rw [thread]
        exact BridgePhase.noConfusion
  · rw [helpful, if_neg waiting]
    exact exists_shimNext inside

/-- The call with this number is running. -/
def Runs (request : Nat) (world : World) : Prop :=
  world.results.length = request ∧ world.shim ≠ .outside

/-- The call has been made. -/
def Made (request : Nat) (world : World) : Prop :=
  world.Runs request ∨ request < world.results.length

/-- A call that has been made is running or has ended. -/
theorem Made.step {request : Nat} {label : Label} (made : world.Made request)
    (stepped : next config label world = some world') : world'.Made request := by
  rcases made with ⟨rfl, inside⟩ | ended
  · cases moved_of_next stepped with
    | calls here => exact absurd here inside
    | expires | concludes =>
        right
        simp [ends]
    | posts | seesIdle | seesChunk | waits | loadsState | loadsFlags | loadsLen | slices | sliced
    | releases | goesOn => exact Or.inl ⟨rfl, ShimPhase.noConfusion⟩
    | delivers | settles | spins | begins | raises | fills | filled | storesLen | storesFlags
    | publishes => exact Or.inl ⟨rfl, inside⟩
  · right
    cases moved_of_next stepped with
    | expires | concludes =>
        simp only [ends, List.length_append]
        omega
    | calls | posts | seesIdle | seesChunk | waits | loadsState | loadsFlags | loadsLen | slices
    | sliced | releases | goesOn | delivers | settles | spins | begins | raises | fills | filled
    | storesLen | storesFlags | publishes => exact ended

/-- It stays made under every schedule. -/
theorem Made.stateAt {request n : Nat} {schedule : Nat → Label}
    (made : (stateAt (next config) schedule world n).Made request) (d : Nat) :
    (Transition.stateAt (next config) schedule world (n + d)).Made request := by
  induction d with
  | zero => exact made
  | succ d ih =>
      rw [← Nat.add_assoc, Transition.stateAt]
      cases stepped : next config (schedule (n + d))
          (Transition.stateAt (next config) schedule world (n + d)) with
      | none =>
          rw [stepOrStay_of_none stepped]
          exact ih
      | some target =>
          rw [stepOrStay_of_some stepped]
          exact ih.step stepped

/-- The one that is waited for while a call is running. -/
theorem helpful_cases (world : World) :
    world.helpful = .shim ∨ world.helpful = .bridge ∨ world.helpful = .deliver ∨
      world.helpful = .settle world.results.length := by
  by_cases waiting : world.shim.waits = true ∧ world.state = .idle
  · rw [helpful, if_pos waiting, awaited]
    cases world.bridge with
    | parked =>
        by_cases settling : world.results.length ∈ world.pending
        · simp [settling]
        · simp [settling]
    | polling | filling | storeLen | storeFlags | publishing => exact Or.inr (Or.inl rfl)
  · rw [helpful, if_neg waiting]
    exact Or.inl rfl

/-! ## The call ends -/

/-- The running call progresses until it ends. -/
def progress {request : Nat} (produced : (config.expected request).isSome = true) :
    Progress (next config) (Prompt config) (fun world => ¬ world.Runs request)
      (fun label => label ≠ .deadline) where
  measure := work config
  helpful := helpful
  stable label state offered prompt running := by
    obtain ⟨rfl, inside⟩ := not_not.mp running
    cases stepped : next config label state with
    | none =>
        rw [stepOrStay_of_none stepped]
        exact Or.inr (Or.inr ⟨rfl, rfl⟩)
    | some target =>
        rw [stepOrStay_of_some stepped]
        rcases advances_of_step prompt produced inside offered stepped with
          outside | less | ⟨same, turn, _⟩
        · exact Or.inl fun runs => runs.2 outside
        · exact Or.inr (Or.inl less)
        · exact Or.inr (Or.inr ⟨same, turn⟩)
  advances state prompt running := by
    obtain ⟨rfl, inside⟩ := not_not.mp running
    obtain ⟨target, stepped⟩ := exists_helpful prompt.sound produced inside
    have untimed : Untimed state.helpful state := by
      rcases helpful_cases state with turn | turn | turn | turn
      all_goals
        rw [Untimed, turn]
        exact Label.noConfusion
    rw [stepOrStay_of_some stepped]
    rcases advances_of_step prompt produced inside untimed stepped with
      outside | less | ⟨_, _, other⟩
    · exact Or.inl fun runs => runs.2 outside
    · exact Or.inr less
    · exact absurd rfl other

/-- The shim has read part of what is in the buffer. -/
def ShimReads (world : World) : Prop :=
  match world.shim with
  | .loadFlags _ | .loadLen _ _ | .slicing _ _ _ _ => True
  | _ => False

/-- The bridge has changed part of what is in the buffer. -/
def BridgeWrites (world : World) : Prop :=
  match world.bridge with
  | .filling _ _ | .storeLen _ | .storeFlags _ | .publishing _ => True
  | _ => False

/-- Nothing is read while it is overwritten. -/
theorem Sound.not_torn (sound : world.Sound config) :
    ¬ (world.ShimReads ∧ world.BridgeWrites) := by
  rintro ⟨reading, writing⟩
  have busy : world.state ≠ .idle := by
    have reads := sound.reads
    unfold Reads at reads
    unfold ShimReads at reading
    cases here : world.shim with
    | loadFlags | loadLen | slicing =>
        rw [here] at reads
        exact reads.1
    | outside | posting | polling | timing | loadState | releasing | reacting =>
        rw [here] at reading
        exact reading.elim
  have idle : world.state = .idle := by
    have fills := sound.fills
    unfold Fills at fills
    unfold BridgeWrites at writing
    cases thread : world.bridge with
    | filling | storeLen | storeFlags | publishing =>
        rw [thread] at fills
        exact fills.1
    | parked | polling =>
        rw [thread] at writing
        exact writing.elim
  exact busy idle

end World

/-- Whatever the two workers are offered to do, fairly and with time left, a call
whose reply fits ends with that reply, and nothing is ever read while it is
overwritten. -/
theorem exact_of_fair {config : Config} {schedule : Nat → Label}
    (untimed : ∀ n, schedule n ≠ .deadline) (shims : Recurrent schedule .shim)
    (bridges : Recurrent schedule .bridge) (deliveries : Recurrent schedule .deliver)
    {request : Nat} (settles : Recurrent schedule (.settle request))
    (fits : (config.replies request).Fits config.limit) {n : Nat}
    (runs : (stateAt (next config) schedule (World.initial config) n).Runs request) :
    (∃ m, n ≤ m ∧ (stateAt (next config) schedule (World.initial config) m).results[request]? =
      some (config.replies request).outcome) ∧
      ∀ m, ¬ ((stateAt (next config) schedule (World.initial config) m).ShimReads ∧
        (stateAt (next config) schedule (World.initial config) m).BridgeWrites) := by
  have prompt : ∀ m, (stateAt (next config) schedule (World.initial config) m).Prompt config :=
    fun m => World.prompt_of_untimed
      (run_stateAt (next config) schedule _ (fun step _ => untimed step) m)
  have expected : config.expected request = some (config.replies request).outcome := by
    rw [Config.expected, fits.produced, Option.map_some]
  have produced : (config.expected request).isSome = true := by
    rw [expected]
    rfl
  constructor
  · have fair : ∀ m, ¬ ¬ (stateAt (next config) schedule (World.initial config) m).Runs request →
        Recurrent schedule
          (stateAt (next config) schedule (World.initial config) m).helpful := by
      intro m running
      have own := (not_not.mp running).1
      rcases World.helpful_cases
          (stateAt (next config) schedule (World.initial config) m) with turn | turn | turn | turn
      · exact turn ▸ shims
      · exact turn ▸ bridges
      · exact turn ▸ deliveries
      · rw [turn, own]
        exact settles
    obtain ⟨m, later, stopped⟩ := (World.progress produced).reaches untimed prompt fair n
    obtain ⟨d, rfl⟩ := Nat.exists_eq_add_of_le later
    have made := World.Made.stateAt (Or.inl runs) d
    have ended := made.resolve_left stopped
    obtain ⟨outcome, result⟩ : ∃ outcome,
        (stateAt (next config) schedule (World.initial config) (n + d)).results[request]? =
          some outcome := ⟨_, List.getElem?_eq_getElem ended⟩
    have own := (prompt (n + d)).answered request outcome result
    rw [expected] at own
    exact ⟨n + d, later, result.trans own.symm⟩
  · exact fun m => (prompt m).sound.not_torn

/-- Every party in turn. -/
def inTurn (n : Nat) : Label :=
  match n % 5 with
  | 0 => .call
  | 1 => .shim
  | 2 => .deliver
  | 3 => .settle 0
  | _ => .bridge

theorem recurrent_inTurn (turn : Nat) {label : Label} (due : ∀ n, inTurn (5 * n + turn) = label) :
    Recurrent inTurn label :=
  fun n => ⟨5 * n + turn, by omega, due n⟩

/-- The first of the two requests is answered in full. -/
theorem exact_twoRequests :
    ∃ m, (stateAt (next twoRequests) inTurn (World.initial twoRequests) m).results[0]? =
      some (twoRequests.replies 0).outcome := by
  have untimed : ∀ n, inTurn n ≠ .deadline := by
    intro n
    unfold inTurn
    split <;> exact Label.noConfusion
  have due : ∀ turn, turn < 5 → ∀ n, inTurn (5 * n + turn) = inTurn turn := by
    intro turn small n
    simp [inTurn]
  have fits : (twoRequests.replies 0).Fits twoRequests.limit := by
    change _ ≤ _
    decide +kernel
  have runs : (stateAt (next twoRequests) inTurn (World.initial twoRequests) 1).Runs 0 :=
    ⟨rfl, ShimPhase.noConfusion⟩
  obtain ⟨⟨m, _, result⟩, _⟩ := exact_of_fair untimed (recurrent_inTurn 1 (due 1 (by decide)))
    (recurrent_inTurn 4 (due 4 (by decide))) (recurrent_inTurn 2 (due 2 (by decide)))
    (recurrent_inTurn 3 (due 3 (by decide))) fits runs
  exact ⟨m, result⟩

/-- Two errors: one with an empty message, and one whose message begins with a
byte order mark. -/
def twoErrors : Config where
  limit := 32
  positive := by decide
  rangeError := "offset is out of bounds".toList
  replies request := .failure ([[], "\uFEFFno peer".toList].getD request [])

/-- Both calls are answered in time. -/
def errorLabels : List Label :=
  [.call, .shim, .deliver, .settle 0] ++ List.replicate 5 .bridge ++ List.replicate 7 .shim ++
    [.call, .shim, .deliver, .settle 1] ++ List.replicate 15 .bridge ++ List.replicate 17 .shim

/-- The message of a thrown error. -/
def Outcome.message : Outcome → Option Text
  | .bridgeError message => some message
  | _ => none

/-- Both errors fit and no deadline expires, and neither call throws the message of
its error. -/
theorem not_exact_twoErrors :
    (twoErrors.replies 0).Fits twoErrors.limit ∧ (twoErrors.replies 1).Fits twoErrors.limit ∧
      .deadline ∉ errorLabels ∧
      twoErrors.replies 0 = .failure [] ∧
      twoErrors.replies 1 = .failure "\uFEFFno peer".toList ∧
      ∃ world, exec (next twoErrors) errorLabels (World.initial twoErrors) = some world ∧
        world.results.map Outcome.message =
          [some "bridge error".toList, some "no peer".toList] := by
  have thrown : (exec (next twoErrors) errorLabels (World.initial twoErrors)).map
      (fun world => world.results.map Outcome.message) =
        some [some "bridge error".toList, some "no peer".toList] := by decide +kernel
  obtain ⟨world, executed, messages⟩ := Option.map_eq_some_iff.mp thrown
  have marked : (failChunk "\uFEFFno peer".toList).bytes.length ≤ 32 := by decide
  exact ⟨Nat.zero_le _, marked, by decide, rfl, rfl, world, executed, messages⟩

end Quackhole.Web
