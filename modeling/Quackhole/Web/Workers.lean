import Quackhole.Transition.Labelled
import Quackhole.Web.Protocol

/-!
# The shim and the bridge

The two workers share three words and a data region, and one message port leads
from the shim to the bridge.  Each atomic load, store and wait is a step of its own, and so is
each byte that `data.set` and `data.slice` copy, so the two interleave in every
way.  A wait can return at any time: woken, timed out, or for no reason.

The bridge answers in whatever order the network does, but writes one reply at a
time: `writeChunk` blocks its thread.  Both workers have been started, and the
fault injection of the tests is off.
-/

namespace Quackhole.Web

open Quackhole.Word
open Quackhole.Transition

/-- The data region, and what the bridge makes of each request. -/
structure Config where
  /-- `data.length`. -/
  limit : Nat
  positive : 0 < limit
  /-- What the engine says when `data.set` raises. -/
  rangeError : Text
  /-- What the request of each call of `roundTrip` comes to. -/
  replies : Nat → Reply

/-- Where `roundTrip` stands. -/
inductive ShimPhase where
  /-- No call is running. -/
  | outside
  | posting
  /-- About to load `STATE` in the condition of the inner loop. -/
  | polling
  /-- `STATE` was `IDLE`: about to look at the clock, and to wait. -/
  | timing
  | loadState
  | loadFlags (state : Signal)
  | loadLen (state : Signal) (flags : Nat)
  /-- Inside `data.slice`, with this much copied. -/
  | slicing (state : Signal) (flags len : Nat) (copied : Bytes)
  /-- About to store `IDLE`. -/
  | releasing (payload : Chunk)
  /-- Acting on the chunk. -/
  | reacting (payload : Chunk)

/-- A handler inside `writeChunk`, and the calls it will make after it. -/
structure Job where
  request : Nat
  chunk : Chunk
  rest : List Chunk

/-- Where the thread of the bridge stands. -/
inductive BridgePhase where
  /-- In the event loop: every handler is awaiting something. -/
  | parked
  /-- About to load `STATE` in the condition of the loop of `writeChunk`. -/
  | polling (job : Job)
  /-- Inside `data.set`, with this many bytes written. -/
  | filling (job : Job) (count : Nat)
  | storeLen (job : Job)
  | storeFlags (job : Job)
  /-- About to store `STATE`. -/
  | publishing (job : Job)

/-- Both workers and what is between them. -/
structure World where
  state : Signal
  len : Nat
  flags : Nat
  data : Bytes
  /-- Requests posted and not delivered. -/
  inbox : List Nat
  /-- Requests whose handlers are awaiting the network. -/
  pending : List Nat
  bridge : BridgePhase
  shim : ShimPhase
  heard : Heard
  /-- How the calls of `roundTrip` have ended, in order. -/
  results : List Outcome

/-- What can happen next. -/
inductive Label where
  /-- `roundTrip` is called, and resets `STATE`. -/
  | call
  /-- The shim takes a step, with time left. -/
  | shim
  /-- The shim looks at the clock and has no time left. -/
  | deadline
  /-- A message is delivered to the bridge. -/
  | deliver
  /-- The request of this call has come to its reply. -/
  | settle (request : Nat)
  /-- The bridge takes a step. -/
  | bridge
  deriving DecidableEq

/-- A handler makes these calls of `writeChunk` next. -/
def writeChunks (request : Nat) : List Chunk → BridgePhase
  | [] => .parked
  | chunk :: rest => .polling ⟨request, chunk, rest⟩

namespace World

/-- Both workers are ready and nothing has been asked. -/
def initial (config : Config) : World where
  state := .idle
  len := 0
  flags := 0
  data := List.replicate config.limit 0
  inbox := []
  pending := []
  bridge := .parked
  shim := .outside
  heard := .nothing
  results := []

/-- The shim moves on. -/
def shimTo (world : World) (shim : ShimPhase) : World :=
  { world with shim }

/-- The thread of the bridge moves on. -/
def bridgeTo (world : World) (bridge : BridgePhase) : World :=
  { world with bridge }

/-- `roundTrip` ends. -/
def ends (world : World) (outcome : Outcome) : World :=
  { world with shim := .outside, results := world.results ++ [outcome] }

/-- `data.set` writes one byte. -/
def setByte (world : World) (index : Nat) (byte : UInt8) : World :=
  { world with data := world.data.set index byte }

end World

/-- What the handler does when `data.set` raises: `onmessage` catches it and
fails, and nothing catches it in `fail`. -/
def afterRangeError (config : Config) (job : Job) : BridgePhase :=
  if job.chunk.state = .error then .parked
  else .polling ⟨job.request, failChunk config.rangeError, []⟩

/-- One step of the shim. -/
def shimNext (world : World) : Option World :=
  match world.shim with
  | .outside => none
  | .posting => some { world with inbox := world.inbox ++ [world.results.length], shim := .polling }
  | .polling => some (world.shimTo (if world.state = .idle then .timing else .loadState))
  | .timing => some (world.shimTo .polling)
  | .loadState => some (world.shimTo (.loadFlags world.state))
  | .loadFlags state => some (world.shimTo (.loadLen state world.flags))
  | .loadLen state flags => some (world.shimTo (.slicing state flags world.len []))
  | .slicing state flags len copied =>
      if copied.length < min len world.data.length then
        let byte := world.data.getD copied.length 0
        some (world.shimTo (.slicing state flags len (copied ++ [byte])))
      else some (world.shimTo (.releasing ⟨copied, flags, state⟩))
  | .releasing payload => some { world with state := .idle, shim := .reacting payload }
  | .reacting payload =>
      match world.heard.react payload with
      | .inl heard => some { world with heard, shim := .polling }
      | .inr outcome => some (world.ends outcome)

/-- One step of the thread of the bridge. -/
def bridgeStep (config : Config) (world : World) : Option World :=
  match world.bridge with
  | .parked => none
  | .polling job =>
      if world.state ≠ .idle then some world
      else if job.chunk.bytes.length ≤ config.limit then some (world.bridgeTo (.filling job 0))
      else some (world.bridgeTo (afterRangeError config job))
  | .filling job count =>
      match job.chunk.bytes[count]? with
      | some byte => some ((world.setByte count byte).bridgeTo (.filling job (count + 1)))
      | none => some (world.bridgeTo (.storeLen job))
  | .storeLen job =>
      some { world with len := job.chunk.bytes.length, bridge := .storeFlags job }
  | .storeFlags job => some { world with flags := job.chunk.flags, bridge := .publishing job }
  | .publishing job =>
      some { world with
        state := job.chunk.state
        bridge := writeChunks job.request job.rest }

/-- One step of the two workers. -/
def next (config : Config) : LStep Label World
  | .call, world =>
      match world.shim with
      | .outside => some { world with state := .idle, shim := .posting, heard := .nothing }
      | _ => none
  | .shim, world => shimNext world
  | .deadline, world =>
      match world.shim with
      | .timing => some (world.ends .deadline)
      | _ => none
  | .deliver, world =>
      match world.bridge, world.inbox with
      | .parked, request :: inbox =>
          some { world with inbox, pending := world.pending ++ [request] }
      | _, _ => none
  | .settle request, world =>
      match world.bridge with
      | .parked =>
          if request ∈ world.pending then
            some { world with
              pending := world.pending.erase request
              bridge := writeChunks request ((config.replies request).chunks config.limit) }
          else none
      | _ => none
  | .bridge, world => bridgeStep config world

/-! ## What a step can do -/

/-- Every step of the two workers, by the phases it leaves. -/
inductive Moved (config : Config) (world : World) : Label → World → Prop
  | calls : world.shim = .outside →
      Moved config world .call { world with state := .idle, shim := .posting, heard := .nothing }
  | posts : world.shim = .posting →
      Moved config world .shim
        { world with inbox := world.inbox ++ [world.results.length], shim := .polling }
  | seesIdle : world.shim = .polling → world.state = .idle →
      Moved config world .shim (world.shimTo .timing)
  | seesChunk : world.shim = .polling → world.state ≠ .idle →
      Moved config world .shim (world.shimTo .loadState)
  | waits : world.shim = .timing → Moved config world .shim (world.shimTo .polling)
  | expires : world.shim = .timing → Moved config world .deadline (world.ends .deadline)
  | loadsState : world.shim = .loadState →
      Moved config world .shim (world.shimTo (.loadFlags world.state))
  | loadsFlags (state : Signal) : world.shim = .loadFlags state →
      Moved config world .shim (world.shimTo (.loadLen state world.flags))
  | loadsLen (state : Signal) (flags : Nat) : world.shim = .loadLen state flags →
      Moved config world .shim (world.shimTo (.slicing state flags world.len []))
  | slices (state : Signal) (flags len : Nat) (copied : Bytes) :
      world.shim = .slicing state flags len copied →
      copied.length < min len world.data.length →
      Moved config world .shim
        (world.shimTo
          (.slicing state flags len (copied ++ [world.data.getD copied.length 0])))
  | sliced (state : Signal) (flags len : Nat) (copied : Bytes) :
      world.shim = .slicing state flags len copied →
      min len world.data.length ≤ copied.length →
      Moved config world .shim (world.shimTo (.releasing ⟨copied, flags, state⟩))
  | releases (payload : Chunk) : world.shim = .releasing payload →
      Moved config world .shim { world with state := .idle, shim := .reacting payload }
  | goesOn (payload : Chunk) (heard : Heard) : world.shim = .reacting payload →
      world.heard.react payload = .inl heard →
      Moved config world .shim { world with heard, shim := .polling }
  | concludes (payload : Chunk) (outcome : Outcome) : world.shim = .reacting payload →
      world.heard.react payload = .inr outcome →
      Moved config world .shim (world.ends outcome)
  | delivers (request : Nat) (inbox : List Nat) : world.bridge = .parked →
      world.inbox = request :: inbox →
      Moved config world .deliver { world with inbox, pending := world.pending ++ [request] }
  | settles (request : Nat) : world.bridge = .parked → request ∈ world.pending →
      Moved config world (.settle request)
        { world with
          pending := world.pending.erase request
          bridge := writeChunks request ((config.replies request).chunks config.limit) }
  | spins (job : Job) : world.bridge = .polling job → world.state ≠ .idle →
      Moved config world .bridge world
  | begins (job : Job) : world.bridge = .polling job → world.state = .idle →
      job.chunk.bytes.length ≤ config.limit →
      Moved config world .bridge (world.bridgeTo (.filling job 0))
  | raises (job : Job) : world.bridge = .polling job → world.state = .idle →
      ¬ job.chunk.bytes.length ≤ config.limit →
      Moved config world .bridge (world.bridgeTo (afterRangeError config job))
  | fills (job : Job) (count : Nat) (byte : UInt8) : world.bridge = .filling job count →
      job.chunk.bytes[count]? = some byte →
      Moved config world .bridge ((world.setByte count byte).bridgeTo (.filling job (count + 1)))
  | filled (job : Job) (count : Nat) : world.bridge = .filling job count →
      job.chunk.bytes[count]? = none →
      Moved config world .bridge (world.bridgeTo (.storeLen job))
  | storesLen (job : Job) : world.bridge = .storeLen job →
      Moved config world .bridge
        { world with len := job.chunk.bytes.length, bridge := .storeFlags job }
  | storesFlags (job : Job) : world.bridge = .storeFlags job →
      Moved config world .bridge
        { world with flags := job.chunk.flags, bridge := .publishing job }
  | publishes (job : Job) : world.bridge = .publishing job →
      Moved config world .bridge
        { world with state := job.chunk.state, bridge := writeChunks job.request job.rest }

theorem moved_of_shimNext {config : Config} {world world' : World}
    (stepped : shimNext world = some world') : Moved config world .shim world' := by
  unfold shimNext at stepped
  split at stepped
  · cases stepped
  · rename_i here
    cases stepped
    exact .posts here
  · rename_i here
    cases stepped
    split
    · rename_i idle
      exact .seesIdle here idle
    · rename_i busy
      exact .seesChunk here busy
  · rename_i here
    cases stepped
    exact .waits here
  · rename_i here
    cases stepped
    exact .loadsState here
  · rename_i state here
    cases stepped
    exact .loadsFlags state here
  · rename_i state flags here
    cases stepped
    exact .loadsLen state flags here
  · rename_i state flags len copied here
    split at stepped
    · rename_i more
      cases stepped
      exact .slices state flags len copied here more
    · rename_i all
      cases stepped
      exact .sliced state flags len copied here (Nat.le_of_not_lt all)
  · rename_i payload here
    cases stepped
    exact .releases payload here
  · rename_i payload here
    split at stepped
    · rename_i heard reaction
      cases stepped
      exact .goesOn payload heard here reaction
    · rename_i outcome reaction
      cases stepped
      exact .concludes payload outcome here reaction

theorem moved_of_bridgeStep {config : Config} {world world' : World}
    (stepped : bridgeStep config world = some world') : Moved config world .bridge world' := by
  unfold bridgeStep at stepped
  split at stepped
  · cases stepped
  · rename_i job here
    split at stepped
    · rename_i busy
      cases stepped
      exact .spins job here busy
    · rename_i free
      have idle : world.state = .idle := not_not.mp free
      split at stepped
      · rename_i fits
        cases stepped
        exact .begins job here idle fits
      · rename_i long
        cases stepped
        exact .raises job here idle long
  · rename_i job count here
    split at stepped
    · rename_i byte present
      cases stepped
      exact .fills job count byte here present
    · rename_i absent
      cases stepped
      exact .filled job count here absent
  · rename_i job here
    cases stepped
    exact .storesLen job here
  · rename_i job here
    cases stepped
    exact .storesFlags job here
  · rename_i job here
    cases stepped
    exact .publishes job here

/-- A step is one of these. -/
theorem moved_of_next {config : Config} {label : Label} {world world' : World}
    (stepped : next config label world = some world') : Moved config world label world' := by
  unfold next at stepped
  split at stepped
  · split at stepped
    · rename_i here
      cases stepped
      exact .calls here
    · cases stepped
  · exact moved_of_shimNext stepped
  · split at stepped
    · rename_i here
      cases stepped
      exact .expires here
    · cases stepped
  · split at stepped
    · rename_i request inbox parked waiting
      cases stepped
      exact .delivers request inbox parked waiting
    · cases stepped
  · split at stepped
    · rename_i parked
      split at stepped
      · rename_i waiting
        cases stepped
        exact .settles _ parked waiting
      · cases stepped
    · cases stepped
  · exact moved_of_bridgeStep stepped

end Quackhole.Web
